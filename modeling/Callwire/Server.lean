/-
# Servers

All connections of a server share its services, and nothing else. Each
connection has its own bound on the calls that run, its own bound on the size
of a body, and its own queue of answers.

Key definitions: `Server`, `Server.Config`, `Server.Event`, `Server.step`,
`Server.clockwork`.
-/
import Callwire.Clock
import Callwire.Connection

namespace Callwire

/-- The bounds of each connection of a server. -/
structure Server.Config where
  maxCalls : Nat := 256
  maxBody : Nat := maxBodySize
  capacity : Nat := 1024
deriving DecidableEq, Repr

/-- A server: its services, its connections in the order in which they came,
and the time. -/
structure Server (σ : Type) where
  config : Server.Config := {}
  registry : Registry σ := {}
  connections : List (Connection σ) := []
  now : Nat := 0

namespace Server

variable {σ : Type}

/-- What can happen to a server. -/
inductive Event where
  | arrive (tunnelled : Bool)
  | tick (nanos : Nat)
  | connection (i : Nat) (e : Connection.Event)
deriving DecidableEq, Repr

/-- A server with services. One that cannot be published is left out. -/
def ofServices (config : Config) (ss : List (Service σ)) : Server σ where
  config := config
  registry := ss.foldl (fun r s => (r.register s).toOption.getD r) {}

/-- The server with one more connection. -/
def arrive (s : Server σ) (tunnelled : Bool) : Server σ :=
  let c := s.config
  { s with connections := s.connections ++ [.fresh c.maxBody c.maxCalls c.capacity tunnelled] }

/-- The server after one of its connections has changed. -/
def put (s : Server σ) (i : Nat) (p : Connection σ × Registry σ) : Server σ :=
  { s with connections := s.connections.set i p.1, registry := p.2 }

/-- What an event makes of a server, if it can happen. -/
def step (s : Server σ) : Event → Option (Server σ)
  | .arrive tunnelled => some (s.arrive tunnelled)
  | .tick n => some { s with now := s.now + n }
  | .connection i e => do
    let c ← s.connections[i]?
    return s.put i (← c.step s.now s.registry e)

/-- The server after an event, or as it was if the event cannot happen. -/
def apply (s : Server σ) (e : Event) : Server σ := (s.step e).getD s

/-- The first connection from a place on that can do something, after it. -/
def nextFrom? (s : Server σ) (i : Nat) : List (Connection σ) → Option (Server σ)
  | [] => none
  | c :: cs =>
    match c.next? s.now s.registry with
    | some p => some (s.put i p)
    | none => nextFrom? s (i + 1) cs

/-- The server after the first thing that can happen by itself. -/
def next? (s : Server σ) : Option (Server σ) := s.nextFrom? 0 s.connections

/-- The earliest timer of all connections. -/
def timer? (s : Server σ) : Option Nat := (s.connections.filterMap (·.timer? s.now)).min?

/-- More than the server can do before something arrives. -/
def work (s : Server σ) : Nat := s.connections.foldl (fun n c => n + c.work) 0

/-- The server under a clock. -/
def clockwork : Clockwork (Server σ) where
  next? := next?
  timer? := timer?
  moveTo t s := { s with now := t }
  fuel := work

end Server
end Callwire
