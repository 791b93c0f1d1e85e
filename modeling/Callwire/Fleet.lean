/-
# A balancer in a network

The numbers of a balancer's clients are the network's wires, in the order in
which they were dialed. Only the balancer's own calls use these clients.

A fleet changes by events. Some come from its callers, from the network, and from
whatever is at the other end of a client's connection; the others happen by
themselves, in any order, whenever `step` allows them. Left alone, calls go forward
in order, each until it has to wait; then a dial under way ends, and then the network
goes on. A dial that cannot succeed fails at once.

Key definitions: `Order`, `Fleet`, `Fleet.Event`, `Fleet.step`, `Fleet.next?`,
`Fleet.call`, `Fleet.broadcast`, `Fleet.close`.
-/
import Callwire.Balancer
import Callwire.Network

namespace Callwire

/-- What is called, with what, and how the reply is read. -/
structure Order where
  target : String
  args : Datum
  reply : Shape

/-- A balancer, the orders of its calls, the options it dials with, and the
network that it is in. -/
structure Fleet (σ : Type) where
  options : Options
  network : Network σ
  balancer : Balancer := {}
  orders : List Order := []

namespace Fleet

variable {σ : Type}

/-- What can happen to a fleet. Callers begin calls and broadcasts, cancel either, and
close the pool. A call goes forward, its dial ends, and it is given up once its caller
has cancelled it; a request to close the pool goes forward. The network goes on, and what
is at the other end of a client's connection says or does anything. -/
inductive Event where
  | call (address : String) (order : Order) (cancelled : Bool)
  | broadcast (addresses : List String) (order : Order) (cancelled : Bool)
  | cancel (i : Nat)
  | withdraw (g : Nat)
  | close
  | forward (i : Nat)
  | connect (i : Nat)
  | fail (i : Nat) (why : Fault)
  | giveUp (i : Nat)
  | shut (j : Nat)
  | network (e : Network.Event)
  | peer (k : Nat) (e : Client.Event)

/-- The client of a number takes calls. -/
def isAlive (f : Fleet σ) (client : Nat) : Bool :=
  (f.network.wires[client]?).any (·.client.isAvailable)

/-- The fleet after an event of its balancer. -/
def advance (f : Fleet σ) (e : Balancer.Event) : Option (Fleet σ) :=
  (f.balancer.step e).map fun b => { f with balancer := b }

/-- The fleet after an event of a client. -/
def onClient (f : Fleet σ) (client : Nat) (e : Client.Event) : Fleet σ :=
  { f with network := f.network.apply (.client client e) }

/-- Sends a call, unless it was cancelled. The call's number is its name at the client. -/
def send (f : Fleet σ) (i client : Nat) : Option (Fleet σ) := do
  let e ← f.balancer.errands[i]?
  let order ← f.orders[i]?
  let g ← f.advance (.send i)
  return if f.balancer.isAborted e || f.balancer.isCancelled e then g
    else g.onClient client (.begin i order.target order.args)

/-- Takes the outcome of a call. -/
def take (f : Fleet σ) (i client : Nat) : Option (Fleet σ) := do
  let w ← f.network.wires[client]?
  let order ← f.orders[i]?
  let r ← w.client.outcome? i
  let f := f.onClient client (.abandon i)
  f.advance (.answer i (Client.readReply w.client.options.codec order.reply r))

/-- The fleet after a call has gone forward, if it need not wait. -/
def forward? (f : Fleet σ) (i : Nat) : Option (Fleet σ) := do
  let e ← f.balancer.errands[i]?
  match e.phase with
  | .fresh => f.advance (.check i)
  | .wanting => f.advance (.enter i ((f.balancer.pool.lookup e.address).any f.isAlive))
  | .evicting client => (f.onClient client .close).advance (.evict i)
  | .dialing =>
    match f.network.dialText e.address f.options with
    | .error why => f.advance (.refuse i why)
    | .ok _ => none
  | .ready client => f.send i client
  | .calling client => f.take i client
  | .done _ => none

/-- The fleet after the dial of a call has succeeded. -/
def connect? (f : Fleet σ) (i : Nat) : Option (Fleet σ) := do
  let e ← f.balancer.errands[i]?
  let .dialing := e.phase | none
  match f.network.dialText e.address f.options with
  | .error _ => none
  | .ok n => ({ f with network := n } : Fleet σ).advance (.connect i)

/-- A dial can end with this fault at any time: there is no stream, or its budget is
over. -/
def breaksDial (f : Fleet σ) : Fault → Bool
  | .stream _ => true
  | .connectTimeout budget => budget == f.options.connectTimeout
  | _ => false

/-- The fleet after a call was given up that its caller has cancelled. -/
def giveUp? (f : Fleet σ) (i : Nat) : Option (Fleet σ) := do
  let e ← f.balancer.errands[i]?
  let .calling client := e.phase | none
  if f.balancer.isCancelled e then
    (f.onClient client (.abandon i)).advance (.answer i (.error (.cancelled .call)))
  else none

/-- The fleet after a request to close the pool has gone forward. -/
def shut? (f : Fleet σ) (j : Nat) : Option (Fleet σ) := do
  match ← f.balancer.closings[j]? with
  | none => f.advance (.drain j)
  | some [] => none
  | some (client :: _) => (f.onClient client .close).advance (.shut j)

/-- The fleet after something has come to a client from the other end of its
connection. -/
def hear? (f : Fleet σ) (k : Nat) (e : Client.Event) : Option (Fleet σ) := do
  let w ← f.network.wires[k]?
  return { f with network := f.network.putClient k w (← w.client.step e) }

/-- What an event makes of a fleet, if it can happen. -/
def step (f : Fleet σ) : Event → Option (Fleet σ)
  | .call address order cancelled =>
    { f with orders := f.orders ++ [order] }.advance (.call address cancelled)
  | .broadcast addresses order cancelled =>
    { f with orders := f.orders ++ List.replicate addresses.length order }.advance
      (.broadcast addresses cancelled)
  | .cancel i => f.advance (.cancel i)
  | .withdraw g => f.advance (.withdraw g)
  | .close => f.advance .close
  | .forward i => f.forward? i
  | .connect i => f.connect? i
  | .fail i why => if f.breaksDial why then f.advance (.refuse i why) else none
  | .giveUp i => f.giveUp? i
  | .shut j => f.shut? j
  | .network e =>
    if e.isCallers then none else (f.network.step e).map fun n => { f with network := n }
  | .peer k e => if e.isOwn then none else f.hear? k e

/-- The fleet after an event, or as it was if the event cannot happen. -/
def apply (f : Fleet σ) (e : Event) : Fleet σ := (f.step e).getD f

/-- The events that may happen by themselves, in order; the network's come after them. -/
def candidates (f : Fleet σ) : List Event :=
  let errands := List.range f.balancer.errands.length
  errands.map .forward ++ errands.map .giveUp ++
    (List.range f.balancer.closings.length).map .shut ++ errands.map .connect

/-- The fleet after the first thing that can happen by itself. -/
def next? (f : Fleet σ) : Option (Fleet σ) :=
  match f.candidates.findSome? f.step with
  | some g => some g
  | none => f.network.next?.map fun n => { f with network := n }

/-- The fleet under a clock. -/
def clockwork : Clockwork (Fleet σ) where
  next? := next?
  timer? f := f.network.timer?
  moveTo t f := { f with network := Network.clockwork.moveTo t f.network }
  fuel f := f.network.work + 256 * (f.balancer.errands.length + f.balancer.pool.length + 1)

/-- The outcome of a call, if there ever is one, and the fleet then. -/
def await (f : Fleet σ) (i : Nat) : Option (Except Fault Datum) × Fleet σ :=
  let outcome (f : Fleet σ) := (f.balancer.errands[i]?).bind (·.outcome?)
  let f := clockwork.runWhile (fun f => (outcome f).isNone) f
  (outcome f, f)

/-- Calls the server at an address and waits for the outcome, if there ever is
one. -/
def call (f : Fleet σ) (address : String) (order : Order) (cancelled : Bool) :
    Option (Except Fault Datum) × Fleet σ :=
  (f.apply (.call address order cancelled)).await f.balancer.errands.length

/-- Calls the servers at all addresses and waits for the outcome, if there ever
is one; the first reply stands beside it. -/
def broadcast (f : Fleet σ) (addresses : List String) (order : Order) (cancelled : Bool) :
    Option (Except Fault Unit) × Option Datum × Fleet σ :=
  let g := f.balancer.broadcasts.length
  let f := f.apply (.broadcast addresses order cancelled)
  let f := clockwork.runWhile (fun f => (f.balancer.broadcastOutcome? g).isNone) f
  (f.balancer.broadcastOutcome? g, (f.balancer.broadcasts[g]?).bind (·.reply), f)

/-- Closes all clients of the pool. -/
def close (f : Fleet σ) : Fleet σ := clockwork.quiet (f.apply .close)

/-- The fleet after the wires of a server were cut. -/
def cut (f : Fleet σ) (i : Nat) : Fleet σ :=
  clockwork.quiet { f with network := f.network.cut i }

end Fleet
end Callwire
