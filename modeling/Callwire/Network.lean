/-
# Clients and servers joined by streams

A wire joins a client to one connection of a server. It carries bytes both
ways, in order and without loss, as many at a time as it likes. It carries the
end of a side after the last of its bytes, and a side that is gone altogether
makes the writes of the other fail. All servers share one time.

A network reaches servers on the same machine; whether it also carries
Internet protocols is its own matter. What listens at an address may be a
server, or someone who says nothing, or someone who says one thing whatever is
asked.

Key definitions: `Peer`, `Listener`, `Wire`, `Network`, `Network.Event`,
`Network.step`, `Network.dial`, `Network.dialText`, `Network.clockwork`.
-/
import Callwire.Address
import Callwire.Client
import Callwire.Server

namespace Callwire

/-- Who listens at an address. -/
inductive Peer where
  | server (i : Nat)
  | silent
  | scripted (reply : Bytes)
deriving DecidableEq, Repr

/-- An address at which someone listens. With the protocol of tunnels, each
connection begins with one. -/
structure Listener where
  address : Address
  peer : Peer
deriving DecidableEq, Repr

/-- A client and the connection it is joined to: a server's number and the
connection's. -/
structure Wire where
  client : Client
  far : Option (Nat × Nat)

/-- Servers, who listens where, and the wires that were ever made. -/
structure Network (σ : Type) where
  carriesIp : Bool := true
  listeners : List Listener := []
  servers : List (Server σ) := []
  wires : List Wire := []

namespace Network

variable {σ : Type}

/-- What can happen in a network: time passes, a client or a connection does
something, or a wire carries bytes, the end of a side, or its loss. -/
inductive Event where
  | tick (nanos : Nat)
  | client (k : Nat) (e : Client.Event)
  | connection (i c : Nat) (e : Connection.Event)
  | up (k n : Nat)
  | down (k n : Nat)
  | upEnd (k : Nat)
  | downEnd (k : Nat)
  | upCut (k : Nat)
  | downCut (k : Nat)

/-- The event is the doing of a caller of a client. -/
def Event.isCallers : Event → Bool
  | .client _ e => e.isCallers
  | _ => false

/-- A connection of a server. -/
def connection? (n : Network σ) (far : Nat × Nat) : Option (Connection σ) := do
  (← n.servers[far.1]?).connections[far.2]?

/-- The connection at the far end of a wire. -/
def farEnd? (n : Network σ) (w : Wire) : Option (Connection σ) := w.far.bind n.connection?

/-- The network with the client of a wire changed. -/
def putClient (n : Network σ) (k : Nat) (w : Wire) (c : Client) : Network σ :=
  { n with wires := n.wires.set k { w with client := c } }

/-- The network with a connection changed by an event. -/
def onConnection (n : Network σ) (i c : Nat) (e : Connection.Event) : Option (Network σ) := do
  let s ← n.servers[i]?
  return { n with servers := n.servers.set i (← s.step (.connection c e)) }

/-- The network with the far end of a wire changed by an event. -/
def onFarEnd (n : Network σ) (w : Wire) (e : Connection.Event) : Option (Network σ) := do
  let (i, c) ← w.far
  n.onConnection i c e

/-- The network with the bytes written by a connection changed. -/
def putWritten (n : Network σ) (far : Nat × Nat) (bs : Bytes) : Network σ :=
  { n with servers := n.servers.modify far.1 fun s =>
      { s with connections := s.connections.modify far.2 fun c =>
          { c with outbox := { c.outbox with wire := bs } } } }

/-- What an event makes of a network, if it can happen. -/
def step (n : Network σ) : Event → Option (Network σ)
  | .tick t => some { n with servers := n.servers.map fun s => { s with now := s.now + t } }
  | .client k e => do
    let w ← n.wires[k]?
    if e.isOwn then return n.putClient k w (← w.client.step e) else none
  | .connection i c e => if e.isOwn then n.onConnection i c e else none
  | .up k m => do
    let w ← n.wires[k]?
    let o := w.client.outbox
    if 0 < m ∧ m ≤ o.wire.length then
      let n := n.putClient k w { w.client with outbox := { o with wire := o.wire.drop m } }
      n.onFarEnd w (.receive (o.wire.take m))
    else none
  | .down k m => do
    let w ← n.wires[k]?
    let far ← w.far
    let written := (← n.connection? far).outbox.wire
    if 0 < m ∧ m ≤ written.length then
      let n := n.putWritten far (written.drop m)
      return n.putClient k w (← w.client.step (.receive (written.take m)))
    else none
  | .upEnd k => do
    let w ← n.wires[k]?
    let o := w.client.outbox
    if o.state = .closed ∧ o.wire = [] ∧ ¬ (← n.farEnd? w).ended then n.onFarEnd w .hangUp
    else none
  | .downEnd k => do
    let w ← n.wires[k]?
    let c ← n.farEnd? w
    if c.isClosed ∧ c.outbox.wire = [] ∧ ¬ w.client.ended then
      return n.putClient k w (← w.client.step .hangUp)
    else none
  | .upCut k => do
    let w ← n.wires[k]?
    if (← n.farEnd? w).isFinished ∧ ¬ w.client.lost then
      return n.putClient k w (← w.client.step .lose)
    else none
  | .downCut k => do
    let w ← n.wires[k]?
    if w.client.outbox.state ≠ .working ∧ ¬ w.client.receiving ∧ ¬ (← n.farEnd? w).lost then
      n.onFarEnd w .lose
    else none

/-- The network after an event, or as it was if the event cannot happen. -/
def apply (n : Network σ) (e : Event) : Network σ := (n.step e).getD n

/-- The network after the first thing that a wire or its client can do. -/
def nextOnWire? (n : Network σ) (k : Nat) : Option (Network σ) := do
  let w ← n.wires[k]?
  match w.client.next? with
  | some c => return n.putClient k w c
  | none =>
    let down := ((n.farEnd? w).map (·.outbox.wire.length)).getD 0
    [.up k w.client.outbox.wire.length, .upEnd k, .down k down, .downEnd k, .upCut k,
      .downCut k].findSome? n.step

/-- The network after the first thing that a server can do by itself. -/
def nextOnServer? (n : Network σ) (i : Nat) : Option (Network σ) := do
  let s ← n.servers[i]?
  return { n with servers := n.servers.set i (← s.next?) }

/-- The network after the first thing that can happen by itself. -/
def next? (n : Network σ) : Option (Network σ) :=
  match (List.range n.wires.length).findSome? n.nextOnWire? with
  | some m => some m
  | none => (List.range n.servers.length).findSome? n.nextOnServer?

/-- The earliest timer of all servers. -/
def timer? (n : Network σ) : Option Nat := (n.servers.filterMap (·.timer?)).min?

/-- The time of the servers. -/
def now (n : Network σ) : Nat := ((n.servers.map (·.now)).max?).getD 0

/-- More than the network can do before someone calls. -/
def work (n : Network σ) : Nat :=
  let onWires := n.wires.foldl (fun k w => k + (w.client.work + w.client.outbox.wire.length)) 0
  16 * n.servers.foldl (fun k s => k + s.work) onWires + 64

/-- The network under a clock. -/
def clockwork : Clockwork (Network σ) where
  next? := next?
  timer? := timer?
  moveTo t n := { n with servers := n.servers.map fun s => { s with now := t } }
  fuel := work

/-- Who listens at an address. Only on the same machine does the protocol
matter. -/
def listener? (n : Network σ) (a : Address) : Option Listener :=
  n.listeners.find? fun l =>
    l.address.place == a.place && (l.address.protocol == .unix) == (a.protocol == .unix)

/-- What a new connection to a listener leads to: what is at its far end, what
the far end says to a first message, whether it ends then, and the network. Who
gets no message says nothing yet. -/
def greet (n : Network σ) (l : Listener) (message : Bytes) :
    Option (Nat × Nat) × Bytes × Bool × Network σ :=
  match l.peer with
  | .silent => (none, [], false, n)
  | .scripted reply => (none, reply, false, n)
  | .server i =>
    match n.servers[i]? with
    | none => (none, [], true, n)
    | some s =>
      let far := (i, s.connections.length)
      let s := s.arrive (l.address.protocol == .http)
      if message.isEmpty then (some far, [], false, { n with servers := n.servers.set i s })
      else
        let s := Server.clockwork.quiet (s.apply (.connection far.2 (.receive message)))
        let n := { n with servers := n.servers.set i s }
        let c := n.connection? far
        (some far, (c.map (·.outbox.wire)).getD [], c.any (·.isClosed), n.putWritten far [])

/-- Dials an address. The wire that is made is the last one. Through a tunnel,
what comes after the answer that opens it is the client's. A dial whose answer
stays away ends with its budget. -/
def dial (n : Network σ) (a : Address) (o : Options) : Except Fault (Network σ) :=
  if a.protocol ≠ .unix ∧ ¬ n.carriesIp then .error (.stream .unreachable)
  else
    match n.listener? a with
    | none => .error (.stream .refused)
    | some l =>
      let tunnelled := a.protocol = .http
      let (far, said, ended, n) := n.greet l (if tunnelled then Tunnel.request else [])
      let arrived := Stream.ofChunks maxBodySize [said]
      let (opened, _, rest) := if tunnelled then Tunnel.connect arrived else (.ok (), [], arrived)
      match opened with
      | .error why =>
        if why = .protocol .closedDuringExchange ∧ ¬ ended then
          .error (.connectTimeout o.connectTimeout)
        else .error why
      | .ok () =>
        let client := Client.start o
        let client := { client with buffer := client.buffer.extend rest.rest }
        .ok { n with wires := n.wires ++ [⟨client, far⟩] }

/-- Dials an address given as text. -/
def dialText (n : Network σ) (text : String) (o : Options) : Except Fault (Network σ) :=
  match Address.parse text with
  | .error why => .error (.discovery why)
  | .ok a => n.dial a o

/-- Dials a place by the name of a protocol. -/
def dialBy (n : Network σ) (protocol place : String) (o : Options) : Except Fault (Network σ) :=
  match Protocol.parse protocol with
  | .error why => .error (.discovery why)
  | .ok p => n.dial ⟨p, place⟩ o

/-- Joins a client to a new connection of a server, without an address. -/
def join (n : Network σ) (i : Nat) (o : Options) : Network σ :=
  match n.servers[i]? with
  | none => n
  | some s =>
    { n with
      servers := n.servers.set i (s.arrive false)
      wires := n.wires ++ [⟨Client.start o, some (i, s.connections.length)⟩] }

/-- Cuts all wires of a server, in both directions. -/
def cut (n : Network σ) (i : Nat) : Network σ :=
  let hit (w : Wire) : Bool := w.far.any (·.1 == i)
  { n with
    wires := n.wires.map fun w =>
      if hit w then { w with client := (w.client.apply .hangUp).apply .lose } else w
    servers := n.servers.modify i fun s =>
      { s with connections := s.connections.map fun c => { c with ended := true, lost := true } } }

end Network
end Callwire
