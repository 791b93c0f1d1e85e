/-
# Calls spread over servers

A balancer keeps at most one client for each address and gives it to every
call that goes there. Only one call at a time holds the pool of clients: it
takes the client of its address, or, if there is none or it is of no use any
more, closes and drops that one and dials. A dial that fails leaves the address
without a client.

A call that is part of a broadcast first asks whether the broadcast was
aborted, and asks again when it has its client. The first call that fails
aborts the broadcast and its fault is the broadcast's; calls that are already
on their way go on. The first reply is put into the caller's slot, whatever
else happens.

Clients are numbers here, and who dials, answers or is alive is told by events;
`Fleet` joins this to a network.

Key definitions: `Errand`, `Broadcast`, `Balancer`, `Balancer.Event`,
`Balancer.step`.
-/
import Callwire.Fault

namespace Callwire

/-- How far a call to one server is. -/
inductive Errand.Phase where
  | fresh
  | wanting
  | evicting (client : Nat)
  | dialing
  | ready (client : Nat)
  | calling (client : Nat)
  | done (r : Except Fault Datum)

/-- A call to one server, maybe part of a broadcast, and whether its caller has
cancelled it. Who began a broadcast cancels all of it. -/
structure Errand where
  address : String
  broadcast : Option Nat := none
  cancelled : Bool := false
  phase : Errand.Phase

/-- What a broadcast has so far: whether its caller has cancelled it, whether one
of its calls had a reply, what was put into the caller's slot, in this order, and
its first fault. -/
structure Broadcast where
  cancelled : Bool := false
  replied : Bool := false
  written : List Datum := []
  fault : Option Fault := none

/-- The pool of clients by address, how many were ever dialed, which were
closed, the calls under way, the broadcasts, and for each request to close the
pool the clients that it has still to close, once it has taken them. -/
structure Balancer where
  pool : List (String × Nat) := []
  clients : Nat := 0
  closed : List Nat := []
  errands : List Errand := []
  broadcasts : List Broadcast := []
  closings : List (Option (List Nat)) := []

namespace Errand

/-- The call holds the pool. -/
def holdsPool (e : Errand) : Bool :=
  match e.phase with
  | .evicting _ | .dialing => true
  | _ => false

/-- The outcome of the call, once it has one. -/
def outcome? (e : Errand) : Option (Except Fault Datum) :=
  match e.phase with
  | .done r => some r
  | _ => none

end Errand

namespace Broadcast

/-- What stands in the caller's slot. -/
def reply (g : Broadcast) : Option Datum := g.written.getLast?

/-- No call of it is sent any more. -/
def isAborted (g : Broadcast) : Bool := g.cancelled || g.fault.isSome

/-- A broadcast after one of its calls has an outcome. -/
def record (g : Broadcast) : Except Fault Datum → Broadcast
  | .ok d => if g.replied then g else { g with replied := true, written := g.written ++ [d] }
  | .error why => if g.fault.isSome then g else { g with fault := some why }

end Broadcast

namespace Balancer

/-- What can happen to a balancer. A caller begins a call or a broadcast,
cancels either, or closes the pool; the rest happens by itself, as clients
and servers have it. -/
inductive Event where
  | call (address : String) (cancelled : Bool)
  | broadcast (addresses : List String) (cancelled : Bool)
  | cancel (i : Nat)
  | withdraw (g : Nat)
  | close
  | check (i : Nat)
  | enter (i : Nat) (alive : Bool)
  | evict (i : Nat)
  | connect (i : Nat)
  | refuse (i : Nat) (why : Fault)
  | send (i : Nat)
  | answer (i : Nat) (r : Except Fault Datum)
  | drain (j : Nat)
  | shut (j : Nat)

/-- Some call holds the pool. -/
def isHeld (b : Balancer) : Bool := b.errands.any (·.holdsPool)

/-- The balancer with one call changed. -/
def put (b : Balancer) (i : Nat) (e : Errand) (p : Errand.Phase) : Balancer :=
  { b with errands := b.errands.set i { e with phase := p } }

/-- The balancer after a call has its outcome. -/
def finish (b : Balancer) (i : Nat) (e : Errand) (r : Except Fault Datum) : Balancer :=
  let b := b.put i e (.done r)
  match e.broadcast with
  | none => b
  | some g => { b with broadcasts := b.broadcasts.modify g fun x => x.record r }

/-- The call is part of a broadcast that goes no further. -/
def isAborted (b : Balancer) (e : Errand) : Bool :=
  match e.broadcast with
  | none => false
  | some g => b.broadcasts[g]?.any (·.isAborted)

/-- The caller has cancelled the call, or the broadcast that it is part of. -/
def isCancelled (b : Balancer) (e : Errand) : Bool :=
  match e.broadcast with
  | none => e.cancelled
  | some g => b.broadcasts[g]?.any (·.cancelled)

/-- What an event makes of a balancer, if it can happen. -/
def step (b : Balancer) : Event → Option Balancer
  | .call address cancelled =>
    let e : Errand := { address := address, cancelled := cancelled, phase := .wanting }
    some { b with errands := b.errands ++ [e] }
  | .broadcast addresses cancelled =>
    let g := b.broadcasts.length
    let es := addresses.map fun address =>
      ({ address := address, broadcast := some g, phase := .fresh } : Errand)
    some { b with
      errands := b.errands ++ es
      broadcasts := b.broadcasts ++ [{ cancelled := cancelled }] }
  | .cancel i => do
    let e ← b.errands[i]?
    return { b with errands := b.errands.set i { e with cancelled := true } }
  | .withdraw g =>
    some { b with broadcasts := b.broadcasts.modify g fun x => { x with cancelled := true } }
  | .close => some { b with closings := b.closings ++ [none] }
  | .check i => do
    let e ← b.errands[i]?
    let .fresh := e.phase | none
    return if b.isAborted e then b.finish i e (.error (.cancelled .broadcast))
      else b.put i e .wanting
  | .enter i alive => do
    let e ← b.errands[i]?
    let .wanting := e.phase | none
    if b.isHeld then none
    else
      match b.pool.lookup e.address with
      | none => return b.put i e .dialing
      | some client =>
        if alive then return b.put i e (.ready client)
        else
          let b := { b with pool := b.pool.filter (·.1 != e.address) }
          return b.put i e (.evicting client)
  | .evict i => do
    let e ← b.errands[i]?
    let .evicting client := e.phase | none
    return { b with closed := b.closed ++ [client] }.put i e .dialing
  | .connect i => do
    let e ← b.errands[i]?
    let .dialing := e.phase | none
    let client := b.clients
    let b := { b with pool := b.pool ++ [(e.address, client)], clients := client + 1 }
    return b.put i e (.ready client)
  | .refuse i why => do
    let e ← b.errands[i]?
    let .dialing := e.phase | none
    return b.finish i e (.error why)
  | .send i => do
    let e ← b.errands[i]?
    let .ready client := e.phase | none
    return if b.isAborted e then b.finish i e (.error (.cancelled .broadcast))
      else b.put i e (.calling client)
  | .answer i r => do
    let e ← b.errands[i]?
    let .calling _ := e.phase | none
    return b.finish i e r
  | .drain j =>
    match b.closings[j]? with
    | some none =>
      if b.isHeld then none
      else some { b with pool := [], closings := b.closings.set j (some (b.pool.map (·.2))) }
    | _ => none
  | .shut j =>
    match b.closings[j]? with
    | some (some (client :: left)) =>
      some { b with closed := b.closed ++ [client], closings := b.closings.set j (some left) }
    | _ => none

/-- The calls of a broadcast. -/
def errandsOf (b : Balancer) (g : Nat) : List Errand :=
  b.errands.filter (·.broadcast == some g)

/-- The outcome of a broadcast, once all its calls have one: success only if all
of them succeeded. -/
def broadcastOutcome? (b : Balancer) (g : Nat) : Option (Except Fault Unit) :=
  if (b.errandsOf g).all (·.outcome?.isSome) then
    some (match (b.broadcasts[g]?).bind (·.fault) with
      | some why => .error why
      | none => .ok ())
  else none

end Balancer
end Callwire
