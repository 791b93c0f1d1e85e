/-
# The table of services

A request names a service and a method, with a point between them; the name of
a service may hold points, that of a method does not, so the last point
counts. A service is registered once and stays. A call counts when its
argument was read, before it waits for anything.

Key definitions: `Registry`, `Registry.register`, `Registry.find`,
`Registry.invoke`, `Registry.act`, `Registry.calls?`.
-/
import Callwire.Service

namespace Callwire

/-- The services of a server, in the order in which they were registered. -/
structure Registry (σ : Type) where
  services : List (Service σ) := []

/-- A call whose argument was read: whose receiver it acts on and what it does. -/
structure Invocation (σ : Type) where
  service : String
  behaviour : Behaviour σ

namespace Registry

variable {σ : Type}

/-- The service of a name. -/
def service? (r : Registry σ) (name : String) : Option (Service σ) :=
  r.services.find? (·.name == name)

/-- Publishes a service. -/
def register (r : Registry σ) (s : Service σ) : Except Fault (Registry σ) :=
  match s.check with
  | .error e => .error (.invalidService e)
  | .ok () =>
    if (r.service? s.name).isSome then .error (.duplicateService s.name)
    else .ok ⟨r.services ++ [s]⟩

/-- The service and the method that a request names. -/
def find (r : Registry σ) (target : String) : Except DispatchFault (Service σ × Entry σ) :=
  match Text.splitLast? '.' target.toList with
  | none => .error (.illFormed target)
  | some (service, method) =>
    match r.service? (String.ofList service) with
    | none => .error (.unknownService (String.ofList service))
    | some s =>
      match s.find? (String.ofList method) with
      | none => .error (.unknownMethod (String.ofList method))
      | some e => .ok (s, e)

/-- The table with one service changed. -/
def update (r : Registry σ) (name : String) (f : Service σ → Service σ) : Registry σ :=
  ⟨r.services.map fun s => if s.name = name then f s else s⟩

/-- Reads the argument of a request and counts the call. -/
def invoke (r : Registry σ) (codec : Codec) (target : String) (body : Bytes) :
    Except Fault (Invocation σ × Registry σ) :=
  match r.find target with
  | .error e => .error (.dispatch e)
  | .ok (s, e) =>
    match codec.decode e.method.argument body with
    | .error why => .error (.body why)
    | .ok d => .ok (⟨s.name, e.method.run d⟩, r.update s.name (·.count e.name))

/-- Lets a call act on its receiver. -/
def act (r : Registry σ) (i : Invocation σ) : Outcome × Registry σ :=
  match r.service? i.service with
  | none => (.crash "", r)
  | some s =>
    let a := i.behaviour.act s.receiver
    (a.2, r.update i.service fun s => { s with receiver := a.1 })

/-- How often a method was called, if it is registered. -/
def calls? (r : Registry σ) (target : String) : Option Nat :=
  match r.find target with
  | .ok (_, e) => some e.calls.toNat
  | .error _ => none

/-- The names of the services. -/
def names (r : Registry σ) : List String := r.services.map (·.name)

end Registry

namespace Outcome

/-- The encoded reply, or what the caller is told instead. -/
def toReply (codec : Codec) : Outcome → Except Fault Bytes
  | reply d => (codec.encode d).mapError .codec
  | failure text => .error (.handler text)
  | crash text => .error (@Fault.crashed text)

end Outcome
end Callwire
