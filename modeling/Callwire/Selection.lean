/-
# Picking one server of a list

A list of servers is picked from at random or in turn. Whose turn it is is a
position that is kept when the list is replaced, and counts modulo the length
that the list has when it is used.

Key definitions: `Selection`, `Selection.ofNumber`, `Selection.parse`,
`ServerList`, `ServerList.pick`.
-/
import Callwire.Fault

namespace Callwire

/-- How a server is picked: at random, or in turn. -/
inductive Selection where
  | random
  | roundRobin
deriving DecidableEq, Repr

namespace Selection

/-- The name of the way to pick. -/
def name : Selection → String
  | random => "random"
  | roundRobin => "round_robin"

/-- The way to pick of a number. -/
def ofNumber : Nat → Except DiscoveryFault Selection
  | 0 => .ok random
  | 1 => .ok roundRobin
  | _ => .error .unknownMode

/-- The way to pick of a name, small and capital letters alike. -/
def parse (s : String) : Except DiscoveryFault Selection :=
  let s := s.toLower
  if s = "random" then .ok random
  else if s = "roundrobin" ∨ s = "round_robin" ∨ s = "round-robin" then .ok roundRobin
  else .error .unknownMode

end Selection

/-- Servers, and the position of the next turn. -/
structure ServerList where
  servers : List String := []
  position : Nat := 0
deriving DecidableEq, Repr

namespace ServerList

/-- Replaces the servers. -/
def set (l : ServerList) (servers : List String) : ServerList := { l with servers := servers }

/-- Picks a server. A random pick takes any number as the outcome of a draw. -/
def pick (l : ServerList) (s : Selection) (draw : Nat) :
    Except DiscoveryFault String × ServerList :=
  let n := l.servers.length
  let place := (match s with | .random => draw | .roundRobin => l.position) % n
  match l.servers[place]? with
  | none => (.error .noServers, l)
  | some server =>
    match s with
    | .random => (.ok server, l)
    | .roundRobin => (.ok server, { l with position := (l.position + 1) % n })

end ServerList
end Callwire
