/-
# Where the list of servers comes from

A list of servers is kept by hand, or it is asked from a registry. A list that
was asked for stays fresh for an interval, counted from the end of the last
request, whether it succeeded or not, or from the last replacement by hand.
Only a list that is not fresh is asked for again. If the request fails, the
list stays as it is.

Times are nanoseconds. What a registry would say is an argument: it counts
only if the registry is asked.

Key definitions: `Polled`, `Polled.isFresh`, `Polled.refresh`,
`Polled.update`, `Discovery`, `Discovery.pick`, `Discovery.all`.
-/
import Callwire.Duration
import Callwire.Selection

namespace Callwire

/-- A list that a registry is asked for: how long it stays fresh, and since when. -/
structure Polled where
  list : ServerList := {}
  interval : Duration
  stamp : Option Nat := none

namespace Polled

/-- How long a list stays fresh if nothing else is said. -/
def defaultInterval : Duration := .ofSeconds 10

/-- A list that was never asked for. An interval of zero stands for the usual one. -/
def ofInterval (d : Duration) : Polled where
  interval := if d = .zero then defaultInterval else d

/-- The list need not be asked for. -/
def isFresh (p : Polled) (now : Nat) : Bool :=
  match p.stamp with
  | none => false
  | some t => now - t < p.interval.nanos

/-- The list after the registry has answered. -/
def fetched (p : Polled) (finish : Nat) (answer : Except Fault (List String)) : Polled :=
  { p with
    stamp := some finish
    list := match answer with
      | .ok servers => p.list.set servers
      | .error _ => p.list }

/-- Asks for the list unless it is fresh; asking begins and ends at two times. -/
def refresh (p : Polled) (start finish : Nat) (answer : Except Fault (List String)) :
    Except Fault Unit × Polled :=
  if p.isFresh start then (.ok (), p) else (answer.map fun _ => (), p.fetched finish answer)

/-- Replaces the list by hand. -/
def update (p : Polled) (now : Nat) (servers : List String) : Polled :=
  { p with list := p.list.set servers, stamp := some now }

end Polled

/-- A list that is kept by hand or asked for. -/
inductive Discovery where
  | fixed (l : ServerList)
  | polled (p : Polled)

namespace Discovery

/-- The servers that are known. -/
def list : Discovery → ServerList
  | fixed l => l
  | polled p => p.list

/-- The registry would be asked. -/
def isDue (d : Discovery) (now : Nat) : Bool :=
  match d with
  | fixed _ => false
  | polled p => !p.isFresh now

/-- Asks for the list if it is not fresh. -/
def refresh (d : Discovery) (start finish : Nat) (answer : Except Fault (List String)) :
    Except Fault Unit × Discovery :=
  match d with
  | fixed l => (.ok (), fixed l)
  | polled p =>
    let r := p.refresh start finish answer
    (r.1, polled r.2)

/-- Replaces the list by hand. -/
def update (d : Discovery) (now : Nat) (servers : List String) : Discovery :=
  match d with
  | fixed l => fixed (l.set servers)
  | polled p => polled (p.update now servers)

/-- Picks a server without asking the registry. -/
def select (d : Discovery) (s : Selection) (draw : Nat) : Except Fault String × Discovery :=
  match d with
  | fixed l => let r := l.pick s draw; (r.1.mapError .discovery, fixed r.2)
  | polled p =>
    let r := p.list.pick s draw
    (r.1.mapError .discovery, polled { p with list := r.2 })

/-- Picks a server of a list that is as fresh as it can be. -/
def pick (d : Discovery) (s : Selection) (draw start finish : Nat)
    (answer : Except Fault (List String)) : Except Fault String × Discovery :=
  (d.refresh start finish answer).2.select s draw

/-- All servers of a list that is as fresh as it can be. -/
def all (d : Discovery) (start finish : Nat) (answer : Except Fault (List String)) :
    List String × Discovery :=
  let d := (d.refresh start finish answer).2
  (d.list.servers, d)

end Discovery
end Callwire
