/-
# Addresses of servers

An address says how a server is reached and where: the name of a protocol, an
at sign, and the place, which is not empty and holds no at sign. Three names
stand for plain TCP. Addresses are compared and shown by one name each.

Key definitions: `Protocol`, `Protocol.parse`, `Address`, `Address.parse`,
`Address.text`.
-/
import Callwire.Fault
import Callwire.Text.Split

namespace Callwire

/-- How a server is reached: directly, through a tunnel, or on the same machine. -/
inductive Protocol where
  | tcp
  | http
  | unix
deriving DecidableEq, Repr

namespace Protocol

/-- The name of the protocol. -/
def name : Protocol → String
  | tcp => "tcp"
  | http => "http"
  | unix => "unix"

/-- The protocol of a name. -/
def parse (s : String) : Except DiscoveryFault Protocol :=
  if s = "tcp" ∨ s = "tcp4" ∨ s = "tcp6" then .ok tcp
  else if s = "http" then .ok http
  else if s = "unix" then .ok unix
  else .error (.unknownProtocol s)

end Protocol

/-- How and where a server is reached. -/
structure Address where
  protocol : Protocol
  place : String
deriving DecidableEq, Repr

namespace Address

/-- The address as text. -/
def text (a : Address) : String := a.protocol.name ++ "@" ++ a.place

/-- The address that a text gives. -/
def parse (s : String) : Except DiscoveryFault Address :=
  match Text.splitFirst? '@' s.toList with
  | none => .error (.wrongFormat s)
  | some (name, place) =>
    if place = [] ∨ '@' ∈ place then .error (.wrongFormat s)
    else
      match Protocol.parse (String.ofList name) with
      | .error e => .error e
      | .ok protocol => .ok ⟨protocol, String.ofList place⟩

end Address
end Callwire
