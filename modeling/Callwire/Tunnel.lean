/-
# The tunnel before a connection

A connection may begin as an HTTP request, so that it passes where only HTTP
does. The dialing side sends a CONNECT request for one path; the accepting side
reads the request line and the header lines up to the first empty one, answers,
and from then on both sides use the stream as any other. A head has at most a
hundred lines after its first, the empty one among them, and no line above
`lineLimit`.

A head is read a line at a time, so it does not matter when its lines arrive.

Key definitions: `Tunnel.Head`, `Head.feed`, `Tunnel.verdict`, `Tunnel.granted`,
`Tunnel.accept`, `Tunnel.connect`.
-/
import Callwire.Frame.Stream
import Callwire.Text.Blank
import Callwire.Text.Lossy

namespace Callwire
namespace Tunnel

/-- The path of the tunnel. -/
def path : String := "/_tinyrpc_"

/-- The status of an open tunnel. -/
def connected : String := "200 Connected to Tiny RPC"

/-- The most bytes of a line of a head. -/
def lineLimit : Nat := 8192

/-- The most lines read after the first. -/
def headerLimit : Nat := 100

/-- What the dialing side sends. -/
def request : Bytes := Bytes.ofText ("CONNECT " ++ path ++ " HTTP/1.0\n\n")

/-- The answer that opens the tunnel. -/
def opened : Bytes := Bytes.ofText ("HTTP/1.0 " ++ connected ++ "\n\n")

/-- The answer to another method. -/
def wrongMethod : Bytes :=
  Bytes.ofText ("HTTP/1.0 405 Method Not Allowed\nContent-Type: text/plain; charset=utf-8\n\n" ++
    "405 must CONNECT\n")

/-- The answer to another path. -/
def wrongPath : Bytes :=
  Bytes.ofText ("HTTP/1.0 404 Not Found\nContent-Type: text/plain; charset=utf-8\n\n" ++
    "404 page not found\n")

/-- A head that is being read: nothing yet, or its first line and how many more
lines may follow. -/
inductive Head where
  | empty
  | begun (first : String) (left : Nat)
deriving DecidableEq, Repr

/-- What a line makes of a head: more of it, its end, or one line too many. -/
inductive Progress where
  | more (h : Head)
  | complete (first : String)
  | tooMany
deriving DecidableEq, Repr

namespace Head

/-- Takes a line. -/
def feed (h : Head) (line : String) : Progress :=
  match h with
  | .empty => .more (.begun line headerLimit)
  | .begun first left =>
    if line.isEmpty then .complete first
    else if left ≤ 1 then .tooMany
    else .more (.begun first (left - 1))

end Head

/-- The answer to a request line: its bytes and what it means for the connection. -/
def verdict (line : String) : Bytes × Except Fault Unit :=
  let ws := Text.words line
  let method := ws.head?.getD ""
  let place := (ws.tail.head?).getD ""
  if method ≠ "CONNECT" then (wrongMethod, .error (.protocol (.unexpectedMethod method)))
  else if place ≠ path then (wrongPath, .error (.protocol (.unexpectedPath place)))
  else (opened, .ok ())

/-- What stands after the first space of a status line, without blanks around it. -/
def statusOf (line : String) : String :=
  match Text.splitFirst? ' ' line.toList with
  | some p => String.ofList (Text.trimChars p.2)
  | none => ""

/-- The status line opens the tunnel. -/
def granted (line : String) : Except Fault Unit :=
  if statusOf line = connected then .ok () else .error (.protocol (.unexpectedReply line))

/-- Reads a line of a head. -/
def readHeadLine (s : Stream) : Except Fault String × Stream :=
  match s.readLine lineLimit with
  | (.error e, s) => (.error e, s)
  | (.ok none, s) => (.error (.protocol .closedDuringExchange), s)
  | (.ok (some bs), s) => (.ok (Text.ofBytesLossy bs), s)

/-- Reads the lines of a head to its end and gives the first of them; at most
`fuel` lines are read. -/
def readHead : Nat → Head → Stream → Except Fault String × Stream
  | 0, _, s => (.error (.protocol .tooManyHeaders), s)
  | fuel + 1, h, s =>
    match readHeadLine s with
    | (.error e, s) => (.error e, s)
    | (.ok line, s) =>
      match h.feed line with
      | .complete first => (.ok first, s)
      | .tooMany => (.error (.protocol .tooManyHeaders), s)
      | .more h => readHead fuel h s

/-- Answers a tunnel request: the outcome, the bytes written, and the stream
after the head. -/
def accept (s : Stream) : Except Fault Unit × Bytes × Stream :=
  match readHead (headerLimit + 1) .empty s with
  | (.error e, s) => (.error e, [], s)
  | (.ok line, s) =>
    let v := verdict line
    (v.2, v.1, s)

/-- Opens a tunnel: the outcome, the bytes written, and the stream after the head. -/
def connect (s : Stream) : Except Fault Unit × Bytes × Stream :=
  match readHead (headerLimit + 1) .empty s with
  | (.error e, s) => (.error e, request, s)
  | (.ok line, s) => (granted line, request, s)

end Tunnel
end Callwire
