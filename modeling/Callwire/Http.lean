/-
# HTTP requests and replies

A reply has a status, headers and a body. The body has the length that a
header gives, or comes in chunks, or ends with the connection; one that is cut
short is no reply. The reason that a status is shown with is the usual one,
whatever the reply says.

Key definitions: `Http.Request`, `Http.Reply`, `Http.reason?`,
`Reply.header?`, `Reply.parse?`.
-/
import Callwire.Bytes
import Callwire.Frame.Buffer
import Callwire.Text.Lossy
import Callwire.Text.Split

namespace Callwire
namespace Http

/-- A request without a body, and the address that it may announce. -/
structure Request where
  method : String
  path : String
  announces : Option String := none
deriving DecidableEq, Repr

/-- The first line of a request. An empty path is the root. -/
def Request.line (r : Request) : String :=
  r.method ++ " " ++ (if r.path.isEmpty then "/" else r.path) ++ " HTTP/1.1"

/-- A reply. -/
structure Reply where
  status : Nat
  headers : List (String × Bytes) := []
  body : Bytes := []
deriving DecidableEq, Repr

/-- The usual reasons, by status. -/
def reasons : List (Nat × String) :=
  [(100, "Continue"), (101, "Switching Protocols"), (102, "Processing"), (200, "OK"),
    (201, "Created"), (202, "Accepted"), (203, "Non Authoritative Information"),
    (204, "No Content"), (205, "Reset Content"), (206, "Partial Content"), (207, "Multi-Status"),
    (208, "Already Reported"), (226, "IM Used"), (300, "Multiple Choices"),
    (301, "Moved Permanently"), (302, "Found"), (303, "See Other"), (304, "Not Modified"),
    (305, "Use Proxy"), (307, "Temporary Redirect"), (308, "Permanent Redirect"),
    (400, "Bad Request"), (401, "Unauthorized"), (402, "Payment Required"), (403, "Forbidden"),
    (404, "Not Found"), (405, "Method Not Allowed"), (406, "Not Acceptable"),
    (407, "Proxy Authentication Required"), (408, "Request Timeout"), (409, "Conflict"),
    (410, "Gone"), (411, "Length Required"), (412, "Precondition Failed"),
    (413, "Payload Too Large"), (414, "URI Too Long"), (415, "Unsupported Media Type"),
    (416, "Range Not Satisfiable"), (417, "Expectation Failed"), (418, "I'm a teapot"),
    (421, "Misdirected Request"), (422, "Unprocessable Entity"), (423, "Locked"),
    (424, "Failed Dependency"), (425, "Too Early"), (426, "Upgrade Required"),
    (428, "Precondition Required"), (429, "Too Many Requests"),
    (431, "Request Header Fields Too Large"), (451, "Unavailable For Legal Reasons"),
    (500, "Internal Server Error"), (501, "Not Implemented"), (502, "Bad Gateway"),
    (503, "Service Unavailable"), (504, "Gateway Timeout"), (505, "HTTP Version Not Supported"),
    (506, "Variant Also Negotiates"), (507, "Insufficient Storage"), (508, "Loop Detected"),
    (510, "Not Extended"), (511, "Network Authentication Required")]

/-- The usual reason for a status. -/
def reason? (status : Nat) : Option String := reasons.lookup status

/-- A status as it is shown. -/
def statusText (status : Nat) : String :=
  toString status ++ " " ++ (reason? status).getD "<unknown status code>"

namespace Reply

/-- The request was granted. -/
def isSuccess (r : Reply) : Bool := 200 ≤ r.status && r.status < 300

/-- The value of the first header of a name, small and capital letters alike. -/
def header? (r : Reply) (name : String) : Option Bytes :=
  (r.headers.find? fun h => h.1.toLower == name.toLower).map (·.2)

/-- A header's value as text, if all of it is visible ASCII, spaces and tabs. -/
def headerText? (r : Reply) (name : String) : Option String :=
  (r.header? name).bind fun bs =>
    if bs.all fun b => b == 0x09 || (0x20 ≤ b && b < 0x7f) then Bytes.toText? bs else none

/-- The lines before the first empty one, and what follows it. -/
def head? (line : Bytes) (lines : List Bytes) : Bytes → Option (List Bytes × Bytes)
  | [] => none
  | b :: rest =>
    if b = 0x0a then
      let l := Frame.Buffer.stripReturn line.reverse
      if l.isEmpty then some (lines.reverse, rest) else head? [] (l :: lines) rest
    else head? (b :: line) lines rest

/-- The number that decimal digits spell. -/
def decimal? (cs : List Char) : Option Nat :=
  if cs.isEmpty ∨ ¬ cs.all Char.isDigit then none
  else some (cs.foldl (fun n c => n * 10 + (c.toNat - '0'.toNat)) 0)

/-- The status of a first line. -/
def statusOf? (line : Bytes) : Option Nat :=
  let cs := (Text.ofBytesLossy line).toList
  if "HTTP/1.".toList.isPrefixOf cs then
    match Text.splitFirst? ' ' cs with
    | some (_, rest) =>
      let code := rest.takeWhile (· != ' ')
      if code.length = 3 then decimal? code else none
    | none => none
  else none

/-- The bytes without spaces and tabs at both ends. -/
def trimBytes (bs : Bytes) : Bytes :=
  let gap (b : UInt8) : Bool := b == 0x20 || b == 0x09
  ((bs.dropWhile gap).reverse.dropWhile gap).reverse

/-- The name and the value of a header line. A value has no control characters but tabs. -/
def headerOf? (line : Bytes) : Option (String × Bytes) :=
  let name := line.takeWhile (· != 0x3a)
  let value := line.drop (name.length + 1)
  if name.isEmpty ∨ name.length = line.length then none
  else if value.all fun b => b == 0x09 || (0x20 ≤ b && b != 0x7f) then
    (Bytes.toText? name).map fun n => (n, trimBytes value)
  else none

/-- The number that hexadecimal digits spell. -/
def hexadecimal? (cs : List Char) : Option Nat :=
  let digit? (c : Char) : Option Nat :=
    if c.isDigit then some (c.toNat - '0'.toNat)
    else if 'a' ≤ c ∧ c ≤ 'f' then some (c.toNat - 'a'.toNat + 10) else none
  if cs.isEmpty then none
  else cs.foldl (fun n c => do return (← n) * 16 + (← digit? c.toLower)) (some 0)

/-- The data of chunks, each behind its length, up to an empty one. At most
`fuel` chunks are read; every chunk is a byte or more. -/
def chunks? : Nat → Bytes → Option Bytes
  | 0, _ => none
  | fuel + 1, bs =>
    match bs.findIdx? (· == 0x0a) with
    | none => none
    | some i =>
      let size := (Text.ofBytesLossy (Frame.Buffer.stripReturn (bs.take i))).toList
      match hexadecimal? (size.takeWhile (· != ';')) with
      | none => none
      | some 0 => some []
      | some n =>
        match Bytes.split? n (bs.drop (i + 1)) with
        | none => none
        | some (data, rest) =>
          let rest := rest.drop (if rest.head? = some 0x0d then 2 else 1)
          (chunks? fuel rest).map (data ++ ·)

/-- The body that follows the head of a reply. -/
def bodyOf? (r : Reply) (rest : Bytes) : Option Bytes :=
  if r.status = 204 ∨ r.status = 304 then some []
  else if (r.headerText? "Transfer-Encoding").any fun s => s.toLower == "chunked" then
    chunks? (rest.length + 1) rest
  else
    match r.headerText? "Content-Length" with
    | none => some rest
    | some s => (decimal? s.toList).bind fun n => (Bytes.split? n rest).map (·.1)

/-- The reply that the bytes of a connection give. -/
def parse? (bs : Bytes) : Option Reply := do
  let (lines, rest) ← head? [] [] bs
  let status ← statusOf? (lines.headD [])
  let headers ← lines.tail.mapM headerOf?
  let r : Reply := { status := status, headers := headers }
  return { r with body := ← r.bodyOf? rest }

end Reply
end Http
end Callwire
