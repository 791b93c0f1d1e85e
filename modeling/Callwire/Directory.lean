/-
# The registry that servers announce themselves to

A registry is an HTTP service. Asked for its servers, it lists them in a
header, with commas between them, or without that header in the body, one a
line. Blanks around an address do not count, nor do empty pieces. A server
announces itself again and again, so that it stays listed; it stops when the
registry does not take an announcement.

Key definitions: `Directory.split`, `Directory.servers`, `Directory.announced`,
`Directory.ask`, `Directory.fetch`, `Directory.announce`, `Directory.beats`.
-/
import Callwire.Http
import Callwire.Network
import Callwire.Text.Blank

namespace Callwire
namespace Directory

/-- The path of a registry, if nothing else is said. -/
def defaultPath : String := "/_tinyrpc_/registry"

/-- The header of a reply that lists servers. -/
def listHeader : String := "X-Tinyrpc-Servers"

/-- How long one request may take, if nothing else is said. -/
def requestBudget : Duration := .ofSeconds 5

/-- The time between two announcements, if nothing else is said. -/
def defaultPeriod : Duration := .ofSeconds 240

/-- The pieces between separators, without blanks around them and without the
empty ones. -/
def split (separator : Char) (text : String) : List String :=
  ((Text.cut (· == separator) text.toList).map Text.trimChars).filter (!·.isEmpty)
    |>.map String.ofList

/-- The servers that a reply lists. -/
def servers (r : Http.Reply) : Except Fault (List String) :=
  if !r.isSuccess then .error (.registry (.refreshRejected (Http.statusText r.status)))
  else match r.headerText? listHeader with
    | some list => .ok (split ',' list)
    | none => .ok (split '\n' (Text.ofBytesLossy r.body))

/-- What a reply says to an announcement. -/
def announced (r : Http.Reply) : Except Fault Unit :=
  if r.isSuccess then .ok ()
  else .error (.registry (.heartbeatRejected (Http.statusText r.status)))

/-- The text can stand in a header. -/
def fitsHeader (s : String) : Bool := s.toList.all fun c => c == '\t' || (' ' ≤ c && c != '\x7f')

/-- Sends a request to whoever listens at an address: the reply, and the
requests that reached someone. -/
def ask {σ : Type} (n : Network σ) (place : String) (q : Http.Request) :
    Except Fault Http.Reply × List Http.Request :=
  let failed : Except Fault Http.Reply := .error (.registry .noExchange)
  if !n.carriesIp || !q.announces.all fitsHeader then (failed, [])
  else
    match n.listener? ⟨.tcp, place⟩ with
    | none => (failed, [])
    | some l =>
      match l.peer with
      | .scripted reply =>
        match Http.Reply.parse? reply with
        | some r => (.ok r, [q])
        | none => (failed, [q])
      | _ => (failed, [q])

/-- Asks a registry for its servers. -/
def fetch {σ : Type} (n : Network σ) (place path : String) :
    Except Fault (List String) × List Http.Request :=
  let r := ask n place ⟨"GET", path, none⟩
  (r.1.bind servers, r.2)

/-- Announces a server to a registry. -/
def announce {σ : Type} (n : Network σ) (place path server : String) :
    Except Fault Unit × List Http.Request :=
  let r := ask n place ⟨"POST", path, some server⟩
  (r.1.bind announced, r.2)

/-- Announces a server up to `count` times, as long as it is taken; `say k` is the
outcome of announcement `k`. Gives how many were made and whether the last of
them was not taken. -/
def beats (say : Nat → Except Fault Unit) (count : Nat) : Nat × Bool :=
  match (List.range count).find? fun k => (say k).toOption.isNone with
  | some k => (k + 1, true)
  | none => (count, false)

end Directory
end Callwire
