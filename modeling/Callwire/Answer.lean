/-
# The frame that answers a request

An answer has the header of its request. A reply is its body; a fault is put
into the header as text and the body is empty. What cannot be framed as a
reply is answered by the fault that says so. A fault whose text has no room in
a header cannot be told at all.

Key definitions: `Answer.failure?`, `Answer.frame?`.
-/
import Callwire.Frame

namespace Callwire
namespace Answer

/-- The answer that tells a fault, if a header holds its text. -/
def failure? (codec : Codec) (h : Header) (why : Fault) : Option Frame :=
  (Frame.encode codec (h.withError why.message) .null).toOption

/-- The answer of an encoded reply, or of the fault that took its place. -/
def frame? (codec : Codec) (h : Header) (reply : Except Fault Bytes) : Option Frame :=
  match reply with
  | .error why => failure? codec h why
  | .ok body =>
    match Frame.ofHeader codec h body with
    | .ok f => some f
    | .error why => failure? codec h why

end Answer
end Callwire
