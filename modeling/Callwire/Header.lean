/-
# The header of a frame

A header names the method that is called, numbers the call, and in an answer
says what went wrong. An empty error says that nothing did.

Key definitions: `Header`, `Header.withError`, `Header.isError`,
`Header.toDatum`, `Header.shape`, `Header.ofDatum?`.
Key theorems: `Header.ofDatum?_toDatum`.
-/
import Callwire.Datum

namespace Callwire

/-- The header of a request or of an answer. -/
structure Header where
  target : String
  seq : UInt64
  error : String := ""
deriving DecidableEq, Repr, Inhabited

namespace Header

/-- The same header with an error. -/
def withError (h : Header) (text : String) : Header := { h with error := text }

/-- The header says that the call failed. -/
def isError (h : Header) : Bool := h.error != ""

/-- The header as data: three fields in this order. -/
def toDatum (h : Header) : Datum :=
  .record [("serviceMethod", .text h.target), ("seq", .int h.seq.toNat), ("error", .text h.error)]

/-- The shape of a header; an error may be left out. -/
def shape : Shape :=
  .record "Header" [⟨"serviceMethod", .text, none⟩, ⟨"seq", .int .u64, none⟩,
    ⟨"error", .text, some (.text "")⟩]

/-- The header that data of that shape give. -/
def ofDatum? : Datum → Option Header
  | .map [(_, .text target), (_, .int seq), (_, .text error)] =>
    some ⟨target, UInt64.ofNat seq.toNat, error⟩
  | _ => none

theorem ofDatum?_toDatum (h : Header) : ofDatum? h.toDatum = some h := by
  simp [toDatum, Datum.record, ofDatum?]

end Header
end Callwire
