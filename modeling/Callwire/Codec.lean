/-
# The two codecs of a connection

A connection speaks one codec, for headers and bodies alike, and its options
name it by an identifier.

Key definitions: `Codec`, `Codec.id`, `Codec.ofId?`.
Key theorems: `Codec.ofId?_eq_some_iff`.
-/
namespace Callwire

/-- How headers and bodies are written. -/
inductive Codec where
  | messagePack
  | json
deriving DecidableEq, Repr, Inhabited

namespace Codec

/-- The name of the codec in options. -/
def id : Codec → String
  | messagePack => "application/msgpack"
  | json => "application/json"

/-- The codec of a name. -/
def ofId? (s : String) : Option Codec :=
  if s = messagePack.id then some messagePack
  else if s = json.id then some json
  else none

theorem ofId?_eq_some_iff {s : String} {c : Codec} : ofId? s = some c ↔ s = c.id := by
  have hne : json.id ≠ messagePack.id := by decide
  constructor
  · intro h
    rw [ofId?] at h
    split at h
    · cases h; assumption
    · split at h
      · cases h; assumption
      · cases h
  · rintro rfl
    cases c <;> simp [ofId?, hne]

end Codec
end Callwire
