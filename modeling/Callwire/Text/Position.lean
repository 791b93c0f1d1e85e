/-
# Positions in a text

A position is a line, counted from one, and how many bytes of it come before. A
text that names the place of a fault ends in ` at line L column C`. Both
numbers are decimal and fit a word of 64 bits. Where the place is no part of
what is said, the text is taken without it, once: what stands before may end
in a position of its own.

Key definitions: `Text.Position`, `Position.after`, `Position.text`,
`Text.trailingNumber?`, `Text.withoutPosition`.
Key theorem: `Text.cutEnd?_eq_some_iff`.
-/
import Callwire.Bytes

namespace Callwire
namespace Text

/-- A line and the bytes of it that come before. -/
structure Position where
  line : Nat
  column : Nat
deriving DecidableEq, Repr

/-- The position after the bytes of a text. A line feed ends a line. -/
def Position.after (bs : Bytes) : Position :=
  ⟨bs.count 0x0a + 1, (bs.reverse.takeWhile (· != 0x0a)).length⟩

/-- The position at the end of a text that names it. -/
def Position.text (p : Position) : String := s!" at line {p.line} column {p.column}"

/-- Reversed text without an end, which is reversed too. -/
def cutEnd? : List Char → List Char → Option (List Char)
  | [], cs => some cs
  | _ :: _, [] => none
  | k :: ks, c :: cs => if k = c then cutEnd? ks cs else none

/-- What is left of reversed text without the number that it ends in, if that is
one and fits a word of 64 bits. -/
def trailingNumber? (cs : List Char) : Option (List Char) :=
  let ds := (cs.takeWhile Char.isDigit).reverse
  let n := ds.foldl (fun (n : Nat) c => min 0x10000000000000000 (n * 10 + (c.toNat - 0x30))) 0
  if ds.isEmpty ∨ n = 0x10000000000000000 then none else some (cs.dropWhile Char.isDigit)

/-- The text without the position that it ends in, if it ends in one. -/
def withoutPosition (s : String) : String :=
  let rest? := do
    let cs ← trailingNumber? s.toList.reverse
    let cs ← cutEnd? " column ".toList.reverse cs
    let cs ← trailingNumber? cs
    cutEnd? " at line ".toList.reverse cs
  match rest? with
  | some cs => String.ofList cs.reverse
  | none => s

theorem cutEnd?_eq_some_iff {ks cs rest : List Char} :
    cutEnd? ks cs = some rest ↔ cs = ks ++ rest := by
  induction ks generalizing cs with
  | nil => simp [cutEnd?]
  | cons k ks ih =>
    cases cs with
    | nil => simp [cutEnd?]
    | cons c cs =>
      rw [cutEnd?]
      split
      · rename_i h
        simp [ih, h]
      · rename_i h
        simp [Ne.symm h]

end Text
end Callwire
