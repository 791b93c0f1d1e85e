/-
# Blank characters

The characters with the Unicode property White_Space: the only ones that
trimming removes and word splitting cuts at.

Key definitions: `Text.isBlank`, `Text.trim`, `Text.words`.
Key theorems: `Text.isBlank_of_isWhitespace`.
-/
import Callwire.Text.Split

namespace Callwire
namespace Text

/-- The characters with the property White_Space. -/
def isBlank (c : Char) : Bool :=
  let n := c.toNat
  (0x9 ≤ n && n ≤ 0xd) || n == 0x20 || n == 0x85 || n == 0xa0 || n == 0x1680 ||
    (0x2000 ≤ n && n ≤ 0x200a) || n == 0x2028 || n == 0x2029 || n == 0x202f || n == 0x205f ||
    n == 0x3000

/-- The characters without the blanks at both ends. -/
def trimChars (cs : List Char) : List Char :=
  ((cs.dropWhile isBlank).reverse.dropWhile isBlank).reverse

/-- The text without the blanks at both ends. -/
def trim (s : String) : String := String.ofList (trimChars s.toList)

/-- The pieces between blanks, without the empty ones. -/
def words (s : String) : List String :=
  ((cut isBlank s.toList).filter (!·.isEmpty)).map String.ofList

theorem isBlank_of_isWhitespace (c : Char) (h : c.isWhitespace) : isBlank c := by
  simp only [Char.isWhitespace, Bool.or_eq_true, decide_eq_true_eq] at h
  rcases h with ((rfl | rfl) | rfl) | rfl <;> decide

end Text
end Callwire
