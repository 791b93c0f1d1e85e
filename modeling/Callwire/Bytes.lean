/-
# Bytes and the words written in them

A connection carries bytes and nothing else. Bytes are lists, so that a stream
cut into chunks is the concatenation of its chunks and a reader is a function
from the unread bytes to what it took and what is left. A word is written with
its most significant byte first.

Key definitions: `Bytes`, `Bytes.word`, `Bytes.toNat`, `Bytes.split?`,
`Bytes.ofText`, `Bytes.toText?`.
Key theorems: `Bytes.length_word`, `Bytes.toText?_ofText`, `Bytes.split?_append`.
-/
namespace Callwire

/-- A run of bytes, first byte first. -/
abbrev Bytes := List UInt8

namespace Bytes

/-- The last `k` bytes of `n`, most significant first. -/
def word : Nat → Nat → Bytes
  | 0, _ => []
  | k + 1, n => UInt8.ofNat (n / Nat.pow 256 k) :: word k n

/-- The number that bytes spell, most significant byte first. -/
def toNat (bs : Bytes) : Nat := bs.foldl (fun n b => n * 256 + b.toNat) 0

/-- The number that bytes spell when their first bit is a sign of weight `-2^(8k-1)`. -/
def toInt (bs : Bytes) : Int :=
  if 2 * bs.toNat < Nat.pow 256 bs.length then bs.toNat else bs.toNat - Nat.pow 256 bs.length

/-- The first `n` bytes and the rest, if there are that many. -/
def split? (n : Nat) (bs : Bytes) : Option (Bytes × Bytes) :=
  let p := bs.splitAt n
  if p.1.length = n then some p else none

/-- The UTF-8 form of a text. -/
def ofText (s : String) : Bytes := s.toUTF8.data.toList

/-- The text that bytes spell, if they are UTF-8. -/
def toText? (bs : Bytes) : Option String := String.fromUTF8? ⟨bs.toArray⟩

theorem length_word (k n : Nat) : (word k n).length = k := by
  induction k with
  | zero => rfl
  | succ k ih => simp [word, ih]

theorem toText?_ofText (s : String) : toText? (ofText s) = some s := by
  have h : (⟨s.toUTF8.data.toList.toArray⟩ : ByteArray) = s.toUTF8 := rfl
  rw [toText?, ofText, h, String.fromUTF8?, String.toUTF8_eq_toByteArray, dif_pos s.isValidUTF8]
  rfl

theorem split?_append (a b : Bytes) : split? a.length (a ++ b) = some (a, b) := by
  simp [split?, List.splitAt_eq]

theorem eq_append_of_split? {n : Nat} {bs a b : Bytes} (h : split? n bs = some (a, b)) :
    bs = a ++ b ∧ a.length = n := by
  simp only [split?, List.splitAt_eq] at h
  split at h
  · rename_i hn
    simp only [Option.some.injEq, Prod.mk.injEq] at h
    obtain ⟨rfl, rfl⟩ := h
    exact ⟨(List.take_append_drop n bs).symm, hn⟩
  · simp at h

end Bytes
end Callwire
