/-
# Reading text that may not be UTF-8

Every byte string reads as some text: a well-formed sequence gives its
character, and the longest start of a sequence that cannot go on gives one
U+FFFD. The reader keeps only the sequence it is in the middle of.

Key definitions: `Text.Lossy.start`, `Text.Lossy.go`, `Text.ofBytesLossy`.
-/
import Callwire.Bytes

namespace Callwire
namespace Text
namespace Lossy

/-- A sequence that has begun: its bits so far, how many bytes are missing and
the bounds of the next one. -/
structure Pending where
  code : Nat
  missing : Nat
  low : UInt8
  high : UInt8

/-- The mark for bytes that are no text. -/
def mark : Char := '\uFFFD'

/-- What a byte that begins something gives: a character of its own or a
sequence to be continued. -/
def start (b : UInt8) : Char ⊕ Pending :=
  if b < 0x80 then .inl (Char.ofNat b.toNat)
  else if 0xC2 ≤ b && b ≤ 0xDF then .inr ⟨b.toNat - 0xC0, 1, 0x80, 0xBF⟩
  else if b == 0xE0 then .inr ⟨0, 2, 0xA0, 0xBF⟩
  else if b == 0xED then .inr ⟨0xD, 2, 0x80, 0x9F⟩
  else if 0xE1 ≤ b && b ≤ 0xEF then .inr ⟨b.toNat - 0xE0, 2, 0x80, 0xBF⟩
  else if b == 0xF0 then .inr ⟨0, 3, 0x90, 0xBF⟩
  else if b == 0xF4 then .inr ⟨4, 3, 0x80, 0x8F⟩
  else if 0xF1 ≤ b && b ≤ 0xF3 then .inr ⟨b.toNat - 0xF0, 3, 0x80, 0xBF⟩
  else .inl mark

/-- The characters of the bytes, after a sequence that may have begun;
`out` holds the characters so far, last first. -/
def go : Bytes → Option Pending → List Char → List Char
  | [], none, out => out.reverse
  | [], some _, out => (mark :: out).reverse
  | b :: bs, none, out =>
    match start b with
    | .inl c => go bs none (c :: out)
    | .inr p => go bs (some p) out
  | b :: bs, some p, out =>
    if p.low ≤ b && b ≤ p.high then
      let code := p.code * 64 + (b.toNat - 0x80)
      if p.missing = 1 then go bs none (Char.ofNat code :: out)
      else go bs (some ⟨code, p.missing - 1, 0x80, 0xBF⟩) out
    else
      match start b with
      | .inl c => go bs none (c :: mark :: out)
      | .inr p => go bs (some p) (mark :: out)

end Lossy

/-- The text that bytes spell, with U+FFFD where they spell none. -/
def ofBytesLossy (bs : Bytes) : String := String.ofList (Lossy.go bs none [])

end Text
end Callwire
