/-
# Text in UTF-8 is read as it is written

A reader that has a mark for every byte that is no text needs none for text. The bytes of a
character lead it from between characters to between characters, and what it keeps on the way
are the bits of the character so far. The bounds of the second byte hold for every character:
one with fewer bits has a shorter form, and the code points above and between are no characters.

Key theorems: `Bytes.ofText_eq_flatMap`, `Text.Lossy.go_utf8EncodeChar`,
`Text.ofBytesLossy_ofText`.
-/
import Mathlib
import Callwire.Text.Lossy

namespace Callwire

theorem Bytes.ofText_eq_flatMap (s : String) : ofText s = s.toList.flatMap String.utf8EncodeChar := by
  have h := String.toByteArray_ofList (l := s.toList)
  rw [String.ofList_toList] at h
  rw [ofText, String.toUTF8_eq_toByteArray, h, List.utf8Encode]
  simp

namespace Text
namespace Lossy

variable {n k m : Nat} {bs : Bytes} {out : List Char}

/-! ### The first byte of a character -/

theorem toNat_ofNat (h : n < 256) : (UInt8.ofNat n).toNat = n := UInt8.toNat_ofNat_of_lt' h

theorem start_one (h : n < 128) : start (UInt8.ofNat n) = .inl (Char.ofNat n) := by
  have hnat : (UInt8.ofNat n).toNat = n := toNat_ofNat (by omega)
  have hlt : UInt8.ofNat n < 0x80 := by
    rw [UInt8.lt_iff_toNat_lt, hnat]
    exact h
  rw [start, if_pos hlt, hnat]

theorem start_two (hn : 2 ≤ n) (h : n < 32) :
    start (UInt8.ofNat (n + 192)) = .inr ⟨n, 1, 0x80, 0xBF⟩ := by
  interval_cases n <;> rfl

theorem start_three (h : n < 16) : start (UInt8.ofNat (n + 224)) =
    .inr ⟨n, 2, if n = 0 then 0xA0 else 0x80, if n = 13 then 0x9F else 0xBF⟩ := by
  interval_cases n <;> rfl

theorem start_four (h : n < 5) : start (UInt8.ofNat (n + 240)) =
    .inr ⟨n, 3, if n = 0 then 0x90 else 0x80, if n = 4 then 0x8F else 0xBF⟩ := by
  interval_cases n <;> rfl

/-! ### The other bytes -/

theorem inBounds {low high : UInt8} (hk : k < 64) (hlow : low.toNat ≤ k + 128)
    (hhigh : k + 128 ≤ high.toNat) :
    (low ≤ UInt8.ofNat (k + 128) && UInt8.ofNat (k + 128) ≤ high) = true := by
  rw [Bool.and_eq_true, decide_eq_true_iff, decide_eq_true_iff, UInt8.le_iff_toNat_le,
    UInt8.le_iff_toNat_le, toNat_ofNat (by omega)]
  exact ⟨hlow, hhigh⟩

/-- A byte that is not the last one brings six bits. -/
theorem go_next {low high : UInt8} (hk : k < 64) (hlow : low.toNat ≤ k + 128)
    (hhigh : k + 128 ≤ high.toNat) :
    go (UInt8.ofNat (k + 128) :: bs) (some ⟨n, m + 2, low, high⟩) out =
      go bs (some ⟨n * 64 + k, m + 1, 0x80, 0xBF⟩) out := by
  rw [go, if_pos (inBounds hk hlow hhigh), toNat_ofNat (by omega), Nat.add_sub_cancel]
  rfl

theorem go_last (hk : k < 64) :
    go (UInt8.ofNat (k + 128) :: bs) (some ⟨n, 1, 0x80, 0xBF⟩) out =
      go bs none (Char.ofNat (n * 64 + k) :: out) := by
  have hbounds : (0x80 ≤ UInt8.ofNat (k + 128) && UInt8.ofNat (k + 128) ≤ 0xBF) = true :=
    inBounds hk (Nat.le_add_left 128 k) (Nat.add_le_add_right (Nat.le_of_lt_succ hk) 128)
  rw [go, if_pos hbounds, toNat_ofNat (by omega), Nat.add_sub_cancel]
  rfl

theorem go_utf8EncodeChar (c : Char) (bs : Bytes) (out : List Char) :
    go (String.utf8EncodeChar c ++ bs) none out = go bs none (c :: out) := by
  have hvalid : c.toNat < 0xD800 ∨ 0xDFFF < c.toNat ∧ c.toNat < 0x110000 := c.valid
  have hchar : ∀ n, n = c.toNat → Char.ofNat n = c := fun n h => h ▸ Char.ofNat_toNat c
  have hv : c.val.toNat = c.toNat := rfl
  rw [String.utf8EncodeChar, hv]
  generalize c.toNat = v at *
  -- one case for each number of bytes
  split_ifs with h1 h2 h3 <;> simp only [List.cons_append, List.nil_append]
  · rw [go, start_one (by omega)]
    dsimp only
    rw [hchar v rfl]
  · rw [go, start_two (by omega) (by omega)]
    dsimp only
    rw [go_last (by omega), hchar _ (by omega)]
  · have hlow : (if v / 4096 % 16 = 0 then 0xA0 else 0x80 : UInt8).toNat ≤ v / 64 % 64 + 128 := by
      split <;> simp only [UInt8.reduceToNat] <;> omega
    have hhigh : v / 64 % 64 + 128 ≤ (if v / 4096 % 16 = 13 then 0x9F else 0xBF : UInt8).toNat := by
      split <;> simp only [UInt8.reduceToNat] <;> omega
    rw [go, start_three (by omega)]
    dsimp only
    rw [go_next (by omega) hlow hhigh, go_last (by omega), hchar _ (by omega)]
  · have hlow : (if v / 262144 % 8 = 0 then 0x90 else 0x80 : UInt8).toNat ≤ v / 4096 % 64 + 128 := by
      split <;> simp only [UInt8.reduceToNat] <;> omega
    have hhigh : v / 4096 % 64 + 128 ≤ (if v / 262144 % 8 = 4 then 0x8F else 0xBF : UInt8).toNat := by
      split <;> simp only [UInt8.reduceToNat] <;> omega
    have htail : v / 64 % 64 + 128 ≤ (0xBF : UInt8).toNat := by
      simp only [UInt8.reduceToNat]
      omega
    rw [go, start_four (by omega)]
    dsimp only
    rw [go_next (by omega) hlow hhigh, go_next (by omega) (Nat.le_add_left 128 _) htail, go_last (by omega),
      hchar _ (by omega)]

end Lossy

/-- **Text in UTF-8 is read as it is written.** -/
theorem ofBytesLossy_ofText (s : String) : ofBytesLossy (Bytes.ofText s) = s := by
  have hgo : ∀ (cs out : List Char),
      Lossy.go (cs.flatMap String.utf8EncodeChar) none out = out.reverse ++ cs := by
    intro cs
    induction cs with
    | nil => simp [Lossy.go]
    | cons c cs ih =>
      intro out
      rw [List.flatMap_cons, Lossy.go_utf8EncodeChar, ih]
      simp
  rw [ofBytesLossy, Bytes.ofText_eq_flatMap, hgo]
  simp

end Text
end Callwire
