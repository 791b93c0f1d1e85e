/-
# Words are read as they are written

A word of `k` bytes holds every number below `256^k`, and every run of `k`
bytes is the word of the number it spells.

Key theorems: `Bytes.toNat_word`, `Bytes.word_toNat`, `Bytes.toNat_lt`.
-/
import Mathlib
import Callwire.Bytes

namespace Callwire
namespace Bytes

theorem word_succ (k n : Nat) : word (k + 1) n = UInt8.ofNat (n / 256 ^ k) :: word k n := rfl

theorem foldl_eq (bs : Bytes) (n : Nat) :
    bs.foldl (fun n b => n * 256 + b.toNat) n = n * 256 ^ bs.length + toNat bs := by
  induction bs generalizing n with
  | nil => simp [toNat]
  | cons b bs ih =>
    have h0 := ih b.toNat
    have h1 := ih (n * 256 + b.toNat)
    simp only [toNat, List.foldl_cons, List.length_cons, Nat.zero_mul, Nat.zero_add] at *
    rw [h1, h0, Nat.pow_succ, Nat.add_mul, Nat.mul_assoc, Nat.mul_comm 256, Nat.add_assoc]

theorem toNat_cons (b : UInt8) (bs : Bytes) :
    toNat (b :: bs) = b.toNat * 256 ^ bs.length + toNat bs := by
  have h := foldl_eq bs b.toNat
  simpa [toNat] using h

theorem toNat_lt (bs : Bytes) : toNat bs < 256 ^ bs.length := by
  induction bs with
  | nil => simp [toNat]
  | cons b bs ih =>
    rw [toNat_cons, List.length_cons, Nat.pow_succ]
    have hb : b.toNat < 256 := b.toNat_lt
    have hm : b.toNat * 256 ^ bs.length ≤ 255 * 256 ^ bs.length :=
      Nat.mul_le_mul_right _ (by omega)
    omega

theorem toNat_word_mod (k n : Nat) : toNat (word k n) = n % 256 ^ k := by
  induction k with
  | zero => simp [word, toNat, Nat.mod_one]
  | succ k ih =>
    rw [word_succ, toNat_cons, length_word, ih, Nat.pow_succ, Nat.mod_mul, Nat.add_comm,
      Nat.mul_comm]
    simp

theorem toNat_word {k n : Nat} (h : n < 256 ^ k) : toNat (word k n) = n := by
  rw [toNat_word_mod, Nat.mod_eq_of_lt h]

theorem word_add_mul (k n m : Nat) : word k (n + 256 ^ k * m) = word k n := by
  induction k generalizing m with
  | zero => rfl
  | succ k ih =>
    have hp : 0 < 256 ^ k := Nat.pow_pos (by decide)
    have he : n + 256 ^ (k + 1) * m = n + 256 ^ k * (256 * m) := by
      rw [Nat.pow_succ, Nat.mul_assoc]
    rw [word_succ, word_succ, he, ih (256 * m), Nat.add_mul_div_left _ _ hp]
    congr 1
    apply UInt8.toNat_inj.mp
    simp only [UInt8.toNat_ofNat']
    omega

theorem word_toNat (bs : Bytes) : word bs.length (toNat bs) = bs := by
  induction bs with
  | nil => rfl
  | cons b bs ih =>
    have hp : 0 < 256 ^ bs.length := Nat.pow_pos (by decide)
    have hlt := toNat_lt bs
    rw [toNat_cons, List.length_cons, word_succ, Nat.add_comm, Nat.mul_comm, word_add_mul, ih,
      Nat.add_mul_div_left _ _ hp, Nat.div_eq_of_lt hlt, Nat.zero_add]
    simp

end Bytes
end Callwire
