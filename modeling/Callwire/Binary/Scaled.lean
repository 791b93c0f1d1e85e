/-
# Numbers read from a significand and a power of ten

A number text gives at most twenty digits, as a word of 64 bits, and a power
of ten. The number is the word's nearest double multiplied or divided by the
nearest double of the power, each step rounded; powers below `10^-308` divide
by `10^308` until the rest is small enough. A magnitude that becomes infinite
is refused.

Key definitions: `Binary.powerOfTen`, `Binary.scaleDown`, `Binary.scaled?`.
-/
import Callwire.Binary.Format

namespace Callwire
namespace Binary

open Format

/-- The double nearest to `10^k`. -/
def powerOfTen (k : Nat) : Nat := double.round (Nat.pow 10 k) 1

/-- The double over `10^k`, at most `10^308` at a time. -/
def scaleDown (mag k : Nat) : Nat :=
  if k ≤ 308 then double.ratio mag (powerOfTen k)
  else if mag = 0 then 0
  else scaleDown (double.ratio mag (powerOfTen 308)) (k - 308)
termination_by k

/-- The magnitude of `digits * 10^k`, unless it is too great for a double. -/
def scaled? (digits : Nat) (k : Int) : Option Nat :=
  let mag := double.round digits 1
  if k < 0 then some (scaleDown mag k.natAbs)
  else if 308 < k then if mag = 0 then some 0 else none
  else
    let r := double.times mag (powerOfTen k.toNat)
    if r < double.infinity then some r else none

end Binary
end Callwire
