/-
# Binary floating-point formats

A format has a precision `p` and a width of the exponent field. A finite
number is `m * 2^q` with `m < 2^p`, and `q` is at least the exponent of the
smallest positive number. The magnitude of a number is its bits without the
sign. Everything is exact: numbers are rounded from quotients of naturals, to
the nearest, and to the even one of two nearest.

Key definitions: `Binary.Format`, `Format.double`, `Format.single`,
`Format.significand`, `Format.round`, `Format.quotient`, `Format.convert`.
-/
namespace Callwire
namespace Binary

/-- A binary floating-point format: the bits of a significand, the leading one
included, and the bits of the exponent field. -/
structure Format where
  precision : Nat
  exponentBits : Nat
deriving DecidableEq, Repr

namespace Format

/-- Sixty-four bits. -/
def double : Format := ⟨53, 11⟩

/-- Thirty-two bits. -/
def single : Format := ⟨24, 8⟩

variable (f : Format)

/-- The weight of the last bit of the smallest positive number is `2^(-f.depth)`. -/
def depth : Nat := 1 <<< (f.exponentBits - 1) - 2 + (f.precision - 1)

/-- The bits below the sign. -/
def signBit : Nat := 1 <<< (f.precision - 1 + f.exponentBits)

/-- The magnitude of infinity. -/
def infinity : Nat := (1 <<< f.exponentBits - 1) <<< (f.precision - 1)

/-- The sign of the bits. -/
def isNegative (bits : Nat) : Bool := f.signBit ≤ bits

/-- The bits without their sign. -/
def magnitude (bits : Nat) : Nat := bits % f.signBit

/-- Neither infinite nor no number. -/
def isFinite (bits : Nat) : Bool := f.magnitude bits < f.infinity

/-- The significand `m` of a finite magnitude and the place `k` of its last
bit, counted from that of the smallest number: the value is
`m * 2^k / 2^f.depth`. -/
def significand (mag : Nat) : Nat × Nat :=
  let unit := 1 <<< (f.precision - 1)
  let e := mag / unit
  if e = 0 then (mag % unit, 0) else (mag % unit + unit, e - 1)

/-- The exponent of the greatest power of two that is at most `num / den`. -/
def logTwo (num den : Nat) : Int :=
  let k : Int := (num.log2 : Int) - den.log2
  let below := if 0 ≤ k then num < den <<< k.toNat else num <<< (-k).toNat < den
  if below then k - 1 else k

/-- The natural number nearest to `num / den`, the even one of two. -/
def nearest (num den : Nat) : Nat :=
  let d := num / den
  let r := num % den
  if 2 * r < den then d else if 2 * r = den then d + d % 2 else d + 1

/-- The magnitude nearest to `num / den`, infinity beyond the greatest one. -/
def round (num den : Nat) : Nat :=
  if num = 0 then 0
  else
    let place := (logTwo num den + f.depth - (f.precision - 1)).toNat
    let m := nearest (num <<< f.depth) (den <<< place)
    min f.infinity (place <<< (f.precision - 1) + m)

/-- A finite magnitude as a quotient of naturals. -/
def quotient (mag : Nat) : Nat × Nat :=
  let s := f.significand mag
  (s.1 <<< s.2, 1 <<< f.depth)

/-- The magnitude of the product of two finite magnitudes. -/
def times (a b : Nat) : Nat :=
  let x := f.quotient a
  let y := f.quotient b
  f.round (x.1 * y.1) (x.2 * y.2)

/-- The magnitude of the quotient of two finite magnitudes, the second not zero. -/
def ratio (a b : Nat) : Nat :=
  let x := f.quotient a
  let y := f.quotient b
  f.round (x.1 * y.2) (x.2 * y.1)

/-- The bits of the integer's nearest number. -/
def ofInt (n : Int) : Nat :=
  (if n < 0 then f.signBit else 0) + f.round n.natAbs 1

/-- The bits in format `g` of the number with bits `bits` in format `f`: the
nearest one; what is no number stays none, quiet, with its leading bits. -/
def convert (g : Format) (bits : Nat) : Nat :=
  let sign := if f.isNegative bits then g.signBit else 0
  let mag := f.magnitude bits
  if mag < f.infinity then
    let x := f.quotient mag
    sign + g.round x.1 x.2
  else if mag = f.infinity then sign + g.infinity
  else
    let quiet := 1 <<< (f.precision - 2)
    let rest := (mag % quiet) <<< g.precision >>> f.precision
    sign + g.infinity + 1 <<< (g.precision - 2) + rest

end Format
end Binary
end Callwire
