/-
# The shortest decimal that reads back

Every finite number is the nearest one to an interval of reals; the interval
contains its ends when the significand is even. Among the decimals in it, the
shortest are those on the coarsest grid of powers of ten that meets it, and of
these the one nearest to the number is written, the even one of two. On each
grid only the two neighbours of the number need to be looked at.

Key definitions: `Binary.Span`, `Format.span`, `Span.neighbour?`, `Format.shortest`.
-/
import Callwire.Binary.Format

namespace Callwire
namespace Binary

/-- A number and the ends of the interval that rounds to it, over one denominator. -/
structure Span where
  low : Nat
  mid : Nat
  high : Nat
  den : Nat
  closed : Bool

namespace Span

/-- The point `n / d` lies in the interval. -/
def contains (s : Span) (n d : Nat) : Bool :=
  let a := s.low * d
  let b := n * s.den
  let c := s.high * d
  if s.closed then a ≤ b && b ≤ c else a < b && b < c

/-- The point of the grid `num / den * ℤ` that is nearest to the number among
those next to it that lie in the interval. -/
def neighbour? (s : Span) (num den : Nat) : Option Nat :=
  let d := s.mid * den / (s.den * num)
  let r := s.mid * den % (s.den * num)
  let below := s.contains (d * num) den
  let above := s.contains ((d + 1) * num) den
  match below, above with
  | true, true =>
    if 2 * r < s.den * num then some d
    else if 2 * r = s.den * num then some (d + d % 2)
    else some (d + 1)
  | true, false => some d
  | false, true => some (d + 1)
  | false, false => none

end Span

/-- The exponent of the greatest power of ten that is at most `num / den`,
by its neighbours from an estimate. -/
def logTen (num den : Nat) : Int :=
  let estimate := Format.logTwo num den * 30103 / 100000
  let reaches (e : Int) : Bool :=
    if 0 ≤ e then den * Nat.pow 10 e.toNat ≤ num else den ≤ num * Nat.pow 10 (-e).toNat
  if reaches (estimate + 1) then estimate + 1
  else if reaches estimate then estimate
  else estimate - 1

/-- Digits without the zeros at their end, and how many there were; at most
`fuel` are taken. -/
def dropZeros : Nat → Nat → Nat × Nat
  | 0, n => (n, 0)
  | fuel + 1, n =>
    if n % 10 = 0 then
      let r := dropZeros fuel (n / 10)
      (r.1, r.2 + 1)
    else (n, 0)

namespace Format

variable (f : Format)

/-- The interval of a finite magnitude. -/
def span (mag : Nat) : Span :=
  let s := f.significand mag
  let unit := 1 <<< (f.precision - 1)
  let scale := 1 <<< s.2
  let low := if s.1 = unit && 0 < s.2 then 4 * s.1 - 1 else 4 * s.1 - 2
  { low := low * scale, mid := 4 * s.1 * scale, high := (4 * s.1 + 2) * scale,
    den := 4 <<< f.depth, closed := s.1 % 2 = 0 }

/-- The grid with `n` digits from the place `e` on: first hit among `n`, `n + 1`, … -/
def shortestFrom (s : Span) (e : Int) : Nat → Nat → Nat × Int
  | 0, _ => (0, 0)
  | fuel + 1, n =>
    let place : Int := e - n + 1
    let hit := if 0 ≤ place then s.neighbour? (Nat.pow 10 place.toNat) 1
      else s.neighbour? 1 (Nat.pow 10 (-place).toNat)
    match hit with
    | some d =>
      let r := dropZeros 20 d
      (r.1, place + r.2)
    | none => shortestFrom s e fuel (n + 1)

/-- The shortest decimal `d * 10^k` of a finite magnitude other than zero: `d`
and `k`, where `d` has no zero at its end. -/
def shortest (mag : Nat) : Nat × Int :=
  let s := f.span mag
  shortestFrom s (logTen s.mid s.den) 17 1

end Format
end Binary
end Callwire
