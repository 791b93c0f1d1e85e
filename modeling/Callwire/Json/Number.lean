/-
# What a JSON number is worth

A number without point and exponent is an integer if a word of 64 bits holds
it; minus zero is none. Every other number is the double of a significand and
a power of ten. The significand takes digits as long as a word holds it: from
the first digit before the point that does not fit on, the rest of them only
count, and from the first one after the point that does not fit on they are
dropped.

Key definitions: `Json.Number`, `Json.takeDigits`, `Numeral.value?`.
-/
import Callwire.Json.Scanner
import Callwire.Binary.Scaled

namespace Callwire
namespace Json

/-- The worth of a number. -/
inductive Number where
  | int (n : Int)
  | double (bits : Nat)
deriving DecidableEq, Repr

/-- The greatest word of 64 bits. -/
def wordMax : Nat := 0xffffffffffffffff

/-- A significand continued by digits as long as a word holds it, and how many
digits there were no room for. -/
def takeDigits (n : Nat) : Bytes → Nat × Nat
  | [] => (n, 0)
  | b :: bs =>
    let next := n * 10 + (b.toNat - 0x30)
    if next ≤ wordMax then takeDigits next bs else (n, bs.length + 1)

namespace Numeral

/-- A double with a sign. -/
def signed (x : Numeral) (mag : Nat) : Number :=
  .double (if x.negative then Binary.Format.double.signBit + mag else mag)

/-- Exponents from here on are as good as infinite. -/
def exponentLimit : Nat := 0x80000000

/-- The power of ten that the exponent asks for. -/
def shift (x : Numeral) : Int :=
  match x.exponent with
  | none => 0
  | some (negative, ds) =>
    let e := ds.foldl (fun n b => min exponentLimit (n * 10 + (b.toNat - 0x30))) 0
    if negative then -e else e

/-- The significand and its power of ten. -/
def scaledParts (x : Numeral) : Nat × Int :=
  let (n, beyond) := takeDigits 0 x.whole
  let ds := x.fraction.getD []
  let (m, dropped) := takeDigits n ds
  (m, beyond - (ds.length - dropped) + x.shift)

/-- What the number is worth, unless it is too great for a double. -/
def value? (x : Numeral) : Option Number :=
  let (n, beyond) := takeDigits 0 x.whole
  let isWord := x.fraction.isNone && x.exponent.isNone && beyond = 0
  if isWord && !x.negative then some (.int n)
  else if isWord && x.negative && 0 < n && n ≤ 0x8000000000000000 then some (.int (-n))
  else
    let (m, k) := x.scaledParts
    (Binary.scaled? m k).map x.signed

end Numeral
end Json
end Callwire
