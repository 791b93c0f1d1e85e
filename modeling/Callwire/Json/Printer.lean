/-
# Writing data as JSON

The text is compact. Inside a string only the quote, the backslash and the
control characters below U+0020 are escaped. A finite number that is no
integer is written by its shortest digits, positionally when its leading digit
stands for a power of ten near one and with an exponent otherwise; how near is
a matter of its format. It keeps a point or an exponent, so it never reads as
an integer. The key of an entry is a text, or a truth value or a finite number
in the place of its text: data with another key have no JSON form.

The writer puts bytes in front of what it has written, so the output so far is
read last byte first.

Key definitions: `Json.digits`, `Json.escape`, `Json.Layout`, `Json.number`,
`Json.keyText?`, `Json.write`, `Json.print?`.
-/
import Callwire.Bytes
import Callwire.Datum
import Callwire.Binary.Shortest

namespace Callwire
namespace Json

/-- The byte of a decimal digit. -/
def digit (d : Nat) : UInt8 := UInt8.ofNat (0x30 + d)

/-- The decimal digits of a number. -/
def digits (n : Nat) : Bytes :=
  if n < 10 then [digit n] else digits (n / 10) ++ [digit (n % 10)]

/-- An integer, with a minus sign when it is negative. -/
def integer (n : Int) : Bytes :=
  if n < 0 then 0x2d :: digits n.natAbs else digits n.natAbs

/-- A digit of a code point, lower case. -/
def hexDigit (d : Nat) : UInt8 := UInt8.ofNat (if d < 10 then 0x30 + d else 0x57 + d)

/-- One byte of a string. Bytes from 0x80 on are part of a character that stands
for itself. -/
def escape (b : UInt8) : Bytes :=
  if b == 0x22 then [0x5c, 0x22]
  else if b == 0x5c then [0x5c, 0x5c]
  else if b == 0x08 then [0x5c, 0x62]
  else if b == 0x0c then [0x5c, 0x66]
  else if b == 0x0a then [0x5c, 0x6e]
  else if b == 0x0d then [0x5c, 0x72]
  else if b == 0x09 then [0x5c, 0x74]
  else if b < 0x20 then
    [0x5c, 0x75, 0x30, 0x30, hexDigit (b.toNat / 16), hexDigit (b.toNat % 16)]
  else [b]

/-- Writes a string between quotes in front of the output. -/
def writeString (s : String) (out : Bytes) : Bytes :=
  0x22 :: (Bytes.ofText s).foldl (fun out b => (escape b).reverse ++ out) (0x22 :: out)

/-- Zeros of a positional number. -/
def zeros (n : Nat) : Bytes := List.replicate n 0x30

/-- How the numbers of a format are laid out: positionally when the leading digit
stands for `10^e` with `least ≤ e < bound`, with an exponent otherwise. -/
structure Layout where
  format : Binary.Format
  least : Int
  bound : Int

namespace Layout

/-- Doubles are positional from `0.00001` to sixteen digits before the point. -/
def double : Layout := ⟨.double, -5, 16⟩

/-- Singles are positional from `0.000001` to thirteen digits before the point. -/
def single : Layout := ⟨.single, -6, 13⟩

end Layout

/-- The decimal `d * 10^k`. -/
def decimal (l : Layout) (d : Nat) (k : Int) : Bytes :=
  let ds := digits d
  let e : Int := ds.length - 1 + k
  if l.least ≤ e && e < l.bound then
    if 0 ≤ k then ds ++ zeros k.toNat ++ [0x2e, 0x30]
    else if 0 ≤ e then ds.take (e.toNat + 1) ++ 0x2e :: ds.drop (e.toNat + 1)
    else [0x30, 0x2e] ++ zeros (-e - 1).toNat ++ ds
  else
    let fraction := match ds.tail with
      | [] => []
      | rest => 0x2e :: rest
    ds.take 1 ++ fraction ++ [0x65, if e < 0 then 0x2d else 0x2b] ++ digits e.natAbs

/-- A floating-point number by its bits; what is infinite or no number is null. -/
def number (l : Layout) (bits : Nat) : Bytes :=
  let f := l.format
  let mag := f.magnitude bits
  let sign : Bytes := if f.isNegative bits then [0x2d] else []
  if !f.isFinite bits then Bytes.ofText "null"
  else if mag = 0 then sign ++ Bytes.ofText "0.0"
  else
    let s := f.shortest mag
    sign ++ decimal l s.1 s.2

/-- What stands between the quotes for a key that is no text, if it can be a key. -/
def keyText? : Datum → Option Bytes
  | .bool b => some (Bytes.ofText (if b then "true" else "false"))
  | .int n => some (integer n)
  | .double bits =>
    if Binary.Format.double.isFinite bits.toNat then some (number Layout.double bits.toNat) else none
  | .single bits =>
    if Binary.Format.single.isFinite bits.toNat then some (number Layout.single bits.toNat) else none
  | _ => none

/-- Writes a key in front of the output. -/
def writeKey : Datum → Bytes → Bytes
  | .text s, out => writeString s out
  | k, out => 0x22 :: (((keyText? k).getD []).reverse ++ 0x22 :: out)

/-- The datum can be a key. -/
def isKey : Datum → Bool
  | .text _ => true
  | k => (keyText? k).isSome

mutual

/-- Writes a datum in front of the output. -/
def write : Datum → Bytes → Bytes
  | .null, out => (Bytes.ofText "null").reverse ++ out
  | .bool b, out => (Bytes.ofText (if b then "true" else "false")).reverse ++ out
  | .int n, out => (integer n).reverse ++ out
  | .double bits, out => (number Layout.double bits.toNat).reverse ++ out
  | .single bits, out => (number Layout.single bits.toNat).reverse ++ out
  | .text s, out => writeString s out
  | .list items, out => 0x5d :: writeItems items true (0x5b :: out)
  | .map entries, out => 0x7d :: writeEntries entries true (0x7b :: out)

/-- Writes items, a comma before each but the first. -/
def writeItems : List Datum → Bool → Bytes → Bytes
  | [], _, out => out
  | d :: ds, first, out => writeItems ds false (write d (if first then out else 0x2c :: out))

/-- Writes entries, a comma before each but the first. -/
def writeEntries : List (Datum × Datum) → Bool → Bytes → Bytes
  | [], _, out => out
  | (k, v) :: es, first, out =>
    writeEntries es false (write v (0x3a :: writeKey k (if first then out else 0x2c :: out)))

end

mutual

/-- Every key can be one. -/
def keyed : Datum → Bool
  | .list items => keyedItems items
  | .map entries => keyedEntries entries
  | _ => true

/-- Every key in the items can be one. -/
def keyedItems : List Datum → Bool
  | [] => true
  | d :: ds => keyed d && keyedItems ds

/-- Every key of the entries and in their values can be one. -/
def keyedEntries : List (Datum × Datum) → Bool
  | [] => true
  | (k, v) :: es => isKey k && keyed v && keyedEntries es

end

/-- The JSON text of a datum, if it has one. -/
def print? (d : Datum) : Option Bytes := if keyed d then some (write d []).reverse else none

end Json
end Callwire
