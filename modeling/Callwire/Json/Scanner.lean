/-
# The tokens of JSON text

Each scanner takes one token from the front of the unread bytes and gives what
it read and what is left, or nothing where the token is not there. A string
gives the bytes it stands for, which need not be text. A number gives its
parts; what it is worth is another matter, and a number that is only skipped
is never asked for it.

Key definitions: `Json.skipBlanks`, `Json.scanWord?`, `Json.splitString?`, `Json.scanString?`,
`Json.skipString?`, `Json.Numeral`, `Json.scanNumeral?`.
-/
import Callwire.Bytes

namespace Callwire
namespace Json

/-- Space, tab, line feed and carriage return. -/
def isBlank (b : UInt8) : Bool := b == 0x20 || b == 0x09 || b == 0x0a || b == 0x0d

/-- The bytes from the first that is not blank. -/
def skipBlanks (bs : Bytes) : Bytes := bs.dropWhile isBlank

/-- The bytes after a given beginning. -/
def scanWord? : Bytes → Bytes → Option Bytes
  | [], bs => some bs
  | w :: ws, b :: bs => if w == b then scanWord? ws bs else none
  | _ :: _, [] => none

/-- A decimal digit. -/
def isDigit (b : UInt8) : Bool := 0x30 ≤ b && b ≤ 0x39

/-- The worth of a digit of a code point. -/
def hexValue? (b : UInt8) : Option Nat :=
  if isDigit b then some (b.toNat - 0x30)
  else if 0x61 ≤ b && b ≤ 0x66 then some (b.toNat - 0x57)
  else if 0x41 ≤ b && b ≤ 0x46 then some (b.toNat - 0x37)
  else none

/-- Four digits of a code unit. -/
def scanUnit? : Bytes → Option (Nat × Bytes)
  | a :: b :: c :: d :: rest => do
    let a ← hexValue? a
    let b ← hexValue? b
    let c ← hexValue? c
    let d ← hexValue? d
    return (((a * 16 + b) * 16 + c) * 16 + d, rest)
  | _ => none

/-- The byte that a letter after a backslash stands for. -/
def unescape? (b : UInt8) : Option UInt8 :=
  if b == 0x22 || b == 0x5c || b == 0x2f then some b
  else if b == 0x62 then some 0x08
  else if b == 0x66 then some 0x0c
  else if b == 0x6e then some 0x0a
  else if b == 0x72 then some 0x0d
  else if b == 0x74 then some 0x09
  else none

/-- The character of a code unit and, where it begins a pair, of the escaped
unit after it. Half a pair is refused. -/
def scanCodePoint? (bs : Bytes) : Option (Char × Bytes) := do
  let (n, rest) ← scanUnit? bs
  if 0xDC00 ≤ n && n ≤ 0xDFFF then none
  else if 0xD800 ≤ n && n ≤ 0xDBFF then
    let rest ← scanWord? [0x5c, 0x75] rest
    let (m, rest) ← scanUnit? rest
    if 0xDC00 ≤ m && m ≤ 0xDFFF then
      return (Char.ofNat (0x10000 + (n - 0xD800) * 0x400 + (m - 0xDC00)), rest)
    else none
  else return (Char.ofNat n, rest)

/-- What a string holds, from after its first quote on, and the bytes after its
last quote; `out` holds what was seen, last first. A byte after a backslash never
ends a string. -/
def splitString? : Bytes → Bytes → Option (Bytes × Bytes)
  | [], _ => none
  | b :: bs, out =>
    if b == 0x22 then some (out.reverse, bs)
    else if b == 0x5c then
      match bs with
      | [] => none
      | e :: bs => splitString? bs (e :: b :: out)
    else splitString? bs (b :: out)

/-- The bytes that what a string holds stands for, `out` holding those so far,
last first. At most `fuel` pieces are read; every piece is a byte or more. -/
def unescapeFrom? : Nat → Bytes → Bytes → Option Bytes
  | 0, _, _ => none
  | _ + 1, [], out => some out.reverse
  | fuel + 1, b :: bs, out =>
    if b == 0x5c then
      match bs with
      | [] => none
      | e :: bs =>
        if e == 0x75 then
          match scanCodePoint? bs with
          | none => none
          | some (c, bs) => unescapeFrom? fuel bs ((String.utf8EncodeChar c).reverse ++ out)
        else
          match unescape? e with
          | none => none
          | some c => unescapeFrom? fuel bs (c :: out)
    else if b < 0x20 then none
    else unescapeFrom? fuel bs (b :: out)

/-- The bytes that a string stands for, after its first quote. -/
def scanString? (bs : Bytes) : Option (Bytes × Bytes) := do
  let (raw, rest) ← splitString? bs []
  let out ← unescapeFrom? (raw.length + 1) raw []
  return (out, rest)

/-- The grammar of what a string holds. Escapes of code units need their digits,
but half a pair passes. At most `fuel` pieces are read. -/
def isSkippable : Nat → Bytes → Bool
  | 0, _ => false
  | _ + 1, [] => true
  | fuel + 1, b :: bs =>
    if b == 0x5c then
      match bs with
      | [] => false
      | e :: bs =>
        if e == 0x75 then
          match scanUnit? bs with
          | none => false
          | some (_, bs) => isSkippable fuel bs
        else (unescape? e).isSome && isSkippable fuel bs
    else !(b < 0x20) && isSkippable fuel bs

/-- The bytes after a string, from after its first quote on. -/
def skipString? (bs : Bytes) : Option Bytes := do
  let (raw, rest) ← splitString? bs []
  if isSkippable (raw.length + 1) raw then return rest else none

/-- The parts of a number: its sign, the digits before the point, those after
it, and the exponent with its sign. -/
structure Numeral where
  negative : Bool
  whole : Bytes
  fraction : Option Bytes
  exponent : Option (Bool × Bytes)

/-- One digit or more. -/
def scanDigits? (bs : Bytes) : Option (Bytes × Bytes) :=
  let p := bs.span isDigit
  if p.1.isEmpty then none else some p

/-- The digits before the point: a zero stands alone. -/
def scanWhole? (bs : Bytes) : Option (Bytes × Bytes) := do
  let (ds, rest) ← scanDigits? bs
  if 1 < ds.length && ds.head? == some 0x30 then none else return (ds, rest)

/-- A point and the digits after it, if there is a point. -/
def scanFraction? : Bytes → Option (Option Bytes × Bytes)
  | 0x2e :: bs => do
    let (ds, rest) ← scanDigits? bs
    return (some ds, rest)
  | bs => some (none, bs)

/-- The sign of an exponent. -/
def scanSign : Bytes → Bool × Bytes
  | 0x2b :: bs => (false, bs)
  | 0x2d :: bs => (true, bs)
  | bs => (false, bs)

/-- A letter for the exponent, its sign and its digits, if there is a letter. -/
def scanExponent? : Bytes → Option (Option (Bool × Bytes) × Bytes)
  | [] => some (none, [])
  | b :: bs =>
    if b == 0x65 || b == 0x45 then do
      let (negative, bs) := scanSign bs
      let (ds, rest) ← scanDigits? bs
      return (some (negative, ds), rest)
    else some (none, b :: bs)

/-- A number. -/
def scanNumeral? (bs : Bytes) : Option (Numeral × Bytes) := do
  let (negative, bs) := match bs with
    | 0x2d :: bs => (true, bs)
    | bs => (false, bs)
  let (whole, bs) ← scanWhole? bs
  let (fraction, bs) ← scanFraction? bs
  let (exponent, bs) ← scanExponent? bs
  return (⟨negative, whole, fraction, exponent⟩, bs)

end Json
end Callwire
