/-
# Reading data from MessagePack

Bytes are read against a shape, in one pass, and bytes after the value are
left alone. Every form of an integer is read where its value fits; a binary
reads as a text, or as small integers where a list, a tuple or the fields of a
record in order are asked for. A record is a map of its fields, named by text,
by binary or by place, or a list of them in order; entries of other names are
skipped. Lists, maps and extensions nest 1023 deep. In a map the last of
repeated keys counts, in a record a repeated field is refused. A text in the
place of a unit, list, tuple, record or map is told with what was wanted.

A reader gives what it took and the bytes left.

Key definitions: `MessagePack.Head`, `MessagePack.readHead?`,
`MessagePack.refuseText`, `MessagePack.readScalar`, `MessagePack.skip?`,
`MessagePack.readOctets`, `MessagePack.readRecord`, `MessagePack.readAny`,
`MessagePack.read`.
-/
import Callwire.Bytes
import Callwire.Codec
import Callwire.Datum
import Callwire.Reading
import Callwire.Binary.Format

namespace Callwire
namespace MessagePack

open Reading (require)

/-- What the first byte and the word after it announce: a whole value, or how
much of one follows. -/
inductive Head where
  | null
  | bool (b : Bool)
  | natural (n : Nat)
  | integer (n : Int)
  | double (bits : Nat)
  | single (bits : Nat)
  | string (len : Nat)
  | binary (len : Nat)
  | list (len : Nat)
  | map (len : Nat)
  | extension (len : Nat)
deriving DecidableEq, Repr

/-- A head made of the next `k` bytes. -/
def headOf (k : Nat) (make : Bytes → Head) (bs : Bytes) : Option (Head × Bytes) :=
  (Bytes.split? k bs).map fun p => (make p.1, p.2)

/-- The head of the next value. -/
def readHead? : Bytes → Option (Head × Bytes)
  | [] => none
  | b :: bs =>
    let n := b.toNat
    let count (k : Nat) (make : Nat → Head) := headOf k (fun w => make (Bytes.toNat w)) bs
    if n < 0x80 then some (.natural n, bs)
    else if n < 0x90 then some (.map (n - 0x80), bs)
    else if n < 0xa0 then some (.list (n - 0x90), bs)
    else if n < 0xc0 then some (.string (n - 0xa0), bs)
    else if 0xe0 ≤ n then some (.integer (n - 0x100), bs)
    else match n with
      | 0xc0 => some (.null, bs)
      | 0xc2 => some (.bool false, bs)
      | 0xc3 => some (.bool true, bs)
      | 0xc4 => count 1 .binary
      | 0xc5 => count 2 .binary
      | 0xc6 => count 4 .binary
      | 0xc7 => count 1 .extension
      | 0xc8 => count 2 .extension
      | 0xc9 => count 4 .extension
      | 0xca => count 4 .single
      | 0xcb => count 8 .double
      | 0xcc => count 1 .natural
      | 0xcd => count 2 .natural
      | 0xce => count 4 .natural
      | 0xcf => count 8 .natural
      | 0xd0 => headOf 1 (fun w => .integer (Bytes.toInt w)) bs
      | 0xd1 => headOf 2 (fun w => .integer (Bytes.toInt w)) bs
      | 0xd2 => headOf 4 (fun w => .integer (Bytes.toInt w)) bs
      | 0xd3 => headOf 8 (fun w => .integer (Bytes.toInt w)) bs
      | 0xd4 => some (.extension 1, bs)
      | 0xd5 => some (.extension 2, bs)
      | 0xd6 => some (.extension 4, bs)
      | 0xd7 => some (.extension 8, bs)
      | 0xd8 => some (.extension 16, bs)
      | 0xd9 => count 1 .string
      | 0xda => count 2 .string
      | 0xdb => count 4 .string
      | 0xdc => count 2 .list
      | 0xdd => count 4 .list
      | 0xde => count 2 .map
      | 0xdf => count 4 .map
      | _ => none

/-- The integer that a head is, in any form. -/
def Head.int? : Head → Option Int
  | .natural n => some n
  | .integer n => some n
  | _ => none

/-- The bits of the double that a head is or rounds to. -/
def Head.double? : Head → Option Nat
  | .natural n => some (Binary.Format.double.ofInt n)
  | .integer n => some (Binary.Format.double.ofInt n)
  | .double bits => some bits
  | .single bits => some (Binary.Format.single.convert .double bits)
  | _ => none

/-- The bits of the single that a head is or rounds to. -/
def Head.single? : Head → Option Nat
  | .natural n => some (Binary.Format.single.ofInt n)
  | .integer n => some (Binary.Format.single.ofInt n)
  | .single bits => some bits
  | .double bits => some (Binary.Format.double.convert .single bits)
  | _ => none

/-- The text that follows the head of a string or of a binary. -/
def readText? : Head → Bytes → Option (String × Bytes)
  | .string len, bs | .binary len, bs => do
    let (raw, bs) ← Bytes.split? len bs
    let s ← Bytes.toText? raw
    return (s, bs)
  | _, _ => none

/-- The head may not be that of a string: another thing is wanted. -/
def refuseText (wanted : String) (h : Head) (bs : Bytes) : Reading Unit Unit :=
  match h with
  | .string len => do
    let (s, _) ← require (readText? (.string len) bs)
    throw (.strayText s wanted ())
  | _ => .ok ()

/-- The value without parts that a head announces. A number or a truth value is
refused for its head alone. -/
def ofHead (s : Scalar) (h : Head) (bs : Bytes) : Reading Unit (Datum × Bytes) :=
  match s with
  | .unit => do
    refuseText s.wanted h bs
    if h = .null then return (.null, bs) else throw .malformed
  | .bool => match h with
    | .bool b => .ok (.bool b, bs)
    | _ => .error .malformed
  | .int w => do
    let n ← require h.int?
    if w.holds n then return (.int n, bs) else throw .malformed
  | .double => do
    let bits ← require h.double?
    return (.double (UInt64.ofNat bits), bs)
  | .single => do
    let bits ← require h.single?
    return (.single (UInt32.ofNat bits), bs)
  | .text => do
    let (s, bs) ← require (readText? h bs)
    return (.text s, bs)
  | .codec => do
    let (s, bs) ← require (readText? h bs)
    if (Codec.ofId? s).isSome then return (.text s, bs) else throw (.unknownCodec s)

/-- A value without parts. -/
def readScalar (s : Scalar) (bs : Bytes) : Reading Unit (Datum × Bytes) := do
  let (h, bs) ← require (readHead? bs)
  ofHead s h bs

/-- `n` items one after the other; `out` holds those so far, last first. -/
def readTimes {α : Type} (item : Bytes → Reading Unit (α × Bytes)) :
    Nat → Bytes → List α → Reading Unit (List α × Bytes)
  | 0, bs, out => .ok (out.reverse, bs)
  | n + 1, bs, out =>
    match item bs with
    | .error why => .error why
    | .ok (a, bs) => readTimes item n bs (a :: out)

/-- The bytes after `n` skipped values. -/
def skipTimes? (skip : Bytes → Option Bytes) : Nat → Bytes → Option Bytes
  | 0, bs => some bs
  | n + 1, bs =>
    match skip bs with
    | none => none
    | some bs => skipTimes? skip n bs

/-- The bytes after a value, whatever it is; lists, maps and extensions nest to
one less than the given depth. -/
def skip? : Nat → Bytes → Option Bytes
  | 0, _ => none
  | depth + 1, bs =>
    match readHead? bs with
    | none => none
    | some (.string len, bs) | some (.binary len, bs) => (Bytes.split? len bs).map (·.2)
    | some (.extension len, bs) =>
      if depth = 0 then none else (Bytes.split? (len + 1) bs).map (·.2)
    | some (.list len, bs) => if depth = 0 then none else skipTimes? (skip? depth) len bs
    | some (.map len, bs) => if depth = 0 then none else skipTimes? (skip? depth) (2 * len) bs
    | some (_, bs) => some bs

/-- Scalars of given kinds, one after the other. -/
def readTuple : List Scalar → Bytes → Reading Unit (List Datum × Bytes)
  | [], bs => .ok ([], bs)
  | s :: ss, bs => do
    let (d, bs) ← readScalar s bs
    let (ds, bs) ← readTuple ss bs
    return (d :: ds, bs)

/-- A byte of a binary, as a value without parts. -/
def readOctet (s : Scalar) (b : UInt8) : Reading Unit Datum :=
  (ofHead s (.natural b.toNat) []).map (·.1)

/-- The bytes of a binary as scalars of given kinds, as far as there are both;
bytes beyond the last kind are not looked at. -/
def readOctets (ss : List Scalar) (raw : Bytes) : Reading Unit (List Datum) :=
  (ss.zip raw).mapM fun p => readOctet p.1 p.2

/-- The field of a record that a key names: its place and kind, or nothing
inside for a key that no field has. -/
def readKey? (fs : List Field) (bs : Bytes) : Option (Option (Nat × Scalar) × Bytes) := do
  let (h, bs) ← readHead? bs
  match h with
  | .natural i => return ((fs[i]?).map fun f => (i, f.kind), bs)
  | .string len | .binary len =>
    let (raw, bs) ← Bytes.split? len bs
    return ((Bytes.toText? raw).bind fun s => Field.find? s fs, bs)
  | _ => none

/-- The deepest nesting, and one. -/
def depthLimit : Nat := 1024

/-- `n` entries of a record; `found` holds the values so far, one place for
each field. -/
def readFields (fs : List Field) :
    Nat → Bytes → List (Option Datum) → Reading Unit (List (Option Datum) × Bytes)
  | 0, bs, found => .ok (found, bs)
  | n + 1, bs, found =>
    match readKey? fs bs with
    | none => .error .malformed
    | some (none, bs) =>
      match skip? (depthLimit - 1) bs with
      | none => .error .malformed
      | some bs => readFields fs n bs found
    | some (some (i, kind), bs) =>
      if (found.getD i none).isSome then .error .malformed
      else
        match readScalar kind bs with
        | .error why => .error why
        | .ok (d, bs) => readFields fs n bs (found.set i (some d))

/-- A record that a head announces, from a map, from a list or from a binary. -/
def readRecord (fs : List Field) (h : Head) (bs : Bytes) : Reading Unit (Datum × Bytes) :=
  match h with
  | .map len => do
    let (found, bs) ← readFields fs len bs (fs.map fun _ => none)
    let r ← require (Field.assemble? fs found)
    return (Datum.record r, bs)
  | .list len => do
    let (ds, bs) ← readTuple ((fs.take len).map (·.kind)) bs
    let r ← require (Field.assemble? fs (ds.map some))
    if len ≤ fs.length then return (Datum.record r, bs) else throw .malformed
  | .binary len => do
    let (raw, bs) ← require (Bytes.split? len bs)
    let ds ← readOctets (fs.map (·.kind)) raw
    let r ← require (Field.assemble? fs (ds.map some))
    return (Datum.record r, bs)
  | _ => .error .malformed

/-- A key and the value after it. -/
def readPair (key? : Bytes → Option (String × Bytes))
    (value : Bytes → Reading Unit (Datum × Bytes)) (bs : Bytes) :
    Reading Unit ((String × Datum) × Bytes) := do
  let (k, bs) ← require (key? bs)
  let (v, bs) ← value bs
  return ((k, v), bs)

/-- The first key of data of any shape: a string and nothing else. -/
def readStringKey? (bs : Bytes) : Option (String × Bytes) := do
  match ← readHead? bs with
  | (.string len, bs) => readText? (.string len) bs
  | _ => none

/-- Any other key: a string or a binary. -/
def readTextKey? (bs : Bytes) : Option (String × Bytes) := do
  let (h, bs) ← readHead? bs
  readText? h bs

/-- The entries of a map of any shape. Its first key tells that it is one and is
a string. -/
def readEntries (value : Bytes → Reading Unit (Datum × Bytes)) :
    Nat → Bytes → Reading Unit (List (String × Datum) × Bytes)
  | 0, bs => .ok ([], bs)
  | n + 1, bs => do
    let (e, bs) ← readPair readStringKey? value bs
    readTimes (readPair readTextKey? value) n bs [e]

/-- A double of data of any shape; what is infinite or no number is null. -/
def finite (bits : Nat) : Datum :=
  if Binary.Format.double.isFinite bits then .double (UInt64.ofNat bits) else .null

/-- Data of any shape; lists and maps nest to one less than the given depth. -/
def readAny : Nat → Bytes → Reading Unit (Datum × Bytes)
  | 0, _ => .error .malformed
  | depth + 1, bs =>
    match readHead? bs with
    | some (.null, bs) => .ok (.null, bs)
    | some (.bool b, bs) => .ok (.bool b, bs)
    | some (.natural n, bs) => .ok (.int n, bs)
    | some (.integer n, bs) => .ok (.int n, bs)
    | some (.double bits, bs) => .ok (finite bits, bs)
    | some (.single bits, bs) => .ok (finite (Binary.Format.single.convert .double bits), bs)
    | some (.string len, bs) => do
      let (s, bs) ← require (readText? (.string len) bs)
      return (.text s, bs)
    | some (.list len, bs) =>
      if depth = 0 then .error .malformed
      else do
        let (ds, bs) ← readTimes (readAny depth) len bs []
        return (.list ds, bs)
    | some (.map len, bs) =>
      if depth = 0 then .error .malformed
      else do
        let (es, bs) ← readEntries (readAny depth) len bs
        return (Datum.dictionary (Datum.collect es), bs)
    | _ => .error .malformed

/-- A value with parts that a head announces. -/
def ofHeadParts (shape : Shape) (h : Head) (bs : Bytes) : Reading Unit (Datum × Bytes) :=
  match shape, h with
  | .list s, .list len => do
    let (ds, bs) ← readTimes (readScalar s) len bs []
    return (.list ds, bs)
  | .list s, .binary len => do
    let (raw, bs) ← require (Bytes.split? len bs)
    let ds ← raw.mapM (readOctet s)
    return (.list ds, bs)
  | .tuple ss, .list len => do
    let (ds, bs) ← readTuple (ss.take len) bs
    if len = ss.length then return (.list ds, bs) else throw .malformed
  | .tuple ss, .binary len => do
    let (raw, bs) ← require (Bytes.split? len bs)
    let ds ← readOctets ss raw
    if ds.length = ss.length then return (.list ds, bs) else throw .malformed
  | .record _ fs, h => readRecord fs h bs
  | .dictionary s, .map len => do
    let (es, bs) ← readTimes (readPair readTextKey? (readScalar s)) len bs []
    return (Datum.dictionary (Datum.collect es), bs)
  | _, _ => .error .malformed

/-- A value of a shape at the front of the bytes. -/
def readShape (shape : Shape) (bs : Bytes) : Reading Unit (Datum × Bytes) :=
  match shape with
  | .scalar s => readScalar s bs
  | .optional s => do
    let (h, rest) ← require (readHead? bs)
    if h = .null then return (.null, rest) else readScalar s bs
  | .any => readAny depthLimit bs
  | shape => do
    let (h, bs) ← require (readHead? bs)
    refuseText shape.wanted h bs
    ofHeadParts shape h bs

/-- The value of a shape at the front of the bytes, whatever follows it. -/
def read (shape : Shape) (bs : Bytes) : Reading Unit Datum := (readShape shape bs).map (·.1)

end MessagePack
end Callwire
