/-
# Reading data from JSON

Bytes are read against a shape, in one pass: the first thing that does not
fit ends the reading. A record is an object of its fields in any order or an
array of them in theirs; entries of other names are skipped with only their
grammar checked. Data of any shape may nest 127 deep. In an object the last
of repeated keys counts, in a record a repeated field is refused. A text in the
place of anything else is told with what was wanted and where it ends.

A reader gives what it took and the bytes left. It tells a place by the bytes
left there.

Key definitions: `Json.refuseText`, `Json.readScalar`, `Json.readItems`,
`Json.skipValue?`, `Json.readRecord`, `Json.readAny`, `Json.read`.
-/
import Callwire.Codec
import Callwire.Datum
import Callwire.Json.Number
import Callwire.Reading
import Callwire.Text.Position

namespace Callwire
namespace Json

open Reading (require)

/-- One byte, after blanks. -/
def readByte (b : UInt8) (bs : Bytes) : Reading Bytes Bytes :=
  require (scanWord? [b] (skipBlanks bs))

/-- A word, after blanks. -/
def readWord (word : String) (bs : Bytes) : Reading Bytes Bytes :=
  require (scanWord? (Bytes.ofText word) (skipBlanks bs))

/-- A string that is text, after blanks. -/
def readText (bs : Bytes) : Reading Bytes (String × Bytes) := do
  let bs ← readByte 0x22 bs
  let (raw, bs) ← require (scanString? bs)
  let s ← require (Bytes.toText? raw)
  return (s, bs)

/-- No string may come next, after blanks: another thing is wanted. -/
def refuseText (wanted : String) (bs : Bytes) : Reading Bytes Unit :=
  match skipBlanks bs with
  | 0x22 :: _ => do
    let (s, rest) ← readText bs
    throw (.strayText s wanted rest)
  | _ => .ok ()

/-- A number, after blanks. -/
def readNumber (bs : Bytes) : Reading Bytes (Number × Bytes) := do
  let (x, bs) ← require (scanNumeral? (skipBlanks bs))
  let n ← require x.value?
  return (n, bs)

/-- A truth value, after blanks. -/
def readBool (bs : Bytes) : Reading Bytes (Bool × Bytes) :=
  let bs := skipBlanks bs
  match scanWord? (Bytes.ofText "true") bs with
  | some rest => .ok (true, rest)
  | none => do
    let rest ← readWord "false" bs
    return (false, rest)

/-- A number as a double. -/
def Number.toDouble : Number → Nat
  | .int n => Binary.Format.double.ofInt n
  | .double bits => bits

/-- A number as a single, rounded once. -/
def Number.toSingle : Number → Nat
  | .int n => Binary.Format.single.ofInt n
  | .double bits => Binary.Format.double.convert .single bits

/-- A value without parts. -/
def readScalar : Scalar → Bytes → Reading Bytes (Datum × Bytes)
  | .unit, bs => do
    refuseText Scalar.unit.wanted bs
    let bs ← readWord "null" bs
    return (.null, bs)
  | .bool, bs => do
    refuseText Scalar.bool.wanted bs
    let (b, bs) ← readBool bs
    return (.bool b, bs)
  | .int w, bs => do
    refuseText (Scalar.int w).wanted bs
    match ← readNumber bs with
    | (.int n, bs) => if w.holds n then return (.int n, bs) else throw .malformed
    | _ => throw .malformed
  | .double, bs => do
    refuseText Scalar.double.wanted bs
    let (n, bs) ← readNumber bs
    return (.double (UInt64.ofNat n.toDouble), bs)
  | .single, bs => do
    refuseText Scalar.single.wanted bs
    let (n, bs) ← readNumber bs
    return (.single (UInt32.ofNat n.toSingle), bs)
  | .text, bs => do
    let (s, bs) ← readText bs
    return (.text s, bs)
  | .codec, bs => do
    let (s, bs) ← readText bs
    if (Codec.ofId? s).isSome then return (.text s, bs) else throw (.unknownCodec s)

/-- Items up to the closing byte, after the opening one; `out` holds those so
far, last first. A comma stands between two items and nowhere else. At most
`fuel` items are read; every item is a byte or more. -/
def readItems {α : Type} (item : Bytes → Reading Bytes (α × Bytes)) (close : UInt8) :
    Nat → Bytes → List α → Reading Bytes (List α × Bytes)
  | 0, _, _ => .error .malformed
  | fuel + 1, bs, out =>
    match scanWord? [close] (skipBlanks bs) with
    | some rest => if out.isEmpty then .ok ([], rest) else .ok (out.reverse, rest)
    | none =>
      match (if out.isEmpty then .ok bs else readByte 0x2c bs) with
      | .error e => .error e
      | .ok bs =>
        match item bs with
        | .error e => .error e
        | .ok (a, bs) => readItems item close fuel bs (a :: out)

/-- Items of one kind between an opening and a closing byte. -/
def readSequence {α : Type} (item : Bytes → Reading Bytes (α × Bytes)) (opening close : UInt8)
    (bs : Bytes) : Reading Bytes (List α × Bytes) := do
  let bs ← readByte opening bs
  readItems item close (bs.length + 1) bs []

/-- Scalars of given kinds, a comma between two of them, without what closes
them; those that are missing at the end are left out. -/
def readTuple : List Scalar → Bool → Bytes → Reading Bytes (List Datum × Bytes)
  | [], _, bs => .ok ([], bs)
  | s :: ss, first, bs =>
    match scanWord? [0x5d] (skipBlanks bs) with
    | some _ => .ok ([], bs)
    | none => do
      let bs ← if first then pure bs else readByte 0x2c bs
      let (d, bs) ← readScalar s bs
      let (ds, bs) ← readTuple ss false bs
      return (d :: ds, bs)

/-- A key of an object and the value that a reader chosen by it gives. -/
def readEntry {α : Type} (value : String → Bytes → Reading Bytes (α × Bytes)) (bs : Bytes) :
    Reading Bytes ((String × α) × Bytes) := do
  let (k, bs) ← readText bs
  let bs ← readByte 0x3a bs
  let (v, bs) ← value k bs
  return ((k, v), bs)

/-- An open array or an open object. -/
inductive Bracket where
  | array
  | object
deriving DecidableEq, Repr

/-- What a skipper expects: a value; an item or the end of an array; an entry
or the end of an object; an entry; what follows a value. -/
inductive Expect where
  | value
  | firstItem
  | firstEntry
  | entry
  | next
deriving DecidableEq, Repr

/-- The bytes after a value with only its grammar checked, nested without
limit. Every second step takes a byte. -/
def skipFrom? : Nat → List Bracket → Expect → Bytes → Option Bytes
  | 0, _, _, _ => none
  | fuel + 1, open_, .value, bs =>
    match skipBlanks bs with
    | 0x22 :: bs => (skipString? bs).bind (skipFrom? fuel open_ .next ·)
    | 0x5b :: bs => skipFrom? fuel (.array :: open_) .firstItem bs
    | 0x7b :: bs => skipFrom? fuel (.object :: open_) .firstEntry bs
    | bs =>
      match scanWord? (Bytes.ofText "null") bs <|> scanWord? (Bytes.ofText "true") bs <|>
          scanWord? (Bytes.ofText "false") bs <|> (scanNumeral? bs).map (·.2) with
      | some bs => skipFrom? fuel open_ .next bs
      | none => none
  | fuel + 1, open_, .firstItem, bs =>
    match scanWord? [0x5d] (skipBlanks bs) with
    | some bs => skipFrom? fuel open_.tail .next bs
    | none => skipFrom? fuel open_ .value bs
  | fuel + 1, open_, .firstEntry, bs =>
    match scanWord? [0x7d] (skipBlanks bs) with
    | some bs => skipFrom? fuel open_.tail .next bs
    | none => skipFrom? fuel open_ .entry bs
  | fuel + 1, open_, .entry, bs =>
    match (scanWord? [0x22] (skipBlanks bs)).bind skipString? with
    | none => none
    | some bs =>
      match scanWord? [0x3a] (skipBlanks bs) with
      | some bs => skipFrom? fuel open_ .value bs
      | none => none
  | _ + 1, [], .next, bs => some bs
  | fuel + 1, .array :: open_, .next, bs =>
    match skipBlanks bs with
    | 0x2c :: bs => skipFrom? fuel (.array :: open_) .value bs
    | 0x5d :: bs => skipFrom? fuel open_ .next bs
    | _ => none
  | fuel + 1, .object :: open_, .next, bs =>
    match skipBlanks bs with
    | 0x2c :: bs => skipFrom? fuel (.object :: open_) .entry bs
    | 0x7d :: bs => skipFrom? fuel open_ .next bs
    | _ => none

/-- More steps than a skipper takes on the bytes. -/
def skipLimit (bs : Bytes) : Nat := 2 * bs.length + 2

/-- The bytes after a value with only its grammar checked. -/
def skipValue? (limit : Nat) (bs : Bytes) : Option Bytes := skipFrom? limit [] .value bs

/-- The entries of a record up to the end of its object; `found` holds the
values so far, one place for each field. No skipped value takes more than `limit`
steps. -/
def readFields (fs : List Field) (limit : Nat) :
    Nat → Bytes → Bool → List (Option Datum) → Reading Bytes (List (Option Datum) × Bytes)
  | 0, _, _, _ => .error .malformed
  | fuel + 1, bs, first, found =>
    match scanWord? [0x7d] (skipBlanks bs) with
    | some rest => .ok (found, rest)
    | none => do
      let bs ← if first then pure bs else readByte 0x2c bs
      let (k, bs) ← readText bs
      match Field.find? k fs with
      | none =>
        let bs ← readByte 0x3a bs
        let bs ← require (skipValue? limit bs)
        readFields fs limit fuel bs false found
      | some (i, kind) =>
        if (found.getD i none).isSome then throw .malformed
        else
          let bs ← readByte 0x3a bs
          let (d, bs) ← readScalar kind bs
          readFields fs limit fuel bs false (found.set i (some d))

/-- A record, from an object or from an array. -/
def readRecord (fs : List Field) (bs : Bytes) : Reading Bytes (Datum × Bytes) := do
  match skipBlanks bs with
  | 0x7b :: bs =>
    let (found, bs) ←
      readFields fs (skipLimit bs) (bs.length + 1) bs true (fs.map fun _ => none)
    let r ← require (Field.assemble? fs found)
    return (Datum.record r, bs)
  | 0x5b :: bs =>
    let (ds, bs) ← readTuple (fs.map (·.kind)) true bs
    let r ← require (Field.assemble? fs (ds.map some))
    let bs ← readByte 0x5d bs
    return (Datum.record r, bs)
  | _ => throw .malformed

/-- Data of any shape; arrays and objects have less than `limit` items and nest to
one less than the given depth. -/
def readAny (limit : Nat) : Nat → Bytes → Reading Bytes (Datum × Bytes)
  | 0, _ => .error .malformed
  | depth + 1, bs =>
    match skipBlanks bs with
    | 0x5b :: rest =>
      if depth = 0 then .error .malformed
      else do
        let (ds, rest) ← readItems (readAny limit depth) 0x5d limit rest []
        return (.list ds, rest)
    | 0x7b :: rest =>
      if depth = 0 then .error .malformed
      else do
        let (es, rest) ← readItems (readEntry fun _ => readAny limit depth) 0x7d limit rest []
        return (Datum.dictionary (Datum.collect es), rest)
    | 0x22 :: rest => do
      let (raw, rest) ← require (scanString? rest)
      let s ← require (Bytes.toText? raw)
      return (.text s, rest)
    | 0x6e :: rest => do
      let rest ← require (scanWord? (Bytes.ofText "ull") rest)
      return (.null, rest)
    | 0x74 :: rest => do
      let rest ← require (scanWord? (Bytes.ofText "rue") rest)
      return (.bool true, rest)
    | 0x66 :: rest => do
      let rest ← require (scanWord? (Bytes.ofText "alse") rest)
      return (.bool false, rest)
    | rest => do
      match ← readNumber rest with
      | (.int n, rest) => return (.int n, rest)
      | (.double bits, rest) => return (.double (UInt64.ofNat bits), rest)

/-- A value of a shape at the front of the bytes. -/
def readShape : Shape → Bytes → Reading Bytes (Datum × Bytes)
  | .scalar s, bs => readScalar s bs
  | .optional s, bs =>
    match skipBlanks bs with
    | 0x6e :: _ => do
      let rest ← readWord "null" bs
      return (.null, rest)
    | _ => readScalar s bs
  | .list s, bs => do
    refuseText (Shape.list s).wanted bs
    let (ds, rest) ← readSequence (readScalar s) 0x5b 0x5d bs
    return (.list ds, rest)
  | .tuple ss, bs => do
    refuseText (Shape.tuple ss).wanted bs
    let bs ← readByte 0x5b bs
    let (ds, bs) ← readTuple ss true bs
    if ds.length = ss.length then
      let bs ← readByte 0x5d bs
      return (.list ds, bs)
    else throw .malformed
  | .record name fs, bs => do
    refuseText (Shape.record name fs).wanted bs
    readRecord fs bs
  | .dictionary s, bs => do
    refuseText (Shape.dictionary s).wanted bs
    let (es, rest) ← readSequence (readEntry fun _ => readScalar s) 0x7b 0x7d bs
    return (Datum.dictionary (Datum.collect es), rest)
  | .any, bs => readAny (bs.length + 1) 128 bs

/-- The place in the bytes of a text where the rest of them is left. -/
def placeOf (bs rest : Bytes) : Text.Position := .after (bs.take (bs.length - rest.length))

/-- The value of a shape that bytes hold, with nothing but blanks around it. -/
def read (shape : Shape) (bs : Bytes) : Reading Text.Position Datum :=
  match readShape shape bs with
  | .error why => .error (why.map (placeOf bs))
  | .ok (d, rest) => if (skipBlanks rest).isEmpty then .ok d else .error .malformed

end Json
end Callwire
