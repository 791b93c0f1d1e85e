/-
# Data that calls carry, and the shapes they are read by

A datum is what a codec writes: it knows nothing of the type it came from. A
shape says how bytes are read: which scalars, in which arrangement. Arguments
and replies are scalars, options, lists, tuples, records and dictionaries of
scalars, or data of any nesting whose shape only the bytes tell. A record has a
name; its fields have names and an order, and a field may have a value of its
own for when it is missing.

Key definitions: `Datum`, `Width`, `Scalar`, `Field`, `Shape`, `Shape.wanted`,
`Datum.put`.
Key theorems: `Datum.lookup_put`.
-/
namespace Callwire

/-- A value on its way to or from the wire. Floating-point numbers are their bits. -/
inductive Datum where
  | null
  | bool (b : Bool)
  | int (n : Int)
  | double (bits : UInt64)
  | single (bits : UInt32)
  | text (s : String)
  | list (items : List Datum)
  | map (entries : List (Datum × Datum))
deriving Inhabited, Repr, BEq

namespace Datum

/-- A record: its fields by name, in order. -/
def record (fields : List (String × Datum)) : Datum := .map (fields.map fun f => (.text f.1, f.2))

/-- A list of integers. -/
def ints (ns : List Int) : Datum := .list (ns.map .int)

/-- Entries in the order of their keys, with `key` set to `value`. -/
def put (key : String) (value : Datum) : List (String × Datum) → List (String × Datum)
  | [] => [(key, value)]
  | (k, v) :: rest =>
    if key = k then (key, value) :: rest
    else if key < k then (key, value) :: (k, v) :: rest
    else (k, v) :: put key value rest

theorem lookup_put (key k : String) (value : Datum) (es : List (String × Datum)) :
    (put key value es).lookup k = if k = key then some value else es.lookup k := by
  have hit : ∀ v (rest : List (String × Datum)), List.lookup k ((key, v) :: rest) =
      if k = key then some v else rest.lookup k := by
    intro v rest
    rw [List.lookup_cons]
    cases h : k == key
    · simp [beq_eq_false_iff_ne.mp h]
    · simp [eq_of_beq h]
  induction es with
  | nil => exact hit value []
  | cons e es ih =>
    obtain ⟨a, v⟩ := e
    rw [put]
    split
    · rename_i h
      subst h
      rw [hit, hit]
      split <;> rfl
    · rename_i h
      split
      · rw [hit]
      · rw [List.lookup_cons, List.lookup_cons, ih]
        cases hk : k == a
        · rfl
        · exact (if_neg fun e => h (e.symm.trans (eq_of_beq hk))).symm

/-- Entries in the order of their keys, the last of repeated keys counting. -/
def collect (es : List (String × Datum)) : List (String × Datum) :=
  es.foldl (fun out e => put e.1 e.2 out) []

/-- The entries of a dictionary, as a datum. -/
def dictionary (es : List (String × Datum)) : Datum := record es

end Datum

/-- The fixed-width integers of arguments and replies. A size has 64 bits. -/
inductive Width where
  | u8 | i8 | u32 | i32 | u64 | i64 | usize
deriving DecidableEq, Repr

namespace Width

/-- The least integer of the width. -/
def least : Width → Int
  | u8 | u32 | u64 | usize => 0
  | i8 => -0x80
  | i32 => -0x80000000
  | i64 => -0x8000000000000000

/-- The greatest integer of the width. -/
def greatest : Width → Int
  | u8 => 0xff
  | i8 => 0x7f
  | u32 => 0xffffffff
  | i32 => 0x7fffffff
  | u64 | usize => 0xffffffffffffffff
  | i64 => 0x7fffffffffffffff

/-- The integer has the width. -/
def holds (w : Width) (n : Int) : Bool := w.least ≤ n && n ≤ w.greatest

/-- The name of the width. -/
def name : Width → String
  | u8 => "u8"
  | i8 => "i8"
  | u32 => "u32"
  | i32 => "i32"
  | u64 => "u64"
  | i64 => "i64"
  | usize => "usize"

end Width

/-- A value without parts. -/
inductive Scalar where
  | unit
  | bool
  | int (w : Width)
  | double
  | single
  | text
  | codec
deriving DecidableEq, Repr

/-- What is wanted where the scalar is, in words. -/
def Scalar.wanted : Scalar → String
  | unit => "unit"
  | bool => "a boolean"
  | int w => w.name
  | double => "f64"
  | single => "f32"
  | text | codec => "a string"

/-- A field of a record, and its value for when it is missing. -/
structure Field where
  name : String
  kind : Scalar
  default : Option Datum := none

/-- How the bytes of an argument or a reply are read. -/
inductive Shape where
  | scalar (s : Scalar)
  | optional (s : Scalar)
  | list (s : Scalar)
  | tuple (ss : List Scalar)
  | record (name : String) (fs : List Field)
  | dictionary (s : Scalar)
  | any

/-- What is wanted where the shape is, in words. -/
def Shape.wanted : Shape → String
  | scalar s | optional s => s.wanted
  | list _ => "a sequence"
  | tuple ss => s!"a tuple of size {ss.length}"
  | record name _ => "struct " ++ name
  | dictionary _ => "a map"
  | any => "any valid JSON value"

namespace Field

/-- The place of the field of a name, and its kind. -/
def find? (name : String) : List Field → Option (Nat × Scalar)
  | [] => none
  | f :: fs =>
    if f.name = name then some (0, f.kind)
    else (find? name fs).map fun p => (p.1 + 1, p.2)

/-- The record of the values found for the fields, in their order; a missing
field takes its own value, and without one there is no record. -/
def assemble? : List Field → List (Option Datum) → Option (List (String × Datum))
  | [], _ => some []
  | f :: fs, vs =>
    match (vs.head?.join <|> f.default), assemble? fs vs.tail with
    | some v, some rest => some ((f.name, v) :: rest)
    | _, _ => none

end Field
end Callwire
