/-
# Records that are written field by field

What both codecs have to say about a record before any byte: a field is found
under its name and nowhere else, and a place that was empty holds its value
once the field was read. A record is given here by its fields, each with its
value.

Key definitions: `Scalar.Takes`, `Entries.fields`, `Entries.datum`, `Entries.found`.
Key theorems: `Entries.find?_eq`, `Entries.set_found`, `Entries.assemble?_eq`.
-/
import Mathlib
import Callwire.Codec
import Callwire.Datum

namespace Callwire

/-- The datum is a value of the kind, as it stands in a header or in options:
a text, the name of a codec, or an integer that is not negative. -/
def Scalar.Takes : Scalar → Datum → Prop
  | .text, .text _ => True
  | .codec, .text s => (Codec.ofId? s).isSome
  | .int w, .int n => w.holds n ∧ 0 ≤ n ∧ n < 2 ^ 64
  | _, _ => False

theorem Scalar.takes_word {n : Nat} (h : n < 2 ^ 64) : (Scalar.int .u64).Takes (.int n) := by
  have hg : Width.u64.greatest = 18446744073709551615 := by decide
  have hl : Width.u64.least = 0 := rfl
  refine ⟨?_, by omega, by omega⟩
  simp only [Width.holds, hl, hg, Bool.and_eq_true, decide_eq_true_eq]
  omega

/-- The fields of a record, in order, each with its value. -/
abbrev Entries := List (Field × Datum)

namespace Entries

/-- The fields alone. -/
def fields (es : Entries) : List Field := es.map (·.1)

/-- The names and the values. -/
def named (es : Entries) : List (String × Datum) := es.map fun e => (e.1.name, e.2)

/-- The record. -/
def datum (es : Entries) : Datum := Datum.record es.named

/-- No two fields have one name. -/
def Distinct (es : Entries) : Prop := (es.map (·.1.name)).Nodup

/-- What a reader has found when it has read the first of two runs of fields. -/
def found (done left : Entries) : List (Option Datum) :=
  done.map (fun e => some e.2) ++ left.map fun _ => none

theorem found_nil (es : Entries) : found [] es = es.fields.map fun _ => none := by
  rw [found, fields, List.map_map]
  rfl

theorem Distinct.not_mem {done left : Entries} {e : Field × Datum}
    (h : Distinct (done ++ e :: left)) : ∀ x ∈ done, x.1.name ≠ e.1.name := by
  intro x hx he
  simp only [Distinct, List.map_append, List.map_cons, List.nodup_append] at h
  exact h.2.2 _ (List.mem_map.mpr ⟨x, hx, rfl⟩) _ List.mem_cons_self he

theorem find?_eq {done left : Entries} {e : Field × Datum}
    (h : Distinct (done ++ e :: left)) :
    Field.find? e.1.name (fields (done ++ e :: left)) = some (done.length, e.1.kind) := by
  have hne := h.not_mem
  clear h
  induction done with
  | nil => simp [fields, Field.find?]
  | cons x xs ih =>
    have hx : x.1.name ≠ e.1.name := hne x List.mem_cons_self
    have ih := ih fun y hy => hne y (List.mem_cons_of_mem _ hy)
    simp only [fields, List.cons_append, List.map_cons] at ih ⊢
    rw [Field.find?, if_neg hx, ih]
    rfl

theorem getD_found (done left : Entries) (e : Field × Datum) :
    (found done (e :: left)).getD done.length none = none := by
  simp [found, List.getD_eq_getElem?_getD]

/-- The value of the next field fills its place. -/
theorem set_found (done left : Entries) (e : Field × Datum) :
    (found done (e :: left)).set done.length (some e.2) = found (done ++ [e]) left := by
  have hl : (done.map fun x => some x.2).length = done.length := by simp
  simp only [found, List.map_cons, List.map_append, List.map_nil, List.append_assoc,
    List.cons_append, List.nil_append]
  rw [List.set_append_right _ _ (by omega), hl, Nat.sub_self, List.set_cons_zero]

theorem assemble?_eq (es : Entries) : Field.assemble? es.fields (found es []) = some es.named := by
  induction es with
  | nil => rfl
  | cons e es ih =>
    simp only [found, fields, named, List.map_nil, List.append_nil, List.map_cons] at ih ⊢
    rw [Field.assemble?]
    simp [ih]

end Entries
end Callwire
