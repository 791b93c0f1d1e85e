/-
# What is read from JSON is of its kind

A reader of a shape gives no data but those of the shape. An integer has the width that
was asked for, and the name of a codec is the name of one. A record has all of its
fields in their order, however they stood in the bytes and whatever stood between them,
and each has a value of its kind, or the value it has when it is missing. So what was
read can be written again.

Key definitions: `Scalar.Admits`, `Field.Filled`.
Key theorems: `Json.readScalar_admits`, `Json.readFields_admits`, `Json.readTuple_admits`,
`Json.read_record`.
-/
import Callwire.Json.Reader
import Callwire.Proofs.Codec.Record

namespace Callwire

open Reading (require)

/-- The datum is of the kind. -/
def Scalar.Admits : Scalar → Datum → Prop
  | .unit, .null | .bool, .bool _ | .double, .double _ | .single, .single _ => True
  | .text, .text _ => True
  | .int w, .int n => w.holds n
  | .codec, .text s => (Codec.ofId? s).isSome
  | _, _ => False

namespace Scalar

theorem exists_of_admits_int {w : Width} {d : Datum} (h : (int w).Admits d) :
    ∃ n, d = .int n ∧ w.holds n := by
  cases d with
  | int n => exact ⟨n, rfl, h⟩
  | _ => exact h.elim

theorem exists_of_admits_codec {d : Datum} (h : codec.Admits d) :
    ∃ s, d = .text s ∧ (Codec.ofId? s).isSome := by
  cases d with
  | text s => exact ⟨s, rfl, h⟩
  | _ => exact h.elim

end Scalar

namespace Field

/-- The field is there under its name, with a value of its kind or with its own. -/
def Filled (f : Field) (e : String × Datum) : Prop :=
  e.1 = f.name ∧ (f.kind.Admits e.2 ∨ f.default = some e.2)

theorem Filled.admits {f : Field} {e : String × Datum} (h : f.Filled e) (hd : f.default = none) :
    f.kind.Admits e.2 := by
  obtain ⟨-, h | h⟩ := h
  · exact h
  · rw [hd] at h
    cases h

/-- Every value that was found is of the kind of its field. -/
def Found (fs : List Field) (found : List (Option Datum)) : Prop :=
  ∀ (i : Nat) (f : Field) (d : Datum), fs[i]? = some f → found[i]? = some (some d) → f.kind.Admits d

theorem found_none (fs : List Field) : Found fs (fs.map fun _ => none) := by
  intro i f d hf hd
  rw [List.getElem?_map, hf] at hd
  cases hd

theorem Found.set {fs : List Field} {found : List (Option Datum)} {i : Nat} {k : Scalar} {d : Datum}
    (h : Found fs found) (hk : ∀ f : Field, fs[i]? = some f → f.kind = k) (hd : k.Admits d) :
    Found fs (found.set i (some d)) := by
  intro m f x hf hx
  by_cases hm : i = m
  · subst hm
    obtain ⟨y, -, he⟩ := Option.map_eq_some_iff.mp ((List.getElem?_set_self' ..).symm.trans hx)
    cases he
    rw [hk f hf]
    exact hd
  · rw [List.getElem?_set_ne hm] at hx
    exact h m f x hf hx

theorem kind_of_find? {name : String} {fs : List Field} {i : Nat} {k : Scalar}
    (h : find? name fs = some (i, k)) : ∀ f : Field, fs[i]? = some f → f.kind = k := by
  induction fs generalizing i with
  | nil => cases h
  | cons g gs ih =>
    rw [find?] at h
    split at h
    · cases h
      intro f hf
      cases hf
      rfl
    · obtain ⟨⟨j, k'⟩, hj, he⟩ := Option.map_eq_some_iff.mp h
      cases he
      exact ih hj

theorem filled_of_assemble? {fs : List Field} {found : List (Option Datum)}
    {r : List (String × Datum)} (hf : Found fs found) (h : assemble? fs found = some r) :
    List.Forall₂ Filled fs r := by
  induction fs generalizing found r with
  | nil =>
    cases h
    exact .nil
  | cons f fs ih =>
    rw [assemble?] at h
    split at h
    · rename_i v rest hv hrest
      cases h
      refine .cons ⟨rfl, ?_⟩ (ih (fun i g d hg hd => hf (i + 1) g d hg ?_) hrest)
      · cases hh : found.head?.join with
        | none =>
          rw [hh] at hv
          exact .inr hv
        | some d =>
          rw [hh] at hv
          obtain rfl := Option.some.inj hv
          refine .inl (hf 0 f d rfl ?_)
          rw [← List.head?_eq_getElem?]
          exact Option.join_eq_some_iff.mp hh
      · rwa [List.getElem?_tail] at hd
    · cases h

end Field

/-! ### Readers -/

theorem Reading.bind_eq_ok_iff {π α β : Type} {x : Reading π α} {f : α → Reading π β} {b : β} :
    x >>= f = .ok b ↔ ∃ a, x = .ok a ∧ f a = .ok b := by
  cases x <;> simp [bind, Except.bind]

/-- What comes next does not depend on which of two readers went before. -/
theorem Reading.ite_bind {π α β : Type} (p : Prop) [Decidable p] (x y : Reading π α)
    (f : α → Reading π β) : (if p then x >>= f else y >>= f) = (if p then x else y) >>= f := by
  split <;> rfl

theorem Reading.require_eq_ok_iff {π α : Type} {o : Option α} {a : α} :
    (require o : Reading π α) = .ok a ↔ o = some a := by
  cases o <;> simp [require]

namespace Json

/-- **A scalar that was read is of its kind.** -/
theorem readScalar_admits {k : Scalar} {bs rest : Bytes} {d : Datum}
    (h : readScalar k bs = .ok (d, rest)) : k.Admits d := by
  cases k with
  | unit =>
    simp only [readScalar, Reading.bind_eq_ok_iff] at h
    obtain ⟨-, -, _, -, he⟩ := h
    cases he
    trivial
  | bool =>
    simp only [readScalar, Reading.bind_eq_ok_iff] at h
    obtain ⟨-, -, ⟨b, _⟩, -, he⟩ := h
    cases he
    trivial
  | double | single =>
    simp only [readScalar, Reading.bind_eq_ok_iff] at h
    obtain ⟨-, -, ⟨n, _⟩, -, he⟩ := h
    cases he
    trivial
  | text =>
    simp only [readScalar, Reading.bind_eq_ok_iff] at h
    obtain ⟨⟨s, _⟩, -, he⟩ := h
    cases he
    trivial
  | int w =>
    simp only [readScalar, Reading.bind_eq_ok_iff] at h
    obtain ⟨-, -, ⟨n, _⟩, -, he⟩ := h
    cases n with
    | int n =>
      simp only at he
      split at he
      · rename_i hw
        cases he
        exact hw
      · cases he
    | double _ => cases he
  | codec =>
    simp only [readScalar, Reading.bind_eq_ok_iff] at h
    obtain ⟨⟨s, _⟩, -, he⟩ := h
    simp only at he
    split at he
    · rename_i hs
      cases he
      exact hs
    · cases he

/-- **What is found in an object is of the kinds of its fields.** -/
theorem readFields_admits {fs : List Field} {limit fuel : Nat} {bs rest : Bytes} {first : Bool}
    {found found' : List (Option Datum)} (h : readFields fs limit fuel bs first found = .ok (found', rest))
    (hf : Field.Found fs found) : Field.Found fs found' := by
  induction fuel generalizing bs first found with
  | zero => cases h
  | succ fuel ih =>
    rw [readFields] at h
    split at h
    · cases h
      exact hf
    · simp only [Reading.ite_bind, Reading.bind_eq_ok_iff] at h
      obtain ⟨_, -, ⟨key, _⟩, -, h⟩ := h
      simp only at h
      split at h
      · simp only [Reading.bind_eq_ok_iff] at h
        obtain ⟨_, -, _, -, h⟩ := h
        exact ih h hf
      · rename_i i kind hfind
        split at h
        · cases h
        · simp only [Reading.bind_eq_ok_iff] at h
          obtain ⟨_, -, ⟨d, _⟩, hd, h⟩ := h
          exact ih h (hf.set (Field.kind_of_find? hfind) (readScalar_admits hd))

/-- **What stands in an array is of the kinds of its places.** -/
theorem readTuple_admits {ks : List Scalar} {bs rest : Bytes} {first : Bool} {ds : List Datum}
    (h : readTuple ks first bs = .ok (ds, rest)) :
    ∀ (i : Nat) (k : Scalar) (d : Datum), ks[i]? = some k → ds[i]? = some d → k.Admits d := by
  induction ks generalizing bs first ds with
  | nil =>
    intro i k d hk
    cases hk
  | cons k ks ih =>
    rw [readTuple] at h
    split at h
    · cases h
      intro i k d _ hd
      cases hd
    · simp only [Reading.ite_bind, Reading.bind_eq_ok_iff] at h
      obtain ⟨_, -, ⟨d, _⟩, hd, ⟨ds', _⟩, hds, he⟩ := h
      cases he
      intro i k' d' hk hd'
      cases i with
      | zero =>
        cases hk
        cases hd'
        exact readScalar_admits hd
      | succ i => exact ih hds i k' d' hk hd'

/-- **A record that was read has all of its fields**, in their order, each with a value of
its kind or with its own. -/
theorem read_record {name : String} {fs : List Field} {bs : Bytes} {d : Datum}
    (h : read (.record name fs) bs = .ok d) :
    ∃ r, d = Datum.record r ∧ List.Forall₂ Field.Filled fs r := by
  unfold read at h
  split at h
  · cases h
  · rename_i d' rest hread
    split at h
    · cases h
      simp only [readShape, Reading.bind_eq_ok_iff] at hread
      obtain ⟨-, -, hrecord⟩ := hread
      unfold readRecord at hrecord
      split at hrecord
      · simp only [Reading.bind_eq_ok_iff, Reading.require_eq_ok_iff] at hrecord
        obtain ⟨⟨found, _⟩, hfields, r, hr, he⟩ := hrecord
        cases he
        exact ⟨r, rfl, Field.filled_of_assemble? (readFields_admits hfields (Field.found_none fs)) hr⟩
      · simp only [Reading.bind_eq_ok_iff, Reading.require_eq_ok_iff] at hrecord
        obtain ⟨⟨ds, _⟩, htuple, r, hr, _, -, he⟩ := hrecord
        cases he
        refine ⟨r, rfl, Field.filled_of_assemble? (fun i f d hf hd => ?_) hr⟩
        rw [List.getElem?_map] at hd
        obtain ⟨x, hx, he⟩ := Option.map_eq_some_iff.mp hd
        cases he
        exact readTuple_admits htuple i f.kind d (by rw [List.getElem?_map, hf]; rfl) hx
      · cases hrecord
    · cases h

end Json
end Callwire
