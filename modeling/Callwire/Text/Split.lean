/-
# Cutting text

Text is cut at the first or at the last place of a character, or at every
character of a kind.

Key definitions: `Text.splitFirst?`, `Text.splitLast?`, `Text.cut`.
Key theorems: `Text.splitFirst?_eq_some_iff`, `Text.splitLast?_eq_some_iff`,
`Text.cut_ne_nil`.
-/
namespace Callwire
namespace Text

/-- The characters before and after the first `c`. -/
def splitFirst? (c : Char) : List Char → Option (List Char × List Char)
  | [] => none
  | x :: xs => if x = c then some ([], xs) else (splitFirst? c xs).map fun p => (x :: p.1, p.2)

/-- The characters before and after the last `c`. -/
def splitLast? (c : Char) : List Char → Option (List Char × List Char)
  | [] => none
  | x :: xs =>
    match splitLast? c xs with
    | some p => some (x :: p.1, p.2)
    | none => if x = c then some ([], xs) else none

/-- Cuts at every character that satisfies `p`; `k` cuts give `k + 1` pieces. -/
def cut (p : Char → Bool) : List Char → List (List Char)
  | [] => [[]]
  | c :: cs =>
    if p c then [] :: cut p cs
    else match cut p cs with
      | [] => [[c]]
      | w :: ws => (c :: w) :: ws

theorem splitFirst?_eq_some_iff {c : Char} {cs a b : List Char} :
    splitFirst? c cs = some (a, b) ↔ cs = a ++ c :: b ∧ c ∉ a := by
  induction cs generalizing a with
  | nil => simp [splitFirst?]
  | cons x xs ih =>
    by_cases h : x = c
    · subst h
      cases a with
      | nil => simp [splitFirst?, eq_comm]
      | cons y ys =>
        simp only [splitFirst?, if_pos, Option.some.injEq, Prod.mk.injEq, List.cons_append,
          List.cons.injEq, List.mem_cons, not_or]
        exact ⟨fun h => by simp at h, fun h => absurd h.1.1 h.2.1⟩
    · rw [splitFirst?, if_neg h, Option.map_eq_some_iff]
      constructor
      · rintro ⟨⟨u, v⟩, hu, hv⟩
        simp only [Prod.mk.injEq] at hv
        obtain ⟨rfl, rfl⟩ := hv
        obtain ⟨rfl, hn⟩ := ih.1 hu
        exact ⟨rfl, by simp [hn, Ne.symm h]⟩
      · rintro ⟨he, hn⟩
        cases a with
        | nil => simp only [List.nil_append, List.cons.injEq] at he; exact absurd he.1 h
        | cons y ys =>
          simp only [List.cons_append, List.cons.injEq] at he
          obtain ⟨rfl, rfl⟩ := he
          exact ⟨(ys, b), ih.2 ⟨rfl, fun hm => hn (List.mem_cons_of_mem _ hm)⟩, rfl⟩

theorem splitLast?_eq_none_iff {c : Char} {cs : List Char} : splitLast? c cs = none ↔ c ∉ cs := by
  induction cs with
  | nil => simp [splitLast?]
  | cons x xs ih =>
    rw [splitLast?]
    split
    · rename_i p hp
      have : c ∈ xs := by
        rw [← Decidable.not_not (p := c ∈ xs), ← ih, hp]
        simp
      simp [this]
    · rename_i hp
      have hn := ih.1 hp
      by_cases h : x = c
      · simp [h]
      · simp [h, hn, Ne.symm h]

theorem splitLast?_eq_some_iff {c : Char} {cs a b : List Char} :
    splitLast? c cs = some (a, b) ↔ cs = a ++ c :: b ∧ c ∉ b := by
  induction cs generalizing a b with
  | nil => simp [splitLast?]
  | cons x xs ih =>
    rw [splitLast?]
    split
    · rename_i p hp
      obtain ⟨u, v⟩ := p
      obtain ⟨rfl, hn⟩ := ih.1 hp
      simp only [Option.some.injEq, Prod.mk.injEq]
      constructor
      · rintro ⟨rfl, rfl⟩
        exact ⟨rfl, hn⟩
      · rintro ⟨he, hb⟩
        cases a with
        | nil =>
          simp only [List.nil_append, List.cons.injEq] at he
          exact absurd (he.2 ▸ List.mem_append_right u (List.mem_cons_self ..)) hb
        | cons y ys =>
          simp only [List.cons_append, List.cons.injEq] at he
          have h2 := ih.2 ⟨he.2, hb⟩
          rw [hp] at h2
          simp only [Option.some.injEq, Prod.mk.injEq] at h2
          exact ⟨by rw [he.1, h2.1], h2.2⟩
    · rename_i hp
      have hn := splitLast?_eq_none_iff.1 hp
      by_cases h : x = c
      · subst h
        rw [if_pos rfl]
        simp only [Option.some.injEq, Prod.mk.injEq]
        constructor
        · rintro ⟨rfl, rfl⟩
          exact ⟨rfl, hn⟩
        · rintro ⟨he, hb⟩
          cases a with
          | nil => simpa using he
          | cons y ys =>
            simp only [List.cons_append, List.cons.injEq] at he
            exact absurd (he.2 ▸ List.mem_append_right ys (List.mem_cons_self ..)) hn
      · rw [if_neg h]
        simp only [reduceCtorEq, false_iff, not_and]
        intro he
        cases a with
        | nil => simp only [List.nil_append, List.cons.injEq] at he; exact absurd he.1 h
        | cons y ys =>
          simp only [List.cons_append, List.cons.injEq] at he
          exact absurd (he.2 ▸ List.mem_append_right ys (List.mem_cons_self ..)) hn

theorem cut_ne_nil (p : Char → Bool) (cs : List Char) : cut p cs ≠ [] := by
  cases cs with
  | nil => simp [cut]
  | cons c cs =>
    rw [cut]
    split
    · simp
    · split <;> simp

end Text
end Callwire
