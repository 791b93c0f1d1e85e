/-
# What a balancer does, case by case

An event begins calls, cancels, is part of closing the pool, or takes one call a move
further. A call that is there stays there, keeps its address and its broadcast, and
never goes back; so a call that holds the pool, or is on its way, is where it is because
it went there by the one move that leads there.

Key definitions: `Balancer.Move`, `Balancer.Step`, `Balancer.phase?`, `Balancer.Holds`.
Key theorems: `Balancer.Step.of_step`, `Balancer.Step.errand`, `Balancer.Step.turn`.
-/
import Mathlib
import Callwire.Balancer

namespace Callwire

/-- How far a call has come: no move leads back. -/
def Errand.Phase.rank : Errand.Phase → Nat
  | fresh => 0
  | wanting => 1
  | evicting _ => 2
  | dialing => 3
  | ready _ => 4
  | calling _ => 5
  | done _ => 6

namespace Balancer

/-- How far a call is. -/
def phase? (b : Balancer) (i : Nat) : Option Errand.Phase := b.errands[i]?.map (·.phase)

/-- The outcome of a call, once it has one. -/
def outcome? (b : Balancer) (i : Nat) : Option (Except Fault Datum) :=
  b.errands[i]?.bind (·.outcome?)

/-- A call holds the pool. -/
def Holds (b : Balancer) (i : Nat) : Prop := ∃ x, b.errands[i]? = some x ∧ x.holdsPool = true

theorem holds_iff_any {b : Balancer} {i : Nat} : b.errands[i]?.any (·.holdsPool) = true ↔ b.Holds i :=
  Option.any_eq_true _ _

instance (b : Balancer) (i : Nat) : Decidable (b.Holds i) := decidable_of_iff _ holds_iff_any

/-- The outcome of a call that goes no further because its broadcast does not. -/
def aborted : Except Fault Datum := .error (.cancelled .broadcast)

/-- The calls that a broadcast begins with. -/
def parts (addresses : List String) (g : Nat) : List Errand :=
  addresses.map fun address => { address := address, broadcast := some g, phase := .fresh }

/-- A balancer with the outcome of a call on the record of its broadcast. -/
def note (b : Balancer) (x : Errand) (r : Except Fault Datum) : Balancer :=
  { b with
    broadcasts := match x.broadcast with
      | none => b.broadcasts
      | some g => b.broadcasts.modify g (·.record r) }

/-- How a call goes on: by which event, what becomes of the rest of the balancer, and how
far the call is then. -/
inductive Move (b : Balancer) (i : Nat) (x : Errand) : Event → Balancer → Errand.Phase → Prop where
  | pass (hp : x.phase = .fresh) (ha : b.isAborted x = false) : Move b i x (.check i) b .wanting
  | skip (hp : x.phase = .fresh) (ha : b.isAborted x = true) :
      Move b i x (.check i) (b.note x aborted) (.done aborted)
  | dial {alive : Bool} (hp : x.phase = .wanting) (hh : b.isHeld = false)
      (hl : b.pool.lookup x.address = none) : Move b i x (.enter i alive) b .dialing
  | reuse {k : Nat} (hp : x.phase = .wanting) (hh : b.isHeld = false)
      (hl : b.pool.lookup x.address = some k) : Move b i x (.enter i true) b (.ready k)
  | stale {k : Nat} (hp : x.phase = .wanting) (hh : b.isHeld = false)
      (hl : b.pool.lookup x.address = some k) :
      Move b i x (.enter i false) { b with pool := b.pool.filter (·.1 != x.address) } (.evicting k)
  | evict {k : Nat} (hp : x.phase = .evicting k) :
      Move b i x (.evict i) { b with closed := b.closed ++ [k] } .dialing
  | connect (hp : x.phase = .dialing) :
      Move b i x (.connect i)
        { b with pool := b.pool ++ [(x.address, b.clients)], clients := b.clients + 1 }
        (.ready b.clients)
  | refuse {why : Fault} (hp : x.phase = .dialing) :
      Move b i x (.refuse i why) (b.note x (.error why)) (.done (.error why))
  | send {k : Nat} (hp : x.phase = .ready k) (ha : b.isAborted x = false) :
      Move b i x (.send i) b (.calling k)
  | drop {k : Nat} (hp : x.phase = .ready k) (ha : b.isAborted x = true) :
      Move b i x (.send i) (b.note x aborted) (.done aborted)
  | answer {k : Nat} {r : Except Fault Datum} (hp : x.phase = .calling k) :
      Move b i x (.answer i r) (b.note x r) (.done r)

/-- What an event does to a balancer, case by case. -/
inductive Step (b : Balancer) : Event → Balancer → Prop where
  | call {address : String} {cancelled : Bool} :
      Step b (.call address cancelled)
        { b with
          errands := b.errands ++
            [{ address := address, cancelled := cancelled, phase := .wanting }] }
  | broadcast {addresses : List String} {cancelled : Bool} :
      Step b (.broadcast addresses cancelled)
        { b with
          errands := b.errands ++ parts addresses b.broadcasts.length
          broadcasts := b.broadcasts ++ [{ cancelled := cancelled }] }
  | cancel {i : Nat} {x : Errand} (hx : b.errands[i]? = some x) :
      Step b (.cancel i) { b with errands := b.errands.set i { x with cancelled := true } }
  | withdraw {g : Nat} :
      Step b (.withdraw g)
        { b with broadcasts := b.broadcasts.modify g fun x => { x with cancelled := true } }
  | close : Step b .close { b with closings := b.closings ++ [none] }
  | move {i : Nat} {x : Errand} {e : Event} {m : Balancer} {q : Errand.Phase}
      (hx : b.errands[i]? = some x) (hm : Move b i x e m q) : Step b e (m.put i x q)
  | drain {j : Nat} (hj : b.closings[j]? = some none) (hh : b.isHeld = false) :
      Step b (.drain j)
        { b with pool := [], closings := b.closings.set j (some (b.pool.map (·.2))) }
  | shut {j k : Nat} {ks : List Nat} (hj : b.closings[j]? = some (some (k :: ks))) :
      Step b (.shut j)
        { b with closed := b.closed ++ [k], closings := b.closings.set j (some ks) }

variable {b b' m : Balancer} {e : Event} {i j k : Nat} {x y : Errand} {q : Errand.Phase}
  {r : Except Fault Datum}

theorem finish_eq : b.finish i x r = (b.note x r).put i x (.done r) := by
  unfold finish note
  cases x.broadcast <;> rfl

theorem Step.of_enter {alive : Bool} (h : b.step (.enter i alive) = some b') :
    Step b (.enter i alive) b' := by
  simp only [step, bind, Option.bind_eq_some_iff] at h
  obtain ⟨x, hx, h⟩ := h
  split at h
  · rename_i hp
    split at h
    · cases h
    · rename_i hh
      have hh : b.isHeld = false := by simpa using hh
      split at h
      · rename_i hl
        cases h
        exact .move hx (.dial hp hh hl)
      · rename_i k hl
        cases alive
        · cases h
          exact .move hx (.stale hp hh hl)
        · cases h
          exact .move hx (.reuse hp hh hl)
  · cases h

theorem Step.of_check (h : b.step (.check i) = some b') : Step b (.check i) b' := by
  simp only [step, bind, Option.bind_eq_some_iff] at h
  obtain ⟨x, hx, h⟩ := h
  split at h
  · rename_i hp
    cases ha : b.isAborted x with
    | false =>
      simp only [ha, Bool.false_eq_true, if_false] at h
      cases h
      exact .move hx (.pass hp ha)
    | true =>
      simp only [ha, if_true, finish_eq] at h
      cases h
      exact .move hx (.skip hp ha)
  · cases h

theorem Step.of_send (h : b.step (.send i) = some b') : Step b (.send i) b' := by
  simp only [step, bind, Option.bind_eq_some_iff] at h
  obtain ⟨x, hx, h⟩ := h
  split at h
  · rename_i k hp
    cases ha : b.isAborted x with
    | false =>
      simp only [ha, Bool.false_eq_true, if_false] at h
      cases h
      exact .move hx (.send hp ha)
    | true =>
      simp only [ha, if_true, finish_eq] at h
      cases h
      exact .move hx (.drop hp ha)
  · cases h

/-- **There are no other cases.** -/
theorem Step.of_step (h : b.step e = some b') : Step b e b' := by
  cases e with
  | call address cancelled =>
    cases h
    exact .call
  | broadcast addresses cancelled =>
    cases h
    exact .broadcast
  | cancel i =>
    simp only [step, bind, Option.bind_eq_some_iff] at h
    obtain ⟨x, hx, h⟩ := h
    cases h
    exact .cancel hx
  | withdraw g =>
    cases h
    exact .withdraw
  | close =>
    cases h
    exact .close
  | check i => exact .of_check h
  | enter i alive => exact .of_enter h
  | evict i =>
    simp only [step, bind, Option.bind_eq_some_iff] at h
    obtain ⟨x, hx, h⟩ := h
    split at h
    · rename_i k hp
      cases h
      exact .move hx (.evict hp)
    · cases h
  | connect i =>
    simp only [step, bind, Option.bind_eq_some_iff] at h
    obtain ⟨x, hx, h⟩ := h
    split at h
    · rename_i hp
      cases h
      exact .move hx (.connect hp)
    · cases h
  | refuse i why =>
    simp only [step, bind, Option.bind_eq_some_iff, finish_eq] at h
    obtain ⟨x, hx, h⟩ := h
    split at h
    · rename_i hp
      cases h
      exact .move hx (.refuse hp)
    · cases h
  | send i => exact .of_send h
  | answer i r =>
    simp only [step, bind, Option.bind_eq_some_iff, finish_eq] at h
    obtain ⟨x, hx, h⟩ := h
    split at h
    · rename_i k hp
      cases h
      exact .move hx (.answer hp)
    · cases h
  | drain j =>
    simp only [step] at h
    split at h
    · rename_i hj
      split at h
      · cases h
      · rename_i hh
        cases h
        exact .drain hj (by simpa using hh)
    · cases h
  | shut j =>
    simp only [step] at h
    split at h
    · rename_i k ks hj
      cases h
      exact .shut hj
    · cases h

/-! ### What stays and what goes on -/

theorem Move.rest (h : Move b i x e m q) : m.errands = b.errands ∧ m.closings = b.closings := by
  cases h <;> exact ⟨rfl, rfl⟩

theorem Move.rank_lt (h : Move b i x e m q) : x.phase.rank < q.rank := by
  cases h <;> simp [*, Errand.Phase.rank]

theorem errands_put_self (hx : b.errands[i]? = some x) :
    (b.put i x q).errands[i]? = some { x with phase := q } :=
  List.getElem?_set_self (List.getElem?_eq_some_iff.mp hx).1

theorem errands_put_ne (h : i ≠ j) : (b.put i x q).errands[j]? = b.errands[j]? :=
  List.getElem?_set_ne h

theorem phase?_eq_some_iff {p : Errand.Phase} :
    b.phase? i = some p ↔ ∃ x, b.errands[i]? = some x ∧ x.phase = p := Option.map_eq_some_iff

theorem phase?_put_self (hx : b.errands[i]? = some x) : (b.put i x q).phase? i = some q := by
  rw [phase?, errands_put_self hx, Option.map_some]

theorem Move.phase? (h : Move b i x e m q) (hx : b.errands[i]? = some x) :
    (m.put i x q).phase? i = some q := phase?_put_self (h.rest.1 ▸ hx)

theorem outcome?_eq_some_iff : b.outcome? i = some r ↔ b.phase? i = some (.done r) := by
  rw [outcome?, phase?]
  cases b.errands[i]? with
  | none => simp
  | some x => cases hp : x.phase <;> simp [Errand.outcome?, hp]

theorem holds_iff : b.Holds i ↔ b.phase? i = some .dialing ∨ ∃ k, b.phase? i = some (.evicting k) := by
  rw [Holds, phase?]
  cases b.errands[i]? with
  | none => simp
  | some x => cases hp : x.phase <;> simp [Errand.holdsPool, hp]

theorem isHeld_eq_false_iff : b.isHeld = false ↔ ∀ i, ¬ b.Holds i := by
  simp only [isHeld, Holds, List.any_eq_false, List.mem_iff_getElem?]
  constructor
  · rintro h i ⟨x, hx, hh⟩
    exact h x ⟨i, hx⟩ hh
  · rintro h x ⟨i, hx⟩ hh
    exact h i ⟨x, hx, hh⟩

/-- **A call that is there stays**, keeps its address and its broadcast, and is as far as
it was or a move further. -/
theorem Step.errand (h : Step b e b') (hx : b.errands[j]? = some x) :
    ∃ y, b'.errands[j]? = some y ∧ y.address = x.address ∧ y.broadcast = x.broadcast ∧
      (y.phase = x.phase ∨ ∃ m, Move b j x e m y.phase ∧ b' = m.put j x y.phase) := by
  have hlt : j < b.errands.length := (List.getElem?_eq_some_iff.mp hx).1
  cases h with
  | call | broadcast =>
    exact ⟨x, (List.getElem?_append_left hlt).trans hx, rfl, rfl, .inl rfl⟩
  | @cancel i z hz =>
    by_cases hij : i = j
    · subst hij
      cases hx.symm.trans hz
      exact ⟨_, List.getElem?_set_self hlt, rfl, rfl, .inl rfl⟩
    · exact ⟨x, (List.getElem?_set_ne hij).trans hx, rfl, rfl, .inl rfl⟩
  | withdraw | close | drain _ _ | shut _ => exact ⟨x, hx, rfl, rfl, .inl rfl⟩
  | @move i z _ m q hz hm =>
    have hxm : m.errands[j]? = some x := hm.rest.1 ▸ hx
    by_cases hij : i = j
    · subst hij
      cases hx.symm.trans hz
      exact ⟨_, errands_put_self hxm, rfl, rfl, .inr ⟨m, hm, rfl⟩⟩
    · exact ⟨x, (errands_put_ne hij).trans hxm, rfl, rfl, .inl rfl⟩

/-- **A call that was not there before is at its beginning**, and a part of a new broadcast
or of none. -/
theorem Step.begun (h : Step b e b') (hn : b.errands[j]? = none) (hy : b'.errands[j]? = some y) :
    (y.phase = .fresh ∨ y.phase = .wanting) ∧
      ∀ g, y.broadcast = some g → g = b.broadcasts.length ∧ g < b'.broadcasts.length := by
  have hle : b.errands.length ≤ j := List.getElem?_eq_none_iff.mp hn
  cases h with
  | call =>
    rw [List.getElem?_append_right hle] at hy
    rw [List.mem_singleton.mp (List.mem_of_getElem? hy)]
    exact ⟨.inr rfl, nofun⟩
  | broadcast =>
    rw [List.getElem?_append_right hle] at hy
    obtain ⟨a, -, rfl⟩ := List.mem_map.mp (List.mem_of_getElem? hy)
    refine ⟨.inl rfl, fun g hg => ?_⟩
    cases hg
    exact ⟨rfl, by simp⟩
  | cancel _ => exact absurd (List.getElem?_eq_some_iff.mp hy).1 (by simpa using hle)
  | withdraw | close | drain _ _ | shut _ => cases hn.symm.trans hy
  | move _ hm =>
    exact absurd (List.getElem?_eq_some_iff.mp hy).1 (by simpa [put, hm.rest.1] using hle)

/-- **What an event makes of a call**: nothing, or it goes on by a move, or it is new and at
its beginning. -/
theorem Step.turn (h : Step b e b') (j : Nat) :
    b'.phase? j = b.phase? j ∨
      (∃ x m q, b.errands[j]? = some x ∧ Move b j x e m q ∧ b' = m.put j x q) ∨
      (b.phase? j = none ∧ (b'.phase? j = some .fresh ∨ b'.phase? j = some .wanting)) := by
  cases hx : b.errands[j]? with
  | none =>
    have hnone : b.phase? j = none := Option.map_eq_none_iff.mpr hx
    cases hy : b'.errands[j]? with
    | none => exact .inl (hnone ▸ Option.map_eq_none_iff.mpr hy)
    | some y =>
      have hp : b'.phase? j = some y.phase := phase?_eq_some_iff.mpr ⟨y, hy, rfl⟩
      obtain ⟨hb | hb, -⟩ := h.begun hx hy
      · exact .inr (.inr ⟨hnone, .inl (hb ▸ hp)⟩)
      · exact .inr (.inr ⟨hnone, .inr (hb ▸ hp)⟩)
  | some x =>
    obtain ⟨y, hy, -, -, hsame | ⟨m, hm, hb⟩⟩ := h.errand hx
    · exact .inl (by rw [phase?, phase?, hy, hx, Option.map_some, Option.map_some, hsame])
    · exact .inr (.inl ⟨x, m, y.phase, rfl, hm, hb⟩)

/-- A call never goes back. -/
theorem Step.rank_le (h : Step b e b') {p : Errand.Phase} (hp : b.phase? i = some p) :
    ∃ p', b'.phase? i = some p' ∧ p.rank ≤ p'.rank := by
  obtain ⟨x, hx, rfl⟩ := phase?_eq_some_iff.mp hp
  obtain ⟨y, hy, -, -, hsame | ⟨m, hm, -⟩⟩ := h.errand hx
  · exact ⟨y.phase, phase?_eq_some_iff.mpr ⟨y, hy, rfl⟩, hsame ▸ Nat.le_refl _⟩
  · exact ⟨y.phase, phase?_eq_some_iff.mpr ⟨y, hy, rfl⟩, Nat.le_of_lt hm.rank_lt⟩

theorem Move.outcome?_eq_none (h : Move b i x e m q) (hx : b.errands[i]? = some x) :
    b.outcome? i = none := by
  refine Option.eq_none_iff_forall_ne_some.mpr fun r hr => ?_
  obtain ⟨y, hy, hp⟩ := phase?_eq_some_iff.mp (outcome?_eq_some_iff.mp hr)
  cases hx.symm.trans hy
  have hlt := h.rank_lt
  rw [hp] at hlt
  cases q <;> simp [Errand.Phase.rank] at hlt

theorem Step.outcome?_eq (h : Step b e b') (hr : b.outcome? i = some r) : b'.outcome? i = some r := by
  rcases h.turn i with hsame | ⟨x, m, q, hx, hm, -⟩ | ⟨hn, -⟩
  · rw [outcome?_eq_some_iff] at hr ⊢
    exact hsame.trans hr
  · cases (hm.outcome?_eq_none hx).symm.trans hr
  · cases hn.symm.trans (outcome?_eq_some_iff.mp hr)

/-! ### On the way -/

/-- A call that is on its way is there until it is answered. -/
theorem Step.calling (h : Step b e b') (hi : b.phase? i = some (.calling k)) :
    b'.phase? i = some (.calling k) ∨ ∃ r, e = .answer i r ∧ b'.outcome? i = some r := by
  rcases h.turn i with hsame | ⟨x, m, q, hx, hm, rfl⟩ | ⟨hn, -⟩
  · exact .inl (hsame.trans hi)
  · have hq := hm.phase? hx
    obtain ⟨y, hy, hp⟩ := phase?_eq_some_iff.mp hi
    cases hx.symm.trans hy
    cases hm with
    | answer _ => exact .inr ⟨_, rfl, outcome?_eq_some_iff.mpr hq⟩
    | _ hp' => cases hp.symm.trans hp'
  · cases hn.symm.trans hi

/-- A call is on its way because it was, or was sent now; then its broadcast goes on. -/
theorem Step.of_calling (h : Step b e b') (hi : b'.phase? i = some (.calling k)) :
    b.phase? i = some (.calling k) ∨
      ∃ x, b.errands[i]? = some x ∧ x.phase = .ready k ∧ e = .send i ∧ b.isAborted x = false := by
  rcases h.turn i with hsame | ⟨x, m, q, hx, hm, rfl⟩ | ⟨-, hb⟩
  · exact .inl (hsame ▸ hi)
  · cases (hm.phase? hx).symm.trans hi
    cases hm with
    | send hp ha => exact .inr ⟨x, hx, hp, rfl, ha⟩
  · rcases hb with hb | hb <;> cases hb.symm.trans hi

theorem Step.sent (h : Step b (.send i) b') (hx : b.errands[i]? = some x) (hp : x.phase = .ready k)
    (ha : b.isAborted x = false) : b'.phase? i = some (.calling k) := by
  cases h with
  | move hy hm =>
    have hq := hm.phase? hy
    cases hm with
    | send hp' _ =>
      cases hx.symm.trans hy
      cases hp.symm.trans hp'
      exact hq
    | drop _ ha' =>
      cases hx.symm.trans hy
      cases ha.symm.trans ha'

theorem Step.answered (h : Step b (.answer i r) b') : b'.outcome? i = some r := by
  cases h with
  | move hy hm =>
    have hq := hm.phase? hy
    cases hm with
    | answer _ => exact outcome?_eq_some_iff.mpr hq

/-- How many calls an event begins. -/
def Event.begins : Event → Nat
  | .call _ _ => 1
  | .broadcast addresses _ => addresses.length
  | _ => 0

theorem Step.length_errands (h : Step b e b') : b'.errands.length = b.errands.length + e.begins := by
  cases h with
  | call => exact List.length_append
  | broadcast => simp [parts, Event.begins]
  | cancel _ => exact List.length_set ..
  | withdraw | close | drain _ _ | shut _ => rfl
  | @move i x e m q _ hm =>
    have hlen : (m.put i x q).errands.length = b.errands.length := by
      rw [← hm.rest.1]
      exact List.length_set ..
    rw [hlen]
    cases hm <;> rfl

end Balancer
end Callwire
