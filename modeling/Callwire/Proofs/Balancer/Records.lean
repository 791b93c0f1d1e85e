/-
# The record of a broadcast

A step gives at most one call its outcome, and the record of its broadcast takes it down at
once. So at any time the record is told by the outcomes that the calls of the broadcast had
so far, in the order in which they came: the first reply is in the caller's slot and nothing
else ever was, and the first fault is the broadcast's. A broadcast has its outcome when all
of its calls have theirs. Once its record has a fault, or its caller has cancelled it, no
call of it is sent any more.

Key definitions: `Balancer.ended`, `Broadcast.Tells`, `Balancer.Tally`, `Balancer.IsStopped`.
Key theorems: `Balancer.Step.ended_cases`, `Balancer.Tally.step`,
`Balancer.Tally.broadcastOutcome?_eq_some_iff`, `Balancer.IsTruthful.step`.
-/
import Callwire.Proofs.Balancer.Steps

namespace Callwire

/-- The fault of an outcome. -/
def fault? : Except Fault Datum → Option Fault
  | .error why => some why
  | .ok _ => none

/-- The replies among some outcomes. -/
def replies (rs : List (Except Fault Datum)) : List Datum := rs.filterMap (·.toOption)

/-- The faults among some outcomes. -/
def faults (rs : List (Except Fault Datum)) : List Fault := rs.filterMap fault?

/-- What becomes of a broadcast whose calls told this: it fails with the first fault. -/
def verdict (rs : List (Except Fault Datum)) : Except Fault Unit :=
  match (faults rs).head? with
  | some why => .error why
  | none => .ok ()

theorem fault?_eq_none_iff {r : Except Fault Datum} : fault? r = none ↔ ∃ d, r = .ok d := by
  cases r <;> simp [fault?]

theorem fault?_eq_some_iff {r : Except Fault Datum} {why : Fault} :
    fault? r = some why ↔ r = .error why := by
  cases r <;> simp [fault?]

theorem verdict_eq_ok_iff {rs : List (Except Fault Datum)} :
    verdict rs = .ok () ↔ ∀ r ∈ rs, ∃ d, r = .ok d := by
  have hnone : (faults rs).head? = none ↔ ∀ r ∈ rs, ∃ d, r = .ok d := by
    simp only [List.head?_eq_none_iff, faults, List.filterMap_eq_nil_iff, fault?_eq_none_iff]
  rw [← hnone, verdict]
  cases (faults rs).head? <;> simp

/-- A broadcast fails with the fault before which there are replies only. -/
theorem verdict_eq_error_iff {rs : List (Except Fault Datum)} {why : Fault} :
    verdict rs = .error why ↔ ∃ l l', rs = l ++ .error why :: l' ∧ ∀ r ∈ l, ∃ d, r = .ok d := by
  have hsome : (faults rs).head? = some why ↔
      ∃ l l', rs = l ++ .error why :: l' ∧ ∀ r ∈ l, ∃ d, r = .ok d := by
    simp only [faults, List.head?_filterMap, List.findSome?_eq_some_iff, fault?_eq_some_iff,
      fault?_eq_none_iff]
    constructor
    · rintro ⟨l, _, l', hl, rfl, hall⟩
      exact ⟨l, l', hl, hall⟩
    · rintro ⟨l, l', hl, hall⟩
      exact ⟨l, _, l', hl, rfl, hall⟩
  rw [← hsome, verdict]
  cases (faults rs).head? <;> simp

namespace Broadcast

/-- What is on record is told by some outcomes, in this order. -/
structure Tells (g : Broadcast) (rs : List (Except Fault Datum)) : Prop where
  replied : g.replied = true ↔ replies rs ≠ []
  written : g.written = (replies rs).take 1
  fault : g.fault = (faults rs).head?

variable {g : Broadcast} {rs : List (Except Fault Datum)}

theorem tells_nil {c : Bool} : ({ cancelled := c } : Broadcast).Tells [] := ⟨by simp [replies], rfl, rfl⟩

theorem Tells.record (h : g.Tells rs) (r : Except Fault Datum) : (g.record r).Tells (rs ++ [r]) := by
  cases r with
  | ok d =>
    have hfaults : faults (rs ++ [.ok d]) = faults rs := by simp [faults, fault?]
    have hreplies : replies (rs ++ [.ok d]) = replies rs ++ [d] := by simp [replies, Except.toOption]
    cases hr : g.replied with
    | true =>
      have hne := h.replied.mp hr
      have htake : (replies rs ++ [d]).take 1 = (replies rs).take 1 :=
        List.take_append_of_le_length (List.length_pos_iff.mpr hne)
      rw [Broadcast.record, if_pos hr]
      exact ⟨by simp [hr, hreplies], by rw [hreplies, htake]; exact h.written, hfaults ▸ h.fault⟩
    | false =>
      have hnone : replies rs = [] := by
        by_contra hne
        rw [h.replied.mpr hne] at hr
        cases hr
      have hempty : g.written = [] := by rw [h.written, hnone, List.take_nil]
      rw [Broadcast.record, if_neg (by simp [hr])]
      exact ⟨by simp [hreplies], by rw [hreplies, hnone, hempty]; rfl, hfaults ▸ h.fault⟩
  | error why =>
    have hreplies : replies (rs ++ [.error why]) = replies rs := by simp [replies, Except.toOption]
    have hfault : (faults (rs ++ [.error why])).head? = g.fault.or (some why) := by
      rw [h.fault, faults, List.filterMap_append, List.head?_append]
      rfl
    rw [Broadcast.record]
    cases hf : g.fault with
    | some why' => exact ⟨hreplies ▸ h.replied, hreplies ▸ h.written, by simp [hfault, hf]⟩
    | none => exact ⟨hreplies ▸ h.replied, hreplies ▸ h.written, by simp [hfault, hf]⟩

theorem cancelled_record (r : Except Fault Datum) : (g.record r).cancelled = g.cancelled := by
  cases r <;> rw [record] <;> split <;> rfl

theorem fault_record {r : Except Fault Datum} {why : Fault} (h : (g.record r).fault = some why) :
    g.fault = some why ∨ (g.fault = none ∧ r = .error why) := by
  cases r with
  | ok d =>
    rw [record] at h
    split at h <;> exact .inl h
  | error why' =>
    rw [record] at h
    split at h
    · exact .inl h
    · rename_i hn
      exact .inr ⟨by simpa using hn, congrArg _ (Option.some.inj h)⟩

theorem isAborted_record (h : g.isAborted = true) (r : Except Fault Datum) :
    (g.record r).isAborted = true := by
  cases r with
  | ok d =>
    rw [record]
    split <;> exact h
  | error why =>
    rw [record]
    split
    · exact h
    · simp [isAborted]

end Broadcast

namespace Balancer

/-- The calls that have an outcome in the second balancer and none in the first, with
their outcomes. -/
def ended (b b' : Balancer) : List (Nat × Except Fault Datum) :=
  (List.range b'.errands.length).filterMap fun i =>
    match b.outcome? i, b'.outcome? i with
    | none, some r => some (i, r)
    | _, _ => none

/-- No call of the broadcast that a call is part of is sent any more. -/
def IsStopped (b : Balancer) (i : Nat) : Prop := ∃ x, b.errands[i]? = some x ∧ b.isAborted x = true

/-- An event says of no call that its broadcast goes no further. -/
def Event.IsHonest : Event → Prop
  | .refuse _ why => why ≠ .cancelled .broadcast
  | .answer _ r => r ≠ aborted
  | _ => True

/-- The parts of broadcasts are parts of broadcasts that there are. -/
def IsNumbered (b : Balancer) : Prop :=
  ∀ (i : Nat) (x : Errand) (g : Nat), b.errands[i]? = some x → x.broadcast = some g → g < b.broadcasts.length

/-- A broadcast that says that it goes no further was cancelled by its caller. -/
def IsTruthful (b : Balancer) : Prop :=
  ∀ (g : Nat) (x : Broadcast), b.broadcasts[g]? = some x → x.fault = some (.cancelled .broadcast) →
    x.cancelled = true

/-- What a broadcast is that began with a call to each address, the first of them with this
number, once these outcomes came, in this order. -/
structure Tally (b : Balancer) (g first : Nat) (addresses : List String)
    (told : List (Nat × Except Fault Datum)) : Prop where
  parts : ∀ (n : Nat) (a : String), addresses[n]? = some a →
    ∃ x, b.errands[first + n]? = some x ∧ x.address = a ∧ x.broadcast = some g
  only : ∀ (i : Nat) (x : Errand), b.errands[i]? = some x → x.broadcast = some g →
    i ∈ List.range' first addresses.length
  nodup : (told.map (·.1)).Nodup
  mem : ∀ i r, (i, r) ∈ told ↔ i ∈ List.range' first addresses.length ∧ b.outcome? i = some r
  record : ∃ x, b.broadcasts[g]? = some x ∧ x.Tells (told.map (·.2))

variable {b b' m : Balancer} {e : Event} {i j k g first : Nat} {x y : Errand} {q : Errand.Phase}
  {r : Except Fault Datum} {addresses : List String} {told : List (Nat × Except Fault Datum)}

/-! ### One outcome at a time -/

theorem filterMap_eq_singleton {α β : Type} {l : List α} {f : α → Option β} {a : α} {v : β}
    (ha : a ∈ l) (hn : l.Nodup) (hf : f a = some v) (hne : ∀ c ∈ l, c ≠ a → f c = none) :
    l.filterMap f = [v] := by
  obtain ⟨l₁, l₂, rfl⟩ := List.append_of_mem ha
  obtain ⟨-, hn₂, hdis⟩ := List.nodup_append.mp hn
  have h₁ : l₁.filterMap f = [] := List.filterMap_eq_nil_iff.mpr fun c hc =>
    hne c (List.mem_append_left _ hc) (hdis c hc a List.mem_cons_self)
  have h₂ : l₂.filterMap f = [] := List.filterMap_eq_nil_iff.mpr fun c hc =>
    hne c (List.mem_append_right _ (List.mem_cons_of_mem _ hc)) fun hca =>
      (List.nodup_cons.mp hn₂).1 (hca ▸ hc)
  rw [List.filterMap_append, List.filterMap_cons_some hf, h₁, h₂, List.nil_append]

theorem ended_eq_nil (h : ∀ i, b.outcome? i = none → b'.outcome? i = none) : ended b b' = [] := by
  refine List.filterMap_eq_nil_iff.mpr fun i _ => ?_
  cases hb : b.outcome? i with
  | some r => rfl
  | none => rw [h i hb]

theorem ended_self : ended b b = [] := ended_eq_nil fun _ h => h

/-- A call ends with what goes on the record of its broadcast. If it says that its broadcast
goes no further, this is so, or the event says so. -/
theorem Move.done (h : Move b i x e m (.done r)) :
    m = b.note x r ∧ (e.IsHonest → r = aborted → b.isAborted x = true) := by
  cases h with
  | skip _ ha | drop _ ha => exact ⟨rfl, fun _ _ => ha⟩
  | refuse _ => exact ⟨rfl, fun hh hr => absurd (Except.error.inj hr) hh⟩
  | answer _ => exact ⟨rfl, fun hh hr => absurd hr hh⟩

/-- No record takes down an outcome. One may be marked as cancelled, and one may be new. -/
structure OnlyCancels (b : Balancer) (e : Event) (b' : Balancer) : Prop where
  kept : ∀ (g : Nat) (w : Broadcast), b.broadcasts[g]? = some w →
    ∃ c, b'.broadcasts[g]? = some { w with cancelled := c } ∧
      (c = w.cancelled ∨ (c = true ∧ e = .withdraw g))
  fresh : ∀ (g : Nat) (w : Broadcast), b.broadcasts[g]? = none → b'.broadcasts[g]? = some w →
    w.fault = none

theorem onlyCancels_of_eq (h : b'.broadcasts = b.broadcasts) : OnlyCancels b e b' where
  kept _ w hw := ⟨w.cancelled, h ▸ hw, .inl rfl⟩
  fresh _ _ hn hw := by cases hn.symm.trans (h ▸ hw)

theorem onlyCancels_broadcast {c : Bool} (h : b'.broadcasts = b.broadcasts ++ [{ cancelled := c }]) :
    OnlyCancels b e b' where
  kept g w hw := by
    have hlt : g < b.broadcasts.length := (List.getElem?_eq_some_iff.mp hw).1
    exact ⟨w.cancelled, h ▸ (List.getElem?_append_left hlt).trans hw, .inl rfl⟩
  fresh g w hn hw := by
    rw [h, List.getElem?_append_right (List.getElem?_eq_none_iff.mp hn)] at hw
    rw [List.mem_singleton.mp (List.mem_of_getElem? hw)]

theorem onlyCancels_withdraw (h : b'.broadcasts = b.broadcasts.modify g fun w => { w with cancelled := true }) :
    OnlyCancels b (.withdraw g) b' where
  kept g' w hw := by
    by_cases hg : g = g'
    · subst hg
      exact ⟨true, by simp [h, List.getElem?_modify_eq, hw], .inr ⟨rfl, rfl⟩⟩
    · exact ⟨w.cancelled, by simpa [h, List.getElem?_modify_ne _ _ hg] using hw, .inl rfl⟩
  fresh g' w hn hw := by
    rw [h, List.getElem?_modify, hn] at hw
    cases hw

theorem Step.outcome?_of_no_move (h : Step b e b') (hno : ∀ j x m q, ¬ Move b j x e m q) (i : Nat) :
    b'.outcome? i = b.outcome? i := by
  refine Option.ext fun r => ?_
  rw [outcome?_eq_some_iff, outcome?_eq_some_iff]
  rcases h.turn i with hsame | ⟨x, m, q, -, hm, -⟩ | ⟨hn, hb⟩
  · rw [hsame]
  · exact absurd hm (hno i x m q)
  · rcases hb with hb | hb <;> simp [hn, hb]

theorem outcome?_put_ne (h : i ≠ j) : (b.put i x q).outcome? j = b.outcome? j := by
  rw [outcome?, errands_put_ne h, outcome?]

theorem Move.broadcasts (h : Move b i x e m q) (hq : ∀ r, q ≠ .done r) : m.broadcasts = b.broadcasts := by
  cases h with
  | skip | refuse | drop | answer => exact absurd rfl (hq _)
  | _ => rfl

/-- **A step gives no call an outcome and takes none down, or it gives one call its outcome
and this goes on the record of its broadcast.** -/
theorem Step.ended_cases (h : Step b e b') :
    ((∀ i, b'.outcome? i = b.outcome? i) ∧ OnlyCancels b e b') ∨
      ∃ i x r, b.errands[i]? = some x ∧ b.outcome? i = none ∧
        b' = (b.note x r).put i x (.done r) ∧ (e.IsHonest → r = aborted → b.isAborted x = true) := by
  have hno := h.outcome?_of_no_move
  cases h with
  | call | cancel _ | close | drain _ _ | shut _ =>
    exact .inl ⟨hno (fun _ _ _ _ hm => nomatch hm), onlyCancels_of_eq rfl⟩
  | broadcast => exact .inl ⟨hno (fun _ _ _ _ hm => nomatch hm), onlyCancels_broadcast rfl⟩
  | withdraw => exact .inl ⟨hno (fun _ _ _ _ hm => nomatch hm), onlyCancels_withdraw rfl⟩
  | @move i x e m q hx hm =>
    by_cases hq : ∃ r, q = .done r
    · obtain ⟨r, rfl⟩ := hq
      obtain ⟨rfl, hh⟩ := hm.done
      exact .inr ⟨i, x, r, hx, hm.outcome?_eq_none hx, rfl, hh⟩
    · have hq' : ∀ r, q ≠ .done r := fun r hr => hq ⟨r, hr⟩
      refine .inl ⟨fun j => ?_, onlyCancels_of_eq (hm.broadcasts hq')⟩
      by_cases hij : i = j
      · subst hij
        rw [hm.outcome?_eq_none hx, Option.eq_none_iff_forall_ne_some]
        intro r hr
        rw [outcome?_eq_some_iff, hm.phase? hx] at hr
        exact hq' r (Option.some.inj hr)
      · rw [outcome?_put_ne hij, outcome?, hm.rest.1, outcome?]

theorem ended_of_done (hx : b.errands[i]? = some x) (hn : b.outcome? i = none) (r : Except Fault Datum) :
    ended b ((b.note x r).put i x (.done r)) = [(i, r)] := by
  have hlt : i < b.errands.length := (List.getElem?_eq_some_iff.mp hx).1
  have hr : ((b.note x r).put i x (.done r)).outcome? i = some r :=
    outcome?_eq_some_iff.mpr (phase?_put_self hx)
  refine filterMap_eq_singleton (a := i) (List.mem_range.mpr (by simpa [put, note] using hlt))
    List.nodup_range (by simp only [hn, hr]) fun j _ hj => ?_
  have hsame : ((b.note x r).put i x (.done r)).outcome? j = b.outcome? j := outcome?_put_ne hj.symm
  rw [hsame]
  cases b.outcome? j <;> rfl

/-! ### Records -/

theorem broadcasts_note : (b.note x r).broadcasts[g]? =
    if x.broadcast = some g then b.broadcasts[g]?.map (·.record r) else b.broadcasts[g]? := by
  rw [note]
  cases hx : x.broadcast with
  | none => simp
  | some g' =>
    by_cases hg : g' = g
    · simp [hg, List.getElem?_modify_eq]
    · simp [hg, List.getElem?_modify_ne]

/-- **A record stays**, and so does that its broadcast goes no further. Only its caller
cancels a broadcast. -/
theorem Step.exists_record (h : Step b e b') {w : Broadcast} (hw : b.broadcasts[g]? = some w) :
    ∃ w', b'.broadcasts[g]? = some w' ∧ (w.isAborted = true → w'.isAborted = true) ∧
      (w'.cancelled = true → w.cancelled = true ∨ e = .withdraw g) := by
  rcases h.ended_cases with ⟨-, hc⟩ | ⟨i, x, r, -, -, rfl, -⟩
  · obtain ⟨c, hc, rfl | ⟨rfl, he⟩⟩ := hc.kept g w hw
    · exact ⟨_, hc, id, .inl⟩
    · exact ⟨_, hc, fun _ => rfl, fun _ => .inr he⟩
  · show ∃ w', (b.note x r).broadcasts[g]? = some w' ∧ _
    rw [broadcasts_note, hw]
    by_cases hg : x.broadcast = some g
    · rw [if_pos hg]
      exact ⟨w.record r, rfl, fun ha => Broadcast.isAborted_record ha r,
        fun hc => .inl (Broadcast.cancelled_record r ▸ hc)⟩
    · rw [if_neg hg]
      exact ⟨w, rfl, id, .inl⟩

theorem isAborted_eq_true_iff :
    b.isAborted x = true ↔ ∃ g w, x.broadcast = some g ∧ b.broadcasts[g]? = some w ∧ w.isAborted = true := by
  rw [isAborted]
  cases x.broadcast with
  | none => simp
  | some g => simp [Option.any_eq_true]

theorem isAborted_of_isCancelled (hg : x.broadcast ≠ none) (h : b.isCancelled x = true) :
    b.isAborted x = true := by
  obtain ⟨g, hg⟩ := Option.ne_none_iff_exists'.mp hg
  simp only [isCancelled, hg, Option.any_eq_true] at h
  obtain ⟨w, hw, hc⟩ := h
  exact isAborted_eq_true_iff.mpr ⟨g, w, hg, hw, by rw [Broadcast.isAborted, hc, Bool.true_or]⟩

theorem IsNumbered.step (hb : b.IsNumbered) (h : Step b e b') : b'.IsNumbered := by
  intro i y g hy hg
  cases hx : b.errands[i]? with
  | none => exact ((h.begun hx hy).2 g hg).2
  | some x =>
    obtain ⟨z, hz, -, hxg, -⟩ := h.errand hx
    cases hy.symm.trans hz
    have hlt := hb i x g hx (hxg ▸ hg)
    obtain ⟨w', hw', -⟩ := h.exists_record (List.getElem?_eq_getElem hlt)
    exact (List.getElem?_eq_some_iff.mp hw').1

/-- **A broadcast that goes no further does not go on later.** -/
theorem IsStopped.step (hs : b.IsStopped i) (h : Step b e b') : b'.IsStopped i := by
  obtain ⟨x, hx, ha⟩ := hs
  obtain ⟨g, w, hg, hw, hwa⟩ := isAborted_eq_true_iff.mp ha
  obtain ⟨y, hy, -, hyg, -⟩ := h.errand hx
  obtain ⟨w', hw', hkeep, -⟩ := h.exists_record hw
  exact ⟨y, hy, isAborted_eq_true_iff.mpr ⟨g, w', hyg.trans hg, hw', hkeep hwa⟩⟩

/-- **No call is sent any more whose broadcast goes no further.** -/
theorem IsStopped.not_calling (hs : b.IsStopped i) (h : Step b e b')
    (hn : ∀ k, b.phase? i ≠ some (.calling k)) (k : Nat) : b'.phase? i ≠ some (.calling k) := by
  intro hk
  obtain ⟨x, hx, ha⟩ := hs
  rcases h.turn i with hsame | ⟨y, m, q, hy, hm, rfl⟩ | ⟨-, hb⟩
  · exact hn k (hsame ▸ hk)
  · cases hx.symm.trans hy
    cases (hm.phase? hx).symm.trans hk
    cases hm with
    | send _ ha' => cases ha.symm.trans ha'
  · rcases hb with hb | hb <;> cases hb.symm.trans hk

/-- **Only what its caller has cancelled says that it goes no further.** -/
theorem IsTruthful.step (ht : b.IsTruthful) (h : Step b e b') (he : e.IsHonest) : b'.IsTruthful := by
  intro g w' hw' hf
  rcases h.ended_cases with ⟨-, hc⟩ | ⟨i, x, r, -, -, rfl, hh⟩
  · cases hw : b.broadcasts[g]? with
    | none => cases (hc.fresh g w' hw hw').symm.trans hf
    | some w =>
      obtain ⟨c, hc, hcan⟩ := hc.kept g w hw
      cases hw'.symm.trans hc
      rcases hcan with rfl | ⟨rfl, -⟩
      · exact ht g w hw hf
      · rfl
  · have hnote : (b.note x r).broadcasts[g]? = some w' := hw'
    rw [broadcasts_note] at hnote
    by_cases hg : x.broadcast = some g
    · rw [if_pos hg, Option.map_eq_some_iff] at hnote
      obtain ⟨w, hw, rfl⟩ := hnote
      rw [Broadcast.cancelled_record]
      rcases Broadcast.fault_record hf with hf | ⟨hf, hr⟩
      · exact ht g w hw hf
      · obtain ⟨g', v, hg', hv, hva⟩ := isAborted_eq_true_iff.mp (hh he hr)
        cases hg.symm.trans hg'
        cases hw.symm.trans hv
        simpa [Broadcast.isAborted, hf] using hva
    · rw [if_neg hg] at hnote
      exact ht g w' hnote hf

/-! ### The tally -/

theorem length_parts {g : Nat} : (parts addresses g).length = addresses.length := List.length_map _

theorem tally_nil (hb : b.IsNumbered) {c : Bool} (h : Step b (.broadcast addresses c) b') :
    Tally b' b.broadcasts.length b.errands.length addresses [] := by
  cases h with
  | move _ hm => cases hm
  | broadcast =>
    refine ⟨fun n a ha => ?_, fun i x hx hg => ?_, List.nodup_nil, fun i r => ⟨fun h => ?_, ?_⟩, ?_⟩
    · refine ⟨{ address := a, broadcast := some b.broadcasts.length, phase := .fresh }, ?_, rfl, rfl⟩
      show (b.errands ++ parts addresses b.broadcasts.length)[b.errands.length + n]? = _
      rw [List.getElem?_append_right (Nat.le_add_right _ _), Nat.add_sub_cancel_left, parts,
        List.getElem?_map, ha, Option.map_some]
    · have hlt := (List.getElem?_eq_some_iff.mp hx).1
      simp only [List.length_append, length_parts] at hlt
      refine List.mem_range'_1.mpr ⟨?_, hlt⟩
      by_contra hle
      have hx : b.errands[i]? = some x := (List.getElem?_append_left (Nat.lt_of_not_le hle)).symm.trans hx
      exact Nat.lt_irrefl _ (hb i x _ hx hg)
    · cases h
    · rintro ⟨hi, hr⟩
      obtain ⟨x, hx, hp⟩ := phase?_eq_some_iff.mp (outcome?_eq_some_iff.mp hr)
      have hx : (b.errands ++ parts addresses b.broadcasts.length)[i]? = some x := hx
      rw [List.getElem?_append_right (List.mem_range'_1.mp hi).1] at hx
      obtain ⟨a, -, rfl⟩ := List.mem_map.mp (List.mem_of_getElem? hx)
      cases hp
    · exact ⟨_, List.getElem?_concat_length, Broadcast.tells_nil⟩

theorem Tally.isPart (ht : Tally b g first addresses told) (hi : i ∈ List.range' first addresses.length) :
    ∃ x, b.errands[i]? = some x ∧ x.broadcast = some g := by
  obtain ⟨hle, hlt⟩ := List.mem_range'_1.mp hi
  have hn : i - first < addresses.length := by omega
  obtain ⟨x, hx, -, hg⟩ := ht.parts (i - first) _ (List.getElem?_eq_getElem hn)
  rw [Nat.add_sub_cancel' hle] at hx
  exact ⟨x, hx, hg⟩

theorem Tally.parts_step (ht : Tally b g first addresses told) (h : Step b e b') {n : Nat} {a : String}
    (ha : addresses[n]? = some a) :
    ∃ x, b'.errands[first + n]? = some x ∧ x.address = a ∧ x.broadcast = some g := by
  obtain ⟨x, hx, rfl, hg⟩ := ht.parts n a ha
  obtain ⟨y, hy, hya, hyg, -⟩ := h.errand hx
  exact ⟨y, hy, hya, hyg.trans hg⟩

theorem Tally.only_step (ht : Tally b g first addresses told) (h : Step b e b')
    (hy : b'.errands[i]? = some y) (hg : y.broadcast = some g) :
    i ∈ List.range' first addresses.length := by
  cases hx : b.errands[i]? with
  | none =>
    obtain ⟨w, hw, -⟩ := ht.record
    exact absurd ((h.begun hx hy).2 g hg).1 (Nat.ne_of_lt (List.getElem?_eq_some_iff.mp hw).1)
  | some x =>
    obtain ⟨z, hz, -, hzg, -⟩ := h.errand hx
    cases hy.symm.trans hz
    exact ht.only i x hx (hzg ▸ hg)

/-- The outcome of a call is told after all others, if the call is a part of the broadcast. -/
theorem Tally.mem_step (ht : Tally b g first addresses told) (hx : b.errands[i]? = some x)
    (hn : b.outcome? i = none) (r : Except Fault Datum) (j : Nat) (s : Except Fault Datum) :
    (j, s) ∈ told ++ [(i, r)].filter (fun p => p.1 ∈ List.range' first addresses.length) ↔
      j ∈ List.range' first addresses.length ∧
        ((b.note x r).put i x (.done r)).outcome? j = some s := by
  have hself : ((b.note x r).put i x (.done r)).outcome? i = some r :=
    outcome?_eq_some_iff.mpr (phase?_put_self hx)
  have hnew : (i, s) ∉ told := by
    intro hm
    cases hn.symm.trans ((ht.mem i s).mp hm).2
  rw [List.mem_append, List.mem_filter, List.mem_singleton, decide_eq_true_iff]
  by_cases hij : i = j
  · subst hij
    rw [hself, or_iff_right hnew, and_comm, Prod.mk.injEq, Option.some.injEq, eq_comm (a := s)]
    simp only [true_and]
  · have hother : ((b.note x r).put i x (.done r)).outcome? j = b.outcome? j := outcome?_put_ne hij
    rw [hother, ht.mem j s, Prod.mk.injEq]
    simp only [Ne.symm hij, false_and, or_false]

/-- **What a broadcast has on record is what its calls told, also after the next step.** -/
theorem Tally.step (ht : Tally b g first addresses told) (h : Step b e b') :
    Tally b' g first addresses
      (told ++ (ended b b').filter fun p => p.1 ∈ List.range' first addresses.length) := by
  obtain ⟨w, hw, htells⟩ := ht.record
  rcases h.ended_cases with ⟨hsame, hc⟩ | ⟨i, x, r, hx, hn, rfl, -⟩
  · have hnil : ended b b' = [] := ended_eq_nil fun i hi => (hsame i).trans hi
    obtain ⟨c, hc, -⟩ := hc.kept g w hw
    rw [hnil, List.filter_nil, List.append_nil]
    exact ⟨fun _ _ => ht.parts_step h, fun _ _ => ht.only_step h, ht.nodup,
      fun i r => hsame i ▸ ht.mem i r, _, hc, ⟨htells.replied, htells.written, htells.fault⟩⟩
  · rw [ended_of_done hx hn r]
    refine ⟨fun _ _ => ht.parts_step h, fun _ _ => ht.only_step h, ?_, ht.mem_step hx hn r, ?_⟩
    · have hnew : i ∉ told.map (·.1) := by
        intro hi
        obtain ⟨⟨j, s⟩, hm, rfl⟩ := List.mem_map.mp hi
        cases hn.symm.trans ((ht.mem j s).mp hm).2
      rw [List.map_append]
      refine List.nodup_append.mpr ⟨ht.nodup, ?_, fun j hj l hl => ?_⟩
      · have hsub := List.filter_sublist (p := fun p => p.1 ∈ List.range' first addresses.length)
          (l := [(i, r)])
        exact (List.nodup_singleton i).sublist (hsub.map Prod.fst)
      · obtain ⟨p, hp, rfl⟩ := List.mem_map.mp hl
        rw [List.mem_singleton.mp (List.mem_filter.mp hp).1]
        rintro rfl
        exact hnew hj
    · have hrecord : ((b.note x r).put i x (.done r)).broadcasts[g]? =
          if x.broadcast = some g then some (w.record r) else some w := by
        have hnote := @broadcasts_note b g x r
        rw [hw, Option.map_some] at hnote
        exact hnote
      rw [hrecord]
      by_cases hi : i ∈ List.range' first addresses.length
      · obtain ⟨z, hz, hg⟩ := ht.isPart hi
        cases hx.symm.trans hz
        rw [List.filter_cons_of_pos (by simpa using hi), List.filter_nil, if_pos hg, List.map_append]
        exact ⟨_, rfl, htells.record r⟩
      · have hg : x.broadcast ≠ some g := fun hg => hi (ht.only i x hx hg)
        rw [List.filter_cons_of_neg (by simpa using hi), List.filter_nil, List.append_nil, if_neg hg]
        exact ⟨w, rfl, htells⟩

theorem Tally.all_outcomes_iff (ht : Tally b g first addresses told) :
    (b.errandsOf g).all (·.outcome?.isSome) = true ↔
      ∀ i ∈ List.range' first addresses.length, i ∈ told.map (·.1) := by
  simp only [errandsOf, List.all_eq_true, List.mem_filter, beq_iff_eq]
  constructor
  · intro hall i hi
    obtain ⟨x, hx, hg⟩ := ht.isPart hi
    obtain ⟨r, hr⟩ := Option.isSome_iff_exists.mp (hall x ⟨List.mem_of_getElem? hx, hg⟩)
    have hout : b.outcome? i = some r := by rw [outcome?, hx, Option.bind_some, hr]
    exact List.mem_map.mpr ⟨(i, r), (ht.mem i r).mpr ⟨hi, hout⟩, rfl⟩
  · rintro hall x ⟨hx, hg⟩
    obtain ⟨i, hx⟩ := List.mem_iff_getElem?.mp hx
    obtain ⟨⟨i, r⟩, hm, rfl⟩ := List.mem_map.mp (hall i (ht.only i x hx hg))
    have hout := ((ht.mem i r).mp hm).2
    rw [outcome?, hx, Option.bind_some] at hout
    rw [hout, Option.isSome_some]

/-- **A broadcast has its outcome when all its calls have told theirs**: it succeeds if no
call told a fault, and else it fails with the first that was told. -/
theorem Tally.broadcastOutcome?_eq_some_iff (ht : Tally b g first addresses told)
    {res : Except Fault Unit} :
    b.broadcastOutcome? g = some res ↔
      (∀ i ∈ List.range' first addresses.length, i ∈ told.map (·.1)) ∧
        res = verdict (told.map (·.2)) := by
  obtain ⟨w, hw, htells⟩ := ht.record
  rw [broadcastOutcome?, hw, Option.bind_some, htells.fault, Option.ite_none_right_eq_some,
    ht.all_outcomes_iff, Option.some.injEq, eq_comm (b := res)]
  unfold verdict
  cases (faults (told.map (·.2))).head? <;> exact Iff.rfl

theorem Tally.told_iff (ht : Tally b g first addresses told) :
    (∀ i ∈ List.range' first addresses.length, i ∈ told.map (·.1)) ↔
      ∀ i ∈ List.range' first addresses.length, (b.outcome? i).isSome = true := by
  refine forall₂_congr fun i hi => ?_
  rw [Option.isSome_iff_exists]
  constructor
  · intro hm
    obtain ⟨⟨i, r⟩, htold, rfl⟩ := List.mem_map.mp hm
    exact ⟨r, ((ht.mem i r).mp htold).2⟩
  · rintro ⟨r, hr⟩
    exact List.mem_map.mpr ⟨(i, r), (ht.mem i r).mpr ⟨hi, hr⟩, rfl⟩

theorem Tally.succeeds_iff (ht : Tally b g first addresses told) :
    b.broadcastOutcome? g = some (.ok ()) ↔
      ∀ i ∈ List.range' first addresses.length, ∃ d, b.outcome? i = some (.ok d) := by
  rw [ht.broadcastOutcome?_eq_some_iff, eq_comm (b := verdict _), verdict_eq_ok_iff, ht.told_iff]
  constructor
  · rintro ⟨hall, hok⟩ i hi
    obtain ⟨r, hr⟩ := Option.isSome_iff_exists.mp (hall i hi)
    obtain ⟨d, rfl⟩ := hok r (List.mem_map.mpr ⟨(i, r), (ht.mem i r).mpr ⟨hi, hr⟩, rfl⟩)
    exact ⟨d, hr⟩
  · refine fun hok => ⟨fun i hi => ?_, fun r hr => ?_⟩
    · obtain ⟨d, hd⟩ := hok i hi
      rw [hd, Option.isSome_some]
    · obtain ⟨⟨i, r⟩, hm, rfl⟩ := List.mem_map.mp hr
      obtain ⟨hi, hr⟩ := (ht.mem i r).mp hm
      obtain ⟨d, hd⟩ := hok i hi
      exact ⟨d, Option.some.inj (hr.symm.trans hd)⟩

/-- A broadcast has no outcome while a call of it is on its way. -/
theorem Tally.broadcastOutcome?_eq_none (ht : Tally b g first addresses told)
    (hi : i ∈ List.range' first addresses.length) (hk : b.phase? i = some (.calling k)) :
    b.broadcastOutcome? g = none := by
  refine Option.eq_none_iff_forall_ne_some.mpr fun res hres => ?_
  have hall := ht.told_iff.mp (ht.broadcastOutcome?_eq_some_iff.mp hres).1
  obtain ⟨r, hr⟩ := Option.isSome_iff_exists.mp (hall i hi)
  cases hk.symm.trans (outcome?_eq_some_iff.mp hr)

/-- A broadcast stops with the first fault that is told. -/
theorem Tally.isStopped (ht : Tally b g first addresses told) {why : Fault}
    (hw : (i, .error why) ∈ told) (hj : j ∈ List.range' first addresses.length) : b.IsStopped j := by
  obtain ⟨x, hx, hg⟩ := ht.isPart hj
  obtain ⟨w, hwr, htells⟩ := ht.record
  have hfault : w.fault ≠ none := by
    rw [htells.fault]
    intro hnone
    have hok := (List.filterMap_eq_nil_iff.mp (List.head?_eq_none_iff.mp hnone)) _
      (List.mem_map_of_mem (f := (·.2)) hw)
    cases hok
  refine ⟨x, hx, isAborted_eq_true_iff.mpr ⟨g, w, hg, hwr, ?_⟩⟩
  rw [Broadcast.isAborted, Option.isSome_iff_ne_none.mpr hfault, Bool.or_true]

/-- A broadcast that fails because it goes no further was cancelled by its caller. -/
theorem Tally.cancelled (ht : Tally b g first addresses told) (hb : b.IsTruthful)
    (h : b.broadcastOutcome? g = some (.error (.cancelled .broadcast))) :
    ∃ w, b.broadcasts[g]? = some w ∧ w.cancelled = true := by
  obtain ⟨w, hw, htells⟩ := ht.record
  refine ⟨w, hw, hb g w hw ?_⟩
  obtain ⟨-, hv⟩ := ht.broadcastOutcome?_eq_some_iff.mp h
  rw [htells.fault]
  rw [verdict] at hv
  cases hf : (faults (told.map (·.2))).head? with
  | none =>
    rw [hf] at hv
    cases hv
  | some why =>
    rw [hf] at hv
    cases hv
    rfl

end Balancer
end Callwire
