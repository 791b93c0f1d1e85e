/-
# A client without one of its calls

A client without a call is the client as if the call had never been made: it has neither
the call nor an entry for it. What is nothing to the call does to the client without it
what it does to the client: whatever the other callers and the peer do, it makes no
difference whether the call is forgotten before or after. An answer to the call is one to
nobody in the client without it. Turns are another matter: while the call is being sent, the
others wait.

Key definitions: `Client.without`, `Event.isBeside`, `Client.Spares`.
Key theorems: `Client.step_without`, `Client.apply_without`.
-/
import Callwire.Proofs.Client.History

namespace Callwire
namespace Client

/-- The client as if a call had never been made. -/
def without (c : Client) (id : Nat) : Client :=
  { c with
    calls := c.calls.filter (·.id != id)
    pending := c.pending.filter (·.2 != id) }

/-- The event is nothing to a call: it is not the call that is begun, given up, gets a number
or is handed over. -/
def Event.isBeside (id : Nat) : Event → Bool
  | .begin i _ _ | .abandon i | .register i | .post i => i != id
  | _ => true

/-- The event has to do with whose turn it is: a call gets its turn or is done with it, or
nobody is to have one any more. -/
def Event.isTurn : Event → Bool
  | .register _ | .post _ | .release => true
  | _ => false

variable {c c' : Client} {e : Event} {id i : Nat} {x : Call} {f : Call → Call}

/-- A call is not being sent. -/
def Unsent (c : Client) (id : Nat) : Prop := ∀ x ∈ c.calls, x.id = id → ∀ f, x.phase ≠ .sending f

/-- If a call has an entry, its number is its own, and the event hands nothing over. -/
def Spares (c : Client) (id : Nat) (e : Event) : Prop :=
  ∀ p ∈ c.pending, p.2 = id → (∀ i, e ≠ .post i) ∧ ∀ q ∈ c.pending, q.1 = p.1 → q.2 = id

/-! ### What a client is made of -/

theorem call?_without (hi : i ≠ id) : (c.without id).call? i = c.call? i := by
  rw [call?, call?, without, List.find?_filter]
  congr 1
  funext x
  by_cases hx : x.id = i
  · simp [hx, hi]
  · simp [hx]

theorem without_update (hf : ∀ y, (f y).id = y.id) :
    (c.update i f).without id = (c.without id).update i f := by
  have hid : ∀ y : Call, (if y.id = i then f y else y).id = y.id := by
    intro y
    split
    · exact hf y
    · rfl
  have hcalls : ((c.update i f).without id).calls = ((c.without id).update i f).calls := by
    simp only [without, update, List.filter_map]
    congr 2
    funext y
    simp only [Function.comp_apply, hid]
  exact congrArg (fun calls => { c with calls := calls, pending := c.pending.filter (·.2 != id) }) hcalls

theorem without_complete (o : Except Fault Bytes) :
    (c.complete i o).without id = (c.without id).complete i o :=
  without_update fun _ => rfl

theorem update_without (f : Call → Call) : (c.without id).update id f = c.without id := by
  have hcalls : ((c.without id).update id f).calls = (c.without id).calls := by
    refine (List.map_congr_left fun x hx => ?_).trans (List.map_id _)
    have hne : x.id ≠ id := bne_iff_ne.mp (List.mem_filter.mp hx).2
    exact if_neg hne
  exact congrArg (fun calls => { c with calls := calls, pending := c.pending.filter (·.2 != id) }) hcalls

theorem without_forget (s : UInt64) : (c.forget s).without id = (c.without id).forget s := by
  have hpending : (c.pending.filter (·.1 != s)).filter (·.2 != id) =
      (c.pending.filter (·.2 != id)).filter (·.1 != s) := List.filter_comm _ _ _
  simp only [without, forget, hpending]

theorem without_terminate : c.terminate.without id = (c.without id).terminate := by
  have hcalls : (c.calls.map c.terminated).filter (·.id != id) =
      (c.calls.filter (·.id != id)).map (c.without id).terminated := by
    have hid : (fun x : Call => x.id != id) ∘ c.terminated = fun x => x.id != id := by
      funext x
      simp only [Function.comp_apply, id_terminated]
    rw [List.filter_map, hid]
    refine List.map_congr_left fun x hx => ?_
    have hne : x.id ≠ id := by simpa using (List.mem_filter.mp hx).2
    have hmem : (c.pending.map (·.2)).contains x.id = ((c.without id).pending.map (·.2)).contains x.id := by
      rw [Bool.eq_iff_iff]
      simp only [List.contains_iff_mem, List.mem_map, without, List.mem_filter, bne_iff_ne]
      constructor
      · rintro ⟨p, hp, hpx⟩
        exact ⟨p, ⟨hp, hpx ▸ hne⟩, hpx⟩
      · rintro ⟨p, ⟨hp, -⟩, hpx⟩
        exact ⟨p, hp, hpx⟩
    simp only [terminated, hmem]
  exact congrArg (fun calls => { c with shutdown := true, pending := [], calls := calls }) hcalls

theorem without_enter (hi : i ≠ id) (target : String) (body : Bytes) :
    (c.enter i target body).without id = (c.without id).enter i target body := by
  have hpending : (c.pending ++ [(c.nextSeq, i)]).filter (·.2 != id) =
      c.pending.filter (·.2 != id) ++ [(c.nextSeq, i)] := by
    simp [List.filter_append, hi]
  unfold enter
  split
  · rename_i hc
    rw [if_pos (by exact hc), without_update, without_complete]
    exact fun _ => rfl
  · rename_i hc
    rw [if_neg (by exact hc)]
    rw [without_update]
    · simp only [without, hpending]
    · exact fun _ => rfl

theorem without_withdraw {s : UInt64} (hl : (c.without id).pending.lookup s = c.pending.lookup s)
    (why : Fault) : (c.withdraw i s why).without id = (c.without id).withdraw i s why := by
  have hsent : (c.update i fun x => { x with phase := .sent }).without id =
      (c.without id).update i fun x => { x with phase := .sent } := without_update fun _ => rfl
  rw [withdraw, withdraw, hl]
  split
  · rw [without_complete, without_forget, hsent]
  · exact hsent

theorem isSending_without (h : c.Unsent id) : (c.without id).isSending = c.isSending := by
  rw [isSending, isSending, without, List.any_filter]
  refine Bool.eq_iff_iff.mpr ?_
  simp only [List.any_eq_true, Bool.and_eq_true, bne_iff_ne]
  refine exists_congr fun x => and_congr_right fun hx => and_iff_right_of_imp fun hs hid => ?_
  cases hp : x.phase with
  | sending f => exact h x hx hid f hp
  | _ => simp [hp] at hs

theorem lookup_filter {s : UInt64} {ps : List (UInt64 × Nat)} (hs : ∀ p ∈ ps, p.2 = id → s ≠ p.1) :
    (ps.filter (·.2 != id)).lookup s = ps.lookup s := by
  induction ps with
  | nil => rfl
  | cons p ps ih =>
    rw [List.forall_mem_cons] at hs
    by_cases hp : p.2 = id
    · have hne : (s == p.1) = false := beq_eq_false_iff_ne.mpr (hs.1 hp)
      rw [List.filter_cons_of_neg (by simp [hp]), ih hs.2, List.lookup_cons, hne]
    · rw [List.filter_cons_of_pos (by simpa using hp), List.lookup_cons, List.lookup_cons, ih hs.2]

theorem forget_without {s : UInt64} (hs : ∀ q ∈ c.pending, q.1 = s → q.2 = id) :
    (c.without id).forget s = c.without id := by
  have hpending : (c.without id).pending.filter (·.1 != s) = (c.without id).pending := by
    refine List.filter_eq_self.mpr fun q hq => bne_iff_ne.mpr fun hqs => ?_
    obtain ⟨hq, hne⟩ := List.mem_filter.mp hq
    exact bne_iff_ne.mp hne (hs q hq hqs)
  exact congrArg (fun pending => { c.without id with pending := pending }) hpending

/-- An answer to the call is one to nobody in the client without it. -/
theorem without_deliver_own {h : Header} (hs : ∀ q ∈ c.pending, q.1 = h.seq → q.2 = id) (body : Bytes) :
    (c.deliver h body).without id = (c.without id).deliver h body := by
  have hl : (c.without id).pending.lookup h.seq = none := by
    refine List.lookup_eq_none_iff.mpr fun q hq => ?_
    obtain ⟨hq, hne⟩ := List.mem_filter.mp hq
    have hqs : q.1 ≠ h.seq := fun hqs => bne_iff_ne.mp hne (hs q hq hqs)
    simpa using hqs.symm
  rw [deliver, deliver, hl]
  cases hc : c.pending.lookup h.seq with
  | none => rfl
  | some i =>
    obtain ⟨p, q, hpq, -⟩ := List.lookup_eq_some_iff.mp hc
    obtain rfl : i = id := hs (h.seq, i) (by simp [hpq]) rfl
    simp only [without_complete, without_forget, forget_without hs]
    exact update_without _

theorem without_withdraw_own {s : UInt64} (hs : ∀ q ∈ c.pending, q.1 = s → q.2 = id) (why : Fault) :
    (c.withdraw id s why).without id = c.without id := by
  have hsent : (c.update id fun x => { x with phase := .sent }).without id = c.without id :=
    (without_update fun _ => by rfl).trans (update_without _)
  rw [withdraw]
  split
  · rw [without_complete, without_forget, hsent, forget_without hs]
    exact update_without _
  · exact hsent

theorem without_deliver {h : Header}
    (hs : ∀ p ∈ c.pending, p.2 = id → ∀ q ∈ c.pending, q.1 = p.1 → q.2 = id) (body : Bytes) :
    (c.deliver h body).without id = (c.without id).deliver h body := by
  by_cases hmine : (h.seq, id) ∈ c.pending
  · exact without_deliver_own (hs _ hmine rfl) body
  · have hl : (c.without id).pending.lookup h.seq = c.pending.lookup h.seq := by
      refine lookup_filter ?_
      rintro ⟨s, i⟩ hp rfl rfl
      exact hmine hp
    rw [deliver, deliver, hl]
    cases c.pending.lookup h.seq with
    | none => rfl
    | some i => simp only [without_complete, without_forget]

/-! ### What happens beside a call -/

theorem options_without : (c.without id).options = c.options := rfl

theorem without_abandon (x : Call) : (c.abandon x).without id = (c.without id).abandon x := by
  have hcalls : (c.calls.filter (·.id != x.id)).filter (·.id != id) =
      (c.calls.filter (·.id != id)).filter (·.id != x.id) := List.filter_comm _ _ _
  have hpending : (c.pending.filter (·.1 != x.seq)).filter (·.2 != id) =
      (c.pending.filter (·.2 != id)).filter (·.1 != x.seq) := List.filter_comm _ _ _
  simp only [abandon, without, forget, hcalls, hpending]

theorem without_readFrame (hs : c.Spares id .read) :
    (c.without id).readFrame = c.readFrame.map (·.without id) := by
  have hend : ∀ b, ({ c with buffer := b }.endReading).without id =
      { c.without id with buffer := b }.endReading := fun b =>
    congrArg (fun d : Client => { d with receiving := false }) without_terminate
  unfold readFrame
  simp only [show (c.without id).buffer = c.buffer from rfl, show (c.without id).ended = c.ended from rfl]
  cases hn : c.buffer.next with
  | mk next b =>
    match next with
    | .error why => exact congrArg some (hend b).symm
    | .ok none =>
      dsimp only
      by_cases he : c.ended = true
      · rw [if_pos he, if_pos he]
        exact congrArg some (hend b).symm
      · rw [if_neg he, if_neg he]
        rfl
    | .ok (some f) =>
      simp only [options_without]
      cases hh : f.readHeader c.options.codec with
      | error why => exact congrArg some (hend b).symm
      | ok h =>
        have hown : ∀ p ∈ c.pending, p.2 = id → ∀ q ∈ c.pending, q.1 = p.1 → q.2 = id :=
          fun p hp hid => (hs p hp hid).2
        exact congrArg some (without_deliver (c := { c with buffer := b }) hown f.body).symm

/-- **Whatever happens beside a call does the same without it.** -/
theorem step_without (hb : e.isBeside id = true) (hu : e.isTurn = true → c.Unsent id)
    (hs : c.Spares id e) : (c.without id).step e = (c.step e).map (·.without id) := by
  have hne : ∀ i, e = .abandon i ∨ e = .register i ∨ e = .post i ∨ (∃ target args, e = .begin i target args) →
      i ≠ id := by
    rintro i (rfl | rfl | rfl | ⟨target, args, rfl⟩) <;> simpa [Event.isBeside] using hb
  cases e with
  | begin i target args =>
    have hi : i ≠ id := hne i (.inr (.inr (.inr ⟨target, args, rfl⟩)))
    simp only [step, call?_without hi, options_without]
    cases c.call? i with
    | some x => rfl
    | none => cases c.options.codec.encode args <;> simp [without, List.filter_append, hi]
  | abandon i =>
    have hi : i ≠ id := hne i (.inl rfl)
    simp only [step, call?_without hi, Option.map_map]
    congr 1
    funext x
    exact (without_abandon x).symm
  | close | hangUp | lose => rfl
  | receive bs =>
    simp only [step, show (c.without id).ended = c.ended from rfl]
    cases c.ended <;> rfl
  | register i =>
    have hi : i ≠ id := hne i (.inr (.inl rfl))
    simp only [step, call?_without hi, isSending_without (hu rfl)]
    split
    · cases c.isSending with
      | true => rfl
      | false => exact congrArg some (without_enter hi _ _).symm
    · rfl
  | post i =>
    have hi : i ≠ id := hne i (.inr (.inr (.inl rfl)))
    have hpending : (c.without id).pending = c.pending :=
      List.filter_eq_self.mpr fun p hp => bne_iff_ne.mpr fun hid => (hs p hp hid).1 i rfl
    have hsent : (c.update i fun x => { x with phase := .sent }).without id =
        (c.without id).update i fun x => { x with phase := .sent } := without_update fun _ => rfl
    have hwithdraw : ∀ seq why, (c.withdraw i seq why).without id = (c.without id).withdraw i seq why :=
      fun seq => without_withdraw (by rw [hpending])
    simp only [step, call?_without hi, show (c.without id).outbox = c.outbox from rfl]
    split
    · exact congrArg some (hwithdraw _ _).symm
    · rename_i target seq f out hx
      cases c.outbox.send f with
      | full => rfl
      | queued o => exact congrArg (fun d : Client => some { d with outbox := o }) hsent.symm
      | refused => exact congrArg some (hwithdraw _ _).symm
    · rfl
  | read =>
    by_cases hr : c.receiving = true
    · have hr' : (c.without id).receiving = true := hr
      rw [step, step, if_pos hr, if_pos hr', without_readFrame hs]
    · have hr' : ¬ (c.without id).receiving = true := hr
      rw [step, step, if_neg hr, if_neg hr']
      rfl
  | stop =>
    by_cases hc : c.closing = true ∧ c.receiving = true
    · have hc' : (c.without id).closing = true ∧ (c.without id).receiving = true := hc
      rw [step, step, if_pos hc, if_pos hc']
      exact congrArg (fun d : Client => some { d with receiving := false }) without_terminate.symm
    · have hc' : ¬ ((c.without id).closing = true ∧ (c.without id).receiving = true) := hc
      rw [step, step, if_neg hc, if_neg hc']
      rfl
  | release =>
    have hsending : (c.without id).isSending = c.isSending := isSending_without (hu rfl)
    by_cases hr : c.closing = true ∧ c.shutdown = true ∧ ¬ c.isSending = true ∧ ¬ c.outbox.released = true
    · have hr' : (c.without id).closing = true ∧ (c.without id).shutdown = true ∧
          ¬ (c.without id).isSending = true ∧ ¬ (c.without id).outbox.released = true := hsending ▸ hr
      rw [step, step, if_pos hr, if_pos hr']
      rfl
    · have hr' : ¬ ((c.without id).closing = true ∧ (c.without id).shutdown = true ∧
          ¬ (c.without id).isSending = true ∧ ¬ (c.without id).outbox.released = true) := hsending ▸ hr
      rw [step, step, if_neg hr, if_neg hr']
      rfl
  | watch =>
    by_cases hw : c.outbox.state = .failed ∧ ¬ c.shutdown = true
    · have hw' : (c.without id).outbox.state = .failed ∧ ¬ (c.without id).shutdown = true := hw
      rw [step, step, if_pos hw, if_pos hw']
      exact congrArg some without_terminate.symm
    · have hw' : ¬ ((c.without id).outbox.state = .failed ∧ ¬ (c.without id).shutdown = true) := hw
      rw [step, step, if_neg hw, if_neg hw']
      rfl
  | write w =>
    simp only [step, show (c.without id).outbox = c.outbox from rfl,
      show (c.without id).lost = c.lost from rfl]
    split
    · split
      · cases c.outbox.step _ <;> rfl
      · rfl
    · split
      · cases c.outbox.step _ <;> rfl
      · rfl
    · cases c.outbox.step _ <;> rfl

theorem apply_without (hb : e.isBeside id = true) (hu : e.isTurn = true → c.Unsent id)
    (hs : c.Spares id e) : (c.apply e).without id = (c.without id).apply e := by
  rw [apply, apply, step_without hb hu hs]
  cases c.step e <;> rfl

/-! ### A call that is not pending -/

/-- No entry is one of a call. -/
def Vacant (c : Client) (id : Nat) : Prop := ∀ p ∈ c.pending, p.2 ≠ id

theorem Vacant.spares (h : c.Vacant id) : c.Spares id e := fun p hp hid => absurd hid (h p hp)

theorem Vacant.pending (h : c.Vacant id) : (c.without id).pending = c.pending :=
  List.filter_eq_self.mpr fun p hp => bne_iff_ne.mpr (h p hp)

theorem Vacant.without_eq_self (h : c.Vacant id) (hn : c.call? id = none) : c.without id = c := by
  have hcalls : c.calls.filter (·.id != id) = c.calls :=
    List.filter_eq_self.mpr fun x hx => bne_iff_ne.mpr (by simpa using List.find?_eq_none.mp hn x hx)
  rw [without, hcalls, show c.pending.filter (·.2 != id) = c.pending from h.pending]

theorem Ordered.unsent (ho : Ordered c) (hx : ∀ x, c.call? id = some x → ∀ f, x.phase ≠ .sending f) :
    c.Unsent id :=
  fun x hm hid => hx x (hid ▸ call?_of_mem ho.ids hm)

theorem call?_begin_ne (hi : i ≠ id) (target : String) (args : Datum) :
    Client.call? { c with calls := c.calls ++ [opening c.options.codec i target args] } id = c.call? id := by
  show List.find? _ (c.calls ++ _) = _
  rw [List.find?_append, List.find?_singleton, id_opening, if_neg (by simpa using hi), Option.or_none]
  rfl

theorem call?_abandon_ne (hi : x.id ≠ id) : (c.abandon x).call? id = c.call? id := by
  show (c.calls.filter (·.id != x.id)).find? _ = _
  rw [List.find?_filter]
  congr 1
  funext y
  by_cases hy : y.id = id
  · simp [hy, Ne.symm hi]
  · simp [hy]

theorem Vacant.call?_terminated (h : c.Vacant id) {d : Client} (hd : d.calls = c.calls.map c.terminated) :
    d.call? id = c.call? id := by
  rw [call?_map id_terminated hd]
  cases hx : c.call? id with
  | none => rfl
  | some x =>
    have hno : ¬ (c.pending.map (·.2)).contains x.id = true := by
      rw [(mem_of_call? hx).2, List.contains_iff_mem, List.mem_map]
      rintro ⟨p, hp, hid⟩
      exact h p hp hid
    rw [Option.map_some, terminated, if_neg hno]

/-- **What happens beside a call that is not pending leaves it as it is.** -/
theorem Vacant.step (hs : Step c e c') (ho : Ordered c) (hb : e.isBeside id = true) (h : c.Vacant id) :
    c'.call? id = c.call? id ∧ c'.Vacant id := by
  refine ⟨?_, fun p hp => ?_⟩
  · cases hs with
    | @begin i target args _ => exact call?_begin_ne (by simpa [Event.isBeside] using hb) target args
    | @abandon i x hx =>
      have hi : i ≠ id := by simpa [Event.isBeside] using hb
      exact call?_abandon_ne ((mem_of_call? hx).2 ▸ hi)
    | close | receive _ | hangUp | lose | release _ _ _ | write _ => rfl
    | @register i x body hx _ _ =>
      have hi : i ≠ id := by simpa [Event.isBeside] using hb
      exact call?_enter_ne (Ne.symm hi)
    | @post i x f o hx _ _ =>
      have hi : i ≠ id := by simpa [Event.isBeside] using hb
      exact call?_sent_ne (Ne.symm hi)
    | @unsent i x frame why hx _ _ =>
      have hi : i ≠ id := by simpa [Event.isBeside] using hb
      exact call?_withdraw_ne (Ne.symm hi) x.seq why
    | @deliver f b hd _ _ _ =>
      have hlookup : ∀ i, c.pending.lookup hd.seq = some i → id ≠ i := fun i hl =>
        Ne.symm (h _ (ho.call?_lookup hl).1)
      exact call?_deliver_ne (c := { c with buffer := b }) hlookup f.body
    | endReading _ _ | stop _ _ | watch _ => exact h.call?_terminated rfl
  · rcases mem_of_pending hs hp with hp | hp
    · exact h p hp
    · obtain ⟨rfl, -⟩ := entering_cases hp
      simpa [Event.isBeside] using hb

/-- **Whatever happens beside a call that is not pending and not being sent leaves it as it
is, and does the same without it.** -/
theorem Vacant.foldl {es : List Event} (ho : Ordered c) (h : c.Vacant id)
    (hx : ∀ x, c.call? id = some x → ∀ f, x.phase ≠ .sending f)
    (hes : ∀ e ∈ es, e.isBeside id = true) :
    (es.foldl apply c).without id = es.foldl apply (c.without id) ∧
      (es.foldl apply c).call? id = c.call? id ∧ (es.foldl apply c).Vacant id := by
  induction es generalizing c with
  | nil => exact ⟨rfl, rfl, h⟩
  | cons e es ih =>
    rw [List.forall_mem_cons] at hes
    have hone : (c.apply e).call? id = c.call? id ∧ (c.apply e).Vacant id := by
      rw [apply]
      cases hs : c.step e with
      | none => exact ⟨rfl, h⟩
      | some c' => exact h.step (.of_step hs) ho hes.1
    have hordered : Ordered (c.apply e) := ho.foldl [e]
    obtain ⟨hwithout, hcall, hvacant⟩ :=
      ih hordered hone.2 (fun x hx' => hx x (hone.1 ▸ hx')) hes.2
    rw [apply_without hes.1 (fun _ => ho.unsent hx) h.spares] at hwithout
    exact ⟨hwithout, hcall.trans hone.1, hvacant⟩

end Client
end Callwire
