/-
# The course of a call

A call has a course from the moment it gets its permit: when its handler started, when
and how it was decided, and when which frame was handed over for it. The courses only
write this down. If no time passes while a handler is done waiting, a budget is over, or
an answer that waits finds room, then a call is decided the moment its handler acts or
its budget is over, whichever comes first, and its answer is handed over that very
moment. What is handed over is the reply, or the text of the fault.

Key definitions: `Course`, `Course.note`, `Connection.Still`, `Connection.Turn`,
`Course.Timely`, `Course.Phase`, `Course.Set`, `Course.Answered`, `Answer.Fits`, `Answer.Says`.
Key theorems: `Connection.Step.turn`, `Course.Phase.step`, `Course.Phase.wait`,
`Course.mem_note`, `Course.Phase.returned`, `Course.Phase.late`.
-/
import Callwire.Proofs.Connection.Handlers

namespace Callwire

variable {σ : Type}

/-- What has become of a call so far, with the times, in nanoseconds: how it was decided,
and what was handed over to its caller. -/
structure Course (σ : Type) where
  call : Running σ
  began : Nat
  decided : List (Nat × Verdict) := []
  handed : List (Nat × Frame) := []

namespace Course

/-- The call of a ticket is decided. -/
def settle (t now : Nat) (v : Verdict) (x : Course σ) : Course σ :=
  if x.call.ticket = t then { x with decided := x.decided ++ [(now, v)] } else x

/-- A frame is handed over for the call of a ticket. -/
def deliver (t now : Nat) (f : Frame) (x : Course σ) : Course σ :=
  if x.call.ticket = t then { x with handed := x.handed ++ [(now, f)] } else x

/-- What an event of a connection adds to the course of a call. -/
def update (now : Nat) (r : Registry σ) (c : Connection σ) (e : Connection.Event) (x : Course σ) :
    Course σ :=
  match e with
  | .finish t =>
    match Connection.call? t c.running with
    | some call => x.settle t now (.returned (r.act call.job).1)
    | none => x
  | .expire t =>
    match c.terms? with
    | some terms => x.settle t now (.late terms.budget)
    | none => x
  | .post t =>
    match c.answered.lookup t with
    | some f =>
      match c.outbox.send f with
      | .queued _ => x.deliver t now f
      | _ => x
    | none => x
  | _ => x

/-- The course of a call whose handler starts; the connection is `c'` after that. -/
def opened (now : Nat) (e : Connection.Event) (c' : Connection σ) : List (Course σ) :=
  match e with
  | .start => c'.running.getLast?.toList.map fun call => { call, began := now }
  | _ => []

/-- The courses of all calls of a connection after an event. -/
def note (now : Nat) (r : Registry σ) (c : Connection σ) (e : Connection.Event) (c' : Connection σ)
    (xs : List (Course σ)) : List (Course σ) :=
  xs.map (update now r c e) ++ opened now e c'

variable {now : Nat} {r : Registry σ} {c : Connection σ} {e : Connection.Event} {x : Course σ}

@[simp] theorem call_settle (t now : Nat) (v : Verdict) (x : Course σ) :
    (x.settle t now v).call = x.call := by
  unfold settle
  split <;> rfl

@[simp] theorem began_settle (t now : Nat) (v : Verdict) (x : Course σ) :
    (x.settle t now v).began = x.began := by
  unfold settle
  split <;> rfl

@[simp] theorem call_deliver (t now : Nat) (f : Frame) (x : Course σ) :
    (x.deliver t now f).call = x.call := by
  unfold deliver
  split <;> rfl

@[simp] theorem began_deliver (t now : Nat) (f : Frame) (x : Course σ) :
    (x.deliver t now f).began = x.began := by
  unfold deliver
  split <;> rfl

theorem update_same (now : Nat) (r : Registry σ) (c : Connection σ) (e : Connection.Event)
    (x : Course σ) : (x.update now r c e).call = x.call ∧ (x.update now r c e).began = x.began := by
  cases e with
  | finish t =>
    simp only [update]
    split <;> simp
  | expire t =>
    simp only [update]
    split <;> simp
  | post t =>
    simp only [update]
    split
    · split <;> simp
    · simp
  | _ => exact ⟨rfl, rfl⟩

end Course

namespace Connection

/-- Nothing has to happen to a call of the connection: no handler is done waiting, no
budget is over, and no answer that waits finds room. -/
def Still (now : Nat) (r : Registry σ) (c : Connection σ) : Prop :=
  ∀ t, c.step now r (.finish t) = none ∧ c.step now r (.expire t) = none ∧
    c.step now r (.post t) = none

/-- What an event does to the calls that have a permit: nothing; or one more has started;
or one is decided, and its answer waits, if there is one; or an answer is handed over, or
thrown away because nobody writes any more. -/
inductive Turn (now : Nat) (r : Registry σ) (c : Connection σ) (e : Event) (c' : Connection σ) : Prop where
  | rest (hr : c'.running = c.running) (ha : c'.answered = c.answered) (ht : c'.tickets = c.tickets)
      (hu : ∀ x, Course.update now r c e x = x) (ho : Course.opened now e c' = [])
  | start {terms : Terms} {h : Header} {job : Invocation σ} {call : Running σ}
      (he : e = .start) (hs : c.stage = .serving terms (.parked h job)) (hp : c.permits ≠ 0)
      (hc : call = ⟨c.tickets, h, job, now + job.behaviour.wait.nanos,
        if terms.budget = .zero then none else some (now + terms.budget.nanos)⟩)
      (hr : c'.running = c.running ++ [call]) (ha : c'.answered = c.answered)
      (ht : c'.tickets = c.tickets + 1) (hu : ∀ x, Course.update now r c e x = x)
      (ho : Course.opened now e c' = [{ call, began := now }])
  | settle {terms : Terms} {t : Nat} {call : Running σ} {v : Verdict} (hs : c.terms? = some terms)
      (hc : call? t c.running = some call)
      (hv : (∃ o, v = .returned o) ∧ call.due ≤ now ∨
        v = .late terms.budget ∧ ∃ d, call.deadline = some d ∧ d ≤ now)
      (hr : c'.running = without t c.running)
      (ha : c'.answered = c.answered ++
        (Answer.frame? terms.codec call.header (v.reply terms.codec)).toList.map (Prod.mk t))
      (ht : c'.tickets = c.tickets) (hu : ∀ x, Course.update now r c e x = x.settle t now v)
      (ho : Course.opened now e c' = [])
  | deliver {t : Nat} {f : Frame} (hl : c.answered.lookup t = some f)
      (hr : c'.running = c.running) (ha : c'.answered = c.answered.filter (·.1 != t))
      (ht : c'.tickets = c.tickets) (hu : ∀ x, Course.update now r c e x = x.deliver t now f)
      (ho : Course.opened now e c' = [])
  | discard {t : Nat} {f : Frame} (hl : c.answered.lookup t = some f) (hf : c.outbox.send f = .refused)
      (hr : c'.running = c.running) (ha : c'.answered = c.answered.filter (·.1 != t))
      (ht : c'.tickets = c.tickets) (hu : ∀ x, Course.update now r c e x = x)
      (ho : Course.opened now e c' = [])

variable {now : Nat} {r r' : Registry σ} {c c' : Connection σ} {e : Event} {terms : Terms}
  {cs : List (Running σ)} {call : Running σ}

/-- **There are no other turns.** -/
theorem Step.turn (h : Step now r c e c' r') : Turn now r c e c' := by
  cases h with
  | receive _ | hangUp | lose | frame _ _ | stop _ _ | refuse _ _ | drop _ _ | retire _ =>
    exact .rest rfl rfl rfl (fun _ => rfl) rfl
  | release _ _ _ _ | write _ _ _ => exact .rest rfl rfl rfl (fun _ => rfl) rfl
  | head hst hr =>
    obtain ⟨u, w, stage, -, rfl⟩ := readHead_cases hr
    exact .rest rfl rfl rfl (fun _ => rfl) rfl
  | options hst hr =>
    rcases readOptions_cases hr with ⟨line, b, o, -, -, -, rfl⟩ | ⟨⟨b, -, rfl⟩, -⟩ <;>
      exact .rest rfl rfl rfl (fun _ => rfl) rfl
  | start hst hp hd =>
    subst hd
    refine .start rfl hst hp rfl rfl rfl rfl (fun _ => rfl) ?_
    simp only [Course.opened, List.getLast?_concat, Option.toList_some, List.map_cons, List.map_nil]
  | @finish terms i t call hst hc hd =>
    refine .settle (v := .returned (r.act call.job).1) (by simp [terms?, hst]) hc (.inl ⟨⟨_, rfl⟩, hd⟩)
      (running_settleAnswer _ _ _) (answered_settleAnswer _ _ _) (tickets_settleAnswer _ _ _)
      (fun x => ?_) rfl
    simp only [Course.update, hc]
  | @expire terms i t call hst hc hd =>
    have hs : c.terms? = some terms := by simp [terms?, hst]
    refine .settle (v := .late terms.budget) hs hc (.inr ⟨rfl, hd⟩)
      (running_settleAnswer _ _ _) (answered_settleAnswer _ _ _) (tickets_settleAnswer _ _ _)
      (fun x => ?_) rfl
    simp only [Course.update, hs]
  | post ha ho =>
    refine .deliver ha rfl rfl rfl (fun x => ?_) rfl
    simp only [Course.update, ha, ho]
  | discard ha ho =>
    refine .discard ha ho rfl rfl rfl (fun x => ?_) rfl
    simp only [Course.update, ha, ho]

/-! ### What has to happen -/

theorem call?_of_mem (hn : (cs.map (·.ticket)).Nodup) (hc : call ∈ cs) :
    call? call.ticket cs = some call := by
  obtain ⟨xs, ys, rfl⟩ := List.append_of_mem hc
  simp only [List.map_append, List.map_cons, List.nodup_append] at hn
  refine List.find?_eq_some_iff_append.mpr ⟨by simp, xs, ys, rfl, fun x hx => ?_⟩
  have hne := hn.2.2 _ (List.mem_map.mpr ⟨x, hx, rfl⟩) _ List.mem_cons_self
  simpa using hne

theorem lookup_of_mem {as : List (Nat × Frame)} {t : Nat} {f : Frame} (hn : (as.map (·.1)).Nodup)
    (hm : (t, f) ∈ as) : as.lookup t = some f := by
  obtain ⟨xs, ys, rfl⟩ := List.append_of_mem hm
  simp only [List.map_append, List.map_cons, List.nodup_append] at hn
  refine List.lookup_eq_some_iff.mpr ⟨xs, ys, rfl, fun p hp => ?_⟩
  have hne := hn.2.2 _ (List.mem_map.mpr ⟨p, hp, rfl⟩) _ List.mem_cons_self
  simpa using hne.symm

theorem isSome_finish_iff (hs : c.terms? = some terms) (hc : call? call.ticket c.running = some call) :
    (c.step now r (.finish call.ticket)).isSome ↔ call.due ≤ now := by
  obtain ⟨i, hst⟩ := exists_serving hs
  simp only [step, hst, hc]
  by_cases hd : now < call.due <;> simp [hd, Nat.not_le.mpr, Nat.le_of_not_lt]

theorem isSome_expire_iff (hs : c.terms? = some terms) (hc : call? call.ticket c.running = some call) :
    (c.step now r (.expire call.ticket)).isSome ↔ ∃ d, call.deadline = some d ∧ d ≤ now := by
  obtain ⟨i, hst⟩ := exists_serving hs
  simp only [step, hst, hc]
  cases call.deadline with
  | none => simp
  | some d => by_cases hd : now < d <;> simp [hd, Nat.le_of_not_lt]

theorem isSome_post_of_queued {t : Nat} {f : Frame} {o : Outbox} (ha : c.answered.lookup t = some f)
    (ho : c.outbox.send f = .queued o) : (c.step now r (.post t)).isSome := by
  simp [step, ha, ho]

end Connection

/-! ### In time -/

namespace Course

/-- The call was decided at the right time: when its handler acted, no later than its
deadline; or at its deadline, no later than its handler would act. -/
def Timely (terms : Terms) (x : Course σ) (m : Nat) (v : Verdict) : Prop :=
  (∃ o, v = .returned o) ∧ m = x.call.due ∧ (∀ d, x.call.deadline = some d → m ≤ d) ∨
    v = .late terms.budget ∧ x.call.deadline = some m ∧ m ≤ x.call.due

/-- The frame that answers the call if it is decided so. -/
def answer? (codec : Codec) (x : Course σ) (v : Verdict) : Option Frame :=
  Answer.frame? codec x.call.header (v.reply codec)

/-- How far a call is: its handler runs and nothing was due; or it was decided this very
moment and its answer waits; or it was decided, and its answer was handed over in the same
moment. -/
inductive Phase (terms : Terms) (now : Nat) (c : Connection σ) (x : Course σ) : Prop where
  | runs (hc : x.call ∈ c.running) (hdue : now ≤ x.call.due)
      (hlate : ∀ d, x.call.deadline = some d → now ≤ d) (hv : x.decided = []) (hh : x.handed = [])
  | waits {v : Verdict} {f : Frame} (ht : x.Timely terms now v) (hf : x.answer? terms.codec v = some f)
      (ha : (x.call.ticket, f) ∈ c.answered) (hv : x.decided = [(now, v)]) (hh : x.handed = [])
  | done {m : Nat} {v : Verdict} (hm : m ≤ now) (ht : x.Timely terms m v)
      (hg : x.call.ticket ∉ c.holders) (hv : x.decided = [(m, v)])
      (hh : x.handed = (x.answer? terms.codec v).toList.map (Prod.mk m))

/-- An answer of the call that waits finds room. -/
def Roomy (c : Connection σ) (x : Course σ) : Prop :=
  ∀ f, (x.call.ticket, f) ∈ c.answered → ∃ o, c.outbox.send f = .queued o

variable {now : Nat} {r r' : Registry σ} {c c' : Connection σ} {e : Connection.Event} {terms : Terms}
  {x : Course σ} {t : Nat}

theorem settle_of_ne {v : Verdict} (h : x.call.ticket ≠ t) : x.settle t now v = x := if_neg h

theorem settle_of_eq {v : Verdict} (h : x.call.ticket = t) :
    x.settle t now v = { x with decided := x.decided ++ [(now, v)] } := if_pos h

theorem deliver_of_ne {f : Frame} (h : x.call.ticket ≠ t) : x.deliver t now f = x := if_neg h

theorem deliver_of_eq {f : Frame} (h : x.call.ticket = t) :
    x.deliver t now f = { x with handed := x.handed ++ [(now, f)] } := if_pos h

theorem not_answered (hn : c.holders.Nodup) (hc : x.call ∈ c.running) :
    x.call.ticket ∉ c.answered.map (·.1) := fun hm =>
  (List.nodup_append.mp hn).2.2 _ (List.mem_map.mpr ⟨_, hc, rfl⟩) _ hm rfl

/-- What concerns other calls is no matter. -/
theorem Phase.keep (hx : x.Phase terms now c) (hrun : x.call ∈ c.running → x.call ∈ c'.running)
    (hans : ∀ f, (x.call.ticket, f) ∈ c.answered → (x.call.ticket, f) ∈ c'.answered)
    (hgone : x.call.ticket ∉ c.holders → x.call.ticket ∉ c'.holders) : x.Phase terms now c' := by
  cases hx with
  | runs hc hdue hlate hv hh => exact .runs (hrun hc) hdue hlate hv hh
  | waits ht hf ha hv hh => exact .waits ht hf (hans _ ha) hv hh
  | done hm ht hg hv hh => exact .done hm ht (hgone hg) hv hh

/-- A call that runs is decided, and its answer waits, if there is one. -/
theorem Phase.settle (hx : x.Phase terms now c) (hn : c.holders.Nodup) {call : Running σ}
    {v : Verdict} (hc : Connection.call? x.call.ticket c.running = some call)
    (hv : (∃ o, v = .returned o) ∧ call.due ≤ now ∨
      v = .late terms.budget ∧ ∃ d, call.deadline = some d ∧ d ≤ now)
    (hr : c'.running = Connection.without x.call.ticket c.running)
    (ha : c'.answered = c.answered ++
      (Answer.frame? terms.codec call.header (v.reply terms.codec)).toList.map (Prod.mk x.call.ticket)) :
    (x.settle x.call.ticket now v).Phase terms now c' := by
  obtain ⟨hm, hticket⟩ := Connection.mem_of_call? hc
  have hheld : x.call.ticket ∈ c.running.map (·.ticket) := List.mem_map.mpr ⟨call, hm, hticket⟩
  cases hx with
  | waits _ _ hw _ _ =>
    exact absurd rfl ((List.nodup_append.mp hn).2.2 _ hheld _ (List.mem_map.mpr ⟨_, hw, rfl⟩))
  | done _ _ hg _ _ => exact absurd (List.mem_append_left _ hheld) hg
  | runs hrun hdue hlate hd hh =>
    have hsame := Connection.call?_of_mem (List.nodup_append.mp hn).1 hrun
    obtain rfl : x.call = call := Option.some.inj (hsame.symm.trans hc)
    have htimely : x.Timely terms now v := by
      rcases hv with ⟨ho, hle⟩ | ⟨rfl, d, hdl, hle⟩
      · exact .inl ⟨ho, Nat.le_antisymm hdue hle, hlate⟩
      · obtain rfl := Nat.le_antisymm (hlate d hdl) hle
        exact .inr ⟨rfl, hdl, hdue⟩
    rw [settle_of_eq rfl]
    cases hf : Answer.frame? terms.codec x.call.header (v.reply terms.codec) with
    | some f =>
      refine .waits htimely hf ?_ (by rw [hd]; rfl) hh
      rw [ha, hf]
      exact List.mem_append_right _ List.mem_cons_self
    | none =>
      refine .done (Nat.le_refl now) htimely ?_ (by rw [hd]; rfl) ?_
      · rw [hf] at ha
        have hgone : x.call.ticket ∉ (Connection.without x.call.ticket c.running).map (·.ticket) := by
          rintro hmem
          obtain ⟨y, hy, he⟩ := List.mem_map.mp hmem
          exact (Connection.mem_without.mp hy).2 he
        rw [Connection.holders, hr, ha, List.mem_append, not_or]
        exact ⟨hgone, by simpa using not_answered hn hrun⟩
      · show x.handed = ((Answer.frame? _ _ _).toList.map _)
        rw [hf, hh]
        rfl

/-- An answer that waits is handed over in time. -/
theorem Phase.deliver (hx : x.Phase terms now c) (hn : c.holders.Nodup) {f : Frame}
    (hl : c.answered.lookup x.call.ticket = some f) (hr : c'.running = c.running)
    (ha : c'.answered = c.answered.filter (·.1 != x.call.ticket)) :
    (x.deliver x.call.ticket now f).Phase terms now c' := by
  obtain ⟨as, bs, hsplit, -⟩ := Connection.lookup_split hl (List.nodup_append.mp hn).2.1
  have hmem : (x.call.ticket, f) ∈ c.answered := by rw [hsplit]; simp
  have hheld : x.call.ticket ∈ c.answered.map (·.1) := List.mem_map.mpr ⟨_, hmem, rfl⟩
  cases hx with
  | runs hrun _ _ _ _ => exact absurd hheld (not_answered hn hrun)
  | done _ _ hg _ _ => exact absurd (List.mem_append_right _ hheld) hg
  | @waits v g ht hf hw hd hh =>
    have hsame := Connection.lookup_of_mem (List.nodup_append.mp hn).2.1 hw
    obtain rfl : f = g := Option.some.inj (hl.symm.trans hsame)
    rw [deliver_of_eq rfl]
    refine .done (Nat.le_refl now) ht ?_ hd ?_
    · rw [Connection.holders, hr, ha, List.mem_append, not_or]
      refine ⟨fun hrun => (List.nodup_append.mp hn).2.2 _ hrun _ hheld rfl, fun hmem => ?_⟩
      obtain ⟨p, hp, he⟩ := List.mem_map.mp hmem
      simp [he] at hp
    · show x.handed ++ [(now, f)] = (x.answer? terms.codec v).toList.map _
      rw [hh, hf]
      rfl

/-- **A call stays in time**, whatever happens on its connection, if its answer finds room
when it is handed over. -/
theorem Phase.step (h : Connection.Step now r c e c' r') (hs : c.terms? = some terms)
    (hn : c.holders.Nodup) (ht : x.call.ticket < c.tickets) (hroom : x.Roomy c)
    (hx : x.Phase terms now c) : (x.update now r c e).Phase terms now c' := by
  have hfilter : ∀ {t f}, x.call.ticket ≠ t → (x.call.ticket, f) ∈ c.answered →
      (x.call.ticket, f) ∈ c.answered.filter (·.1 != t) := fun hne hm =>
    List.mem_filter.mpr ⟨hm, by simpa using hne⟩
  have hgone : ∀ {d : Connection σ}, d.running.Sublist c.running → d.answered.Sublist c.answered →
      x.call.ticket ∉ c.holders → x.call.ticket ∉ d.holders := fun hr ha hg hm =>
    hg (((hr.map _).append (ha.map _)).mem hm)
  cases h.turn with
  | rest hr ha _ hu _ =>
    rw [hu]
    exact hx.keep (by rw [hr]; exact id) (by rw [ha]; exact fun _ => id)
      (hgone (by rw [hr]) (by rw [ha]))
  | start _ _ _ hc hr ha _ hu _ =>
    rw [hu]
    refine hx.keep (by rw [hr]; exact List.mem_append_left _) (by rw [ha]; exact fun _ => id) ?_
    rw [Connection.holders, Connection.holders, hr, ha, hc]
    simp only [List.map_append, List.map_cons, List.map_nil, List.mem_append, List.mem_singleton, not_or]
    rintro ⟨hg, hg'⟩
    exact ⟨⟨hg, Nat.ne_of_lt ht⟩, hg'⟩
  | @settle terms' t call v hs' hc hv hr ha _ hu _ =>
    obtain rfl : terms' = terms := Option.some.inj (hs'.symm.trans hs)
    rw [hu]
    by_cases hne : x.call.ticket = t
    · subst hne
      exact hx.settle hn hc hv hr ha
    · rw [settle_of_ne hne]
      refine hx.keep (fun hm => hr ▸ Connection.mem_without.mpr ⟨hm, hne⟩)
        (fun f hm => ha ▸ List.mem_append_left _ hm) fun hg hm => ?_
      rw [Connection.holders, hr, ha, List.map_append, List.mem_append, List.mem_append] at hm
      rw [Connection.holders, List.mem_append, not_or] at hg
      rcases hm with hm | hm | hm
      · exact hg.1 ((List.filter_sublist.map _).mem hm)
      · exact hg.2 hm
      · simp [hne] at hm
  | @deliver t f hl hr ha _ hu _ =>
    rw [hu]
    by_cases hne : x.call.ticket = t
    · subst hne
      exact hx.deliver hn hl hr ha
    · rw [deliver_of_ne hne]
      exact hx.keep (by rw [hr]; exact id) (by rw [ha]; exact fun _ => hfilter hne)
        (hgone (by rw [hr]) (by rw [ha]; exact List.filter_sublist))
  | @discard t f hl hf hr ha _ hu _ =>
    rw [hu]
    have hne : x.call.ticket ≠ t := by
      rintro rfl
      obtain ⟨as, bs, hsplit, -⟩ := Connection.lookup_split hl (List.nodup_append.mp hn).2.1
      obtain ⟨o, ho⟩ := hroom f (by rw [hsplit]; simp)
      rw [ho] at hf
      cases hf
    exact hx.keep (by rw [hr]; exact id) (by rw [ha]; exact fun _ => hfilter hne)
      (hgone (by rw [hr]) (by rw [ha]; exact List.filter_sublist))

/-- **A call stays in time while time passes**, if nothing has to happen meanwhile. -/
theorem Phase.wait {n : Nat} (hs : c.terms? = some terms) (hn : c.holders.Nodup) (hroom : x.Roomy c)
    (hstill : ∀ m < n, c.Still (now + m) r) (hx : x.Phase terms now c) :
    x.Phase terms (now + n) c := by
  cases hx with
  | runs hc hdue hlate hv hh =>
    have hcall := Connection.call?_of_mem (List.nodup_append.mp hn).1 hc
    refine .runs hc ?_ (fun d hd => ?_) hv hh
    · by_contra hlt
      have hact := (hstill (x.call.due - now) (by omega) x.call.ticket).1
      have hcan : (c.step (now + (x.call.due - now)) r (.finish x.call.ticket)).isSome :=
        (Connection.isSome_finish_iff hs hcall).mpr (by omega)
      rw [hact] at hcan
      cases hcan
    · by_contra hlt
      have hle := hlate d hd
      have hact := (hstill (d - now) (by omega) x.call.ticket).2.1
      have hcan : (c.step (now + (d - now)) r (.expire x.call.ticket)).isSome :=
        (Connection.isSome_expire_iff hs hcall).mpr ⟨d, hd, by omega⟩
      rw [hact] at hcan
      cases hcan
  | @waits v f ht hf ha hv hh =>
    obtain ⟨o, ho⟩ := hroom f ha
    have hl := Connection.lookup_of_mem (List.nodup_append.mp hn).2.1 ha
    rcases Nat.eq_zero_or_pos n with rfl | hpos
    · exact .waits ht hf ha hv hh
    · have hact := (hstill 0 hpos x.call.ticket).2.2
      have hcan : (c.step (now + 0) r (.post x.call.ticket)).isSome :=
        Connection.isSome_post_of_queued hl ho
      rw [hact] at hcan
      cases hcan
  | done hm ht hg hv hh => exact .done (by omega) ht hg hv hh

end Course

/-! ### All courses of a connection -/

namespace Course

/-- The call has the ticket, the wait and the deadline that it got when it started. -/
structure Set (terms : Terms) (c : Connection σ) (x : Course σ) : Prop where
  issued : x.call.ticket < c.tickets
  due : x.call.due = x.began + x.call.job.behaviour.wait.nanos
  deadline : x.call.deadline =
    if terms.budget = .zero then none else some (x.began + terms.budget.nanos)

variable {terms : Terms} {now : Nat} {r r' : Registry σ} {c c' : Connection σ} {e : Connection.Event}
  {xs : List (Course σ)} {x y : Course σ}

theorem Set.keep (hx : x.Set terms c) (ht : c.tickets ≤ c'.tickets)
    (hy : y.call = x.call ∧ y.began = x.began) : y.Set terms c' := by
  obtain ⟨hi, hdue, hdl⟩ := hx
  rw [← hy.1] at hi hdue hdl
  rw [← hy.2] at hdue hdl
  exact ⟨Nat.lt_of_lt_of_le hi ht, hdue, hdl⟩

/-- The course after an event of its connection is one from before, or that of a call that
has just got its permit. -/
theorem mem_note (h : Connection.Step now r c e c' r') (hm : y ∈ note now r c e c' xs) :
    (∃ x ∈ xs, y = x.update now r c e) ∨
      e = .start ∧ c.permits ≠ 0 ∧ y.began = now ∧ y.decided = [] ∧ ∃ terms,
        c.stage = .serving terms (.parked y.call.header y.call.job) ∧ y.Set terms c' ∧
        y.Phase terms now c' := by
  rcases List.mem_append.mp hm with hm | hm
  · obtain ⟨x, hx, rfl⟩ := List.mem_map.mp hm
    exact .inl ⟨x, hx, rfl⟩
  · cases h.turn with
    | @start terms hd job call he hs hp hc hr ha ht hu ho =>
      rw [ho, List.mem_singleton] at hm
      subst hm hc
      refine .inr ⟨he, hp, rfl, rfl, terms, hs, ⟨?_, rfl, rfl⟩, .runs ?_ ?_ ?_ rfl rfl⟩
      · show c.tickets < c'.tickets
        omega
      · rw [hr]
        exact List.mem_append_right _ List.mem_cons_self
      · show now ≤ now + _
        omega
      · intro d hd
        simp only at hd
        split at hd
        · cases hd
        · cases hd
          omega
    | rest _ _ _ _ ho | settle _ _ _ _ _ _ _ ho | deliver _ _ _ _ _ ho | discard _ _ _ _ _ _ ho =>
      rw [ho] at hm
      cases hm

theorem tickets_note (h : Connection.Step now r c e c' r')
    (hx : xs.map (·.call.ticket) = List.range c.tickets) :
    (note now r c e c' xs).map (·.call.ticket) = List.range c'.tickets := by
  have hold : (xs.map (update now r c e)).map (·.call.ticket) = List.range c.tickets := by
    rw [← hx, List.map_map]
    exact List.map_congr_left fun x _ => congrArg (·.ticket) (update_same now r c e x).1
  rw [note, List.map_append, hold]
  cases h.turn with
  | start _ _ _ hc _ _ ht _ ho =>
    rw [ho, hc, ht, List.range_succ]
    rfl
  | rest _ _ ht _ ho | settle _ _ _ _ _ ht _ ho | deliver _ _ _ ht _ ho | discard _ _ _ _ ht _ ho =>
    rw [ho, ht, List.map_nil, List.append_nil]

theorem eq_of_ticket {n : Nat} (hr : xs.map (·.call.ticket) = List.range n) (hx : x ∈ xs) (hy : y ∈ xs)
    (ht : x.call.ticket = y.call.ticket) : x = y :=
  List.inj_on_of_nodup_map (by rw [hr]; exact List.nodup_range) hx hy ht

theorem covers_note (h : Connection.Step now r c e c' r')
    (hx : ∀ call ∈ c.running, ∃ x ∈ xs, x.call = call) :
    ∀ call ∈ c'.running, ∃ x ∈ note now r c e c' xs, x.call = call := by
  have hold : ∀ call ∈ c.running, ∃ x ∈ note now r c e c' xs, x.call = call := by
    intro call hc
    obtain ⟨x, hm, rfl⟩ := hx call hc
    exact ⟨x.update now r c e, List.mem_append_left _ (List.mem_map.mpr ⟨x, hm, rfl⟩),
      (update_same now r c e x).1⟩
  cases h.turn with
  | rest hr _ _ _ _ | deliver _ hr _ _ _ _ | discard _ _ hr _ _ _ _ => rwa [hr]
  | settle _ _ _ hr _ _ _ _ =>
    rw [hr]
    exact fun call hc => hold call (Connection.mem_without.mp hc).1
  | @start _ _ _ call _ _ _ _ hr _ _ _ ho =>
    rw [hr]
    refine List.forall_mem_append.mpr ⟨hold, List.forall_mem_singleton.mpr ⟨{ call, began := now }, ?_, rfl⟩⟩
    rw [note, ho]
    exact List.mem_append_right _ List.mem_cons_self

/-- A call that is decided by its handler was so before, or its handler acts now. -/
theorem returned_update {m : Nat} {o : Outcome}
    (hm : (m, .returned o) ∈ (x.update now r c e).decided) :
    (m, .returned o) ∈ x.decided ∨ m = now ∧ e = .finish x.call.ticket ∧
      ∃ call, Connection.call? x.call.ticket c.running = some call ∧ o = (r.act call.job).1 := by
  have hsettle : ∀ {t v}, (m, .returned o) ∈ (x.settle t now v).decided →
      (m, .returned o) ∈ x.decided ∨ x.call.ticket = t ∧ m = now ∧ v = .returned o := by
    intro t v h
    by_cases ht : x.call.ticket = t
    · rw [settle_of_eq ht] at h
      rcases List.mem_append.mp h with h | h
      · exact .inl h
      · obtain ⟨rfl, rfl⟩ := Prod.mk.inj (List.mem_singleton.mp h)
        exact .inr ⟨ht, rfl, rfl⟩
    · rw [settle_of_ne ht] at h
      exact .inl h
  cases e with
  | finish t =>
    simp only [update] at hm
    split at hm
    · rename_i call hc
      rcases hsettle hm with h | ⟨rfl, rfl, ho⟩
      · exact .inl h
      · cases ho
        exact .inr ⟨rfl, rfl, call, hc, rfl⟩
    · exact .inl hm
  | expire t =>
    simp only [update] at hm
    split at hm
    · rcases hsettle hm with h | ⟨-, -, ho⟩
      · exact .inl h
      · cases ho
    · exact .inl hm
  | post t =>
    have hdeliver : ∀ f, (x.deliver t now f).decided = x.decided := by
      intro f
      unfold deliver
      split <;> rfl
    simp only [update] at hm
    split at hm
    · split at hm
      · exact .inl (hdeliver _ ▸ hm)
      · exact .inl hm
    · exact .inl hm
  | _ => exact .inl hm

end Course

/-! ### What an answer says -/

namespace Answer

/-- A frame can carry what is to be said: the reply, or the text of the fault that there is
instead of one. -/
def Fits (codec : Codec) (h : Header) : Except Fault Bytes → Prop
  | .ok body => h.HasRoom codec ∧ body.length ≤ maxBodySize
  | .error why => (h.withError why.message).HasRoom codec

/-- The frame has the header of the request and the reply; or the header with the text of
the fault, and no reply. -/
def Says (codec : Codec) (h : Header) (f : Frame) : Except Fault Bytes → Prop
  | .ok body => f.readHeader codec = .ok h ∧ f.body = body
  | .error why => f.readHeader codec = .ok (h.withError why.message) ∧ f.body = codec.unitBytes

/-- **What fits is said.** -/
theorem exists_frame?_of_fits {codec : Codec} {h : Header} {reply : Except Fault Bytes}
    (hf : Fits codec h reply) : ∃ f, frame? codec h reply = some f ∧ Says codec h f reply := by
  cases reply with
  | ok body =>
    have hok : Frame.ofHeader codec h body = .ok ⟨h.bytes codec, body⟩ :=
      Frame.ofHeader_eq_ok_iff.mpr ⟨hf.1, hf.2, rfl⟩
    refine ⟨_, ?_, Frame.readHeader_ofHeader hok, rfl⟩
    simp only [frame?, hok]
  | error why =>
    have hsome : frame? codec h (.error why) =
        some ⟨(h.withError why.message).bytes codec, codec.unitBytes⟩ :=
      failure?_eq_some_iff.mpr ⟨hf, rfl⟩
    obtain ⟨hread, hbody⟩ := readHeader_frame? hsome
    exact ⟨_, hsome, hread, rfl⟩

end Answer

/-- The course of a call that is decided at one moment in one way and answered then: there
is nothing before and nothing else after. -/
structure Course.Answered (codec : Codec) (now m : Nat) (v : Verdict) (x : Course σ) : Prop where
  before : now < m → x.decided = [] ∧ x.handed = []
  decided : x.decided <+: [(m, v)]
  handed : x.handed <+: (x.answer? codec v).toList.map (Prod.mk m)
  after : m < now → x.decided = [(m, v)] ∧ x.handed = (x.answer? codec v).toList.map (Prod.mk m)
  told : m < now → Answer.Fits codec x.call.header (v.reply codec) →
    ∃ f, x.handed = [(m, f)] ∧ Answer.Says codec x.call.header f (v.reply codec)

namespace Course

variable {terms : Terms} {now m : Nat} {c : Connection σ} {v : Verdict} {x : Course σ}

theorem Answered.of_done (hm : m ≤ now) (hv : x.decided = [(m, v)])
    (hh : x.handed = (x.answer? terms.codec v).toList.map (Prod.mk m)) :
    x.Answered terms.codec now m v := by
  refine ⟨fun h => absurd hm (by omega), by rw [hv], by rw [hh], fun _ => ⟨hv, hh⟩, fun _ hfits => ?_⟩
  obtain ⟨f, hf, hsays⟩ := Answer.exists_frame?_of_fits hfits
  refine ⟨f, ?_, hsays⟩
  rw [hh, answer?, hf]
  rfl

theorem Answered.of_waits (hv : x.decided = [(now, v)]) (hh : x.handed = []) :
    x.Answered terms.codec now now v :=
  ⟨fun h => absurd h (Nat.lt_irrefl _), by rw [hv], by rw [hh]; exact List.nil_prefix,
    fun h => absurd h (Nat.lt_irrefl _), fun h => absurd h (Nat.lt_irrefl _)⟩

theorem Answered.of_runs (hm : now ≤ m) (hv : x.decided = []) (hh : x.handed = []) :
    x.Answered terms.codec now m v :=
  ⟨fun _ => ⟨hv, hh⟩, by rw [hv]; exact List.nil_prefix, by rw [hh]; exact List.nil_prefix,
    fun h => absurd h (by omega), fun h => absurd h (by omega)⟩

/-- **A handler that is over first decides its call.** -/
theorem Phase.returned (hx : x.Phase terms now c) (hd : ∀ d, x.call.deadline = some d → x.call.due < d) :
    ∃ o, x.Answered terms.codec now x.call.due (.returned o) := by
  have hon : ∀ {m v}, x.Timely terms m v → ∃ o, v = .returned o ∧ m = x.call.due := by
    rintro m v (⟨⟨o, rfl⟩, rfl, -⟩ | ⟨-, hdl, hle⟩)
    · exact ⟨o, rfl, rfl⟩
    · have := hd m hdl
      omega
  cases hx with
  | runs _ hdue _ hv hh => exact ⟨.crash "", .of_runs hdue hv hh⟩
  | waits ht _ _ hv hh =>
    obtain ⟨o, rfl, hm⟩ := hon ht
    exact ⟨o, hm ▸ .of_waits hv hh⟩
  | done hm ht _ hv hh =>
    obtain ⟨o, rfl, rfl⟩ := hon ht
    exact ⟨o, .of_done hm hv hh⟩

/-- **A budget that is over first decides its call.** -/
theorem Phase.late {d : Nat} (hx : x.Phase terms now c) (hd : x.call.deadline = some d)
    (hlt : d < x.call.due) : x.Answered terms.codec now d (.late terms.budget) := by
  have hon : ∀ {m v}, x.Timely terms m v → v = .late terms.budget ∧ m = d := by
    rintro m v (⟨-, rfl, hle⟩ | ⟨rfl, hdl, -⟩)
    · have := hle d hd
      omega
    · exact ⟨rfl, Option.some.inj (hdl.symm.trans hd)⟩
  cases hx with
  | runs _ _ hlate hv hh => exact .of_runs (hlate d hd) hv hh
  | waits ht _ _ hv hh =>
    obtain ⟨rfl, hm⟩ := hon ht
    exact hm ▸ .of_waits hv hh
  | done hm ht _ hv hh =>
    obtain ⟨rfl, rfl⟩ := hon ht
    exact .of_done hm hv hh

end Course

end Callwire
