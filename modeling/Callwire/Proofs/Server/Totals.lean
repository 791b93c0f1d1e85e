/-
# Every effect counts once

Let every handler add an amount to a total of its receiver, and let the amount depend on
the argument alone. A call that was taken and has not acted yet is outstanding. At all
times the total and what is outstanding make up what the total was at first and what all
calls add: a call is outstanding from when it is taken until its handler acts, and a call
that was too late, or whose peer is gone, stays so. So once nothing is outstanding each
request has added its amount once, and it does not matter when its handler acted, what
the caller was told, or whether there was still a caller to tell.

Key definitions: `Registry.Adds`, `Registry.total`, `Registry.due`,
`Connection.outstanding`.
Key theorems: `Registry.total_act`, `Connection.Shift.balance`, `Connection.jobs_watch`,
`Server.balance`, `Server.total_of_outstanding`, `Server.total_at_rest`.
-/
import Callwire.Proofs.Server.Permits
import Callwire.Proofs.Server.Requests

namespace Callwire

variable {σ A : Type} [AddCommMonoid A]

theorem add_both {t t' u x y a b v v' w z : A} (h : t' + v' = t + v + w)
    (he : t + (x + (v + y)) = u + (a + (z + b))) : t' + (x + (v' + y)) = u + (a + (w + z + b)) := by
  calc t' + (x + (v' + y)) = t' + v' + (x + y) := by abel
    _ = t + v + w + (x + y) := by rw [h]
    _ = t + (x + (v + y)) + w := by abel
    _ = u + (a + (z + b)) + w := by rw [he]
    _ = u + (a + (w + z + b)) := by abel

/-! ### What a call adds -/

/-- What a call adds to the total of a service. -/
def Invocation.worth (amount : Behaviour σ → A) (name : String) (i : Invocation σ) : A :=
  if i.service = name then amount i.behaviour else 0

namespace Registry

variable {r r' reg : Registry σ} {measure : σ → A} {amount : Behaviour σ → A} {name : String}
  {codec : Codec} {target : String} {body : Bytes} {i : Invocation σ}

/-- Every handler adds an amount to a total of its receiver, whatever the total is. -/
def Adds (r : Registry σ) (measure : σ → A) (amount : Behaviour σ → A) : Prop :=
  ∀ codec target body i, r.assign codec target body = .ok i →
    ∀ st : σ, measure (i.behaviour.act st).1 = measure st + amount i.behaviour

/-- The total of a service. -/
def total (r : Registry σ) (measure : σ → A) (name : String) : A :=
  (r.service? name).elim 0 fun s => measure s.receiver

/-- What requests add to the total of a service, each of them once: the amounts of those
whose method is there and whose argument can be read. -/
def due (r : Registry σ) (amount : Behaviour σ → A) (name : String) (qs : List (Codec × Frame)) : A :=
  ((qs.filterMap r.assign?).map (·.worth amount name)).sum

theorem due_perm {qs qs' : List (Codec × Frame)} (h : qs.Perm qs') :
    r.due amount name qs = r.due amount name qs' :=
  ((h.filterMap _).map _).sum_eq

/-- It is enough that every method adds. -/
theorem adds_of_methods (h : ∀ s ∈ r.services, ∀ e ∈ s.entries, ∀ d, ∀ st : σ,
    measure ((e.method.run d).act st).1 = measure st + amount (e.method.run d)) :
    r.Adds measure amount := by
  intro codec target body i hi
  obtain ⟨s, hs, e, he, d, rfl⟩ := exists_method hi
  exact h s hs e he d

theorem total_invoke (h : r.invoke codec target body = .ok (i, r')) :
    r'.total measure name = r.total measure name := by
  have hkeep : ∀ service method, (r.update service (·.count method)).total measure name =
      r.total measure name := by
    intro service method
    have hname : ∀ s : Service σ, (s.count method).name = s.name := fun _ => rfl
    unfold total
    rw [service?_update hname]
    cases r.service? name with
    | none => rfl
    | some s =>
      by_cases hs : s.name = service
      · simp [hs, Service.count]
      · simp [hs]
  rw [invoke] at h
  split at h
  · cases h
  · split at h
    · cases h
    · cases h
      exact hkeep _ _

/-- **A handler that acts adds the amount of its call.** -/
theorem total_act (hadds : reg.Adds measure amount) (hp : r.plan = reg.plan)
    (hi : reg.assign codec target body = .ok i) :
    (r.act i).2.total measure name = r.total measure name + i.worth amount name := by
  obtain ⟨s, hs⟩ := exists_service hp.symm hi
  have hn : s.name = i.service := by simpa using List.find?_some hs
  have hact : (r.act i).2 =
      r.update i.service fun s' => { s' with receiver := (i.behaviour.act s.receiver).1 } := by
    rw [act, hs]
  have hname : ∀ s' : Service σ,
      ({ s' with receiver := (i.behaviour.act s.receiver).1 } : Service σ).name = s'.name := fun _ => rfl
  rw [hact]
  unfold total Invocation.worth
  rw [service?_update hname]
  by_cases hname : i.service = name
  · rw [← hname, hs, if_pos rfl]
    simp only [Option.map_some, hn, if_true, Option.elim_some]
    exact hadds codec target body i hi s.receiver
  · rw [if_neg hname, add_zero]
    cases ht : r.service? name with
    | none => rfl
    | some s' =>
      have hs' : s'.name = name := by simpa using List.find?_some ht
      have hne : s'.name ≠ i.service := fun h => hname (h.symm.trans hs')
      simp only [Option.map_some, if_neg hne]

end Registry

/-! ### Calls that have yet to act -/

namespace Connection

variable {now : Nat} {r r' reg : Registry σ} {c c' : Connection σ} {e : Event} {k : Server.Config}
  {j : Journal σ} {o : Option (Journal σ)} {measure : σ → A} {amount : Behaviour σ → A}
  {name : String}

/-- The calls that were taken and have not acted yet: the one that waits for a permit, and
those whose handlers have not finished. -/
def outstanding (c : Connection σ) : List (Invocation σ) :=
  c.parked?.toList ++ c.unfinished.map (·.job)

/-- The call that was taken on the way from one state to the next. -/
def newcomer (c c' : Connection σ) : List (Invocation σ) :=
  match c.parked? with
  | some _ => []
  | none => c'.parked?.toList

theorem newcomer_eq_nil (hp : c'.parked? = c.parked?) : newcomer c c' = [] := by
  unfold newcomer
  rw [hp]
  cases c.parked? <;> rfl

/-- Every call was asked for by a request. -/
def Assigned (reg : Registry σ) (c : Connection σ) : Prop :=
  ∀ i ∈ c.outstanding, ∃ codec target body, reg.assign codec target body = .ok i

/-- What an event does to the calls that have yet to act: nothing, or one is taken, or
one acts. -/
theorem Shift.outstanding_cases (h : Shift now r c c' r') :
    (c'.outstanding.Perm c.outstanding ∧ newcomer c c' = [] ∧ r' = r) ∨
    (∃ codec target body job, r.invoke codec target body = .ok (job, r') ∧ newcomer c c' = [job] ∧
      c'.outstanding = job :: c.outstanding) ∨
    (∃ job, c.outstanding.Perm (job :: c'.outstanding) ∧ newcomer c c' = [] ∧ r' = (r.act job).2) := by
  cases h with
  | rest hp hu _ hr =>
    refine .inl ⟨?_, newcomer_eq_nil hp, hr⟩
    unfold outstanding
    rw [hp]
    exact (hu.map _).append_left _
  | @accept codec target body job hi hp hp' hu _ =>
    refine .inr (.inl ⟨codec, target, body, job, hi, ?_, ?_⟩)
    · simp only [newcomer, hp, hp', Option.toList_some]
    · simp only [outstanding, hp, hp', hu, Option.toList_some, Option.toList_none, List.nil_append,
        List.cons_append]
  | start hp hp' _ _ _ hu _ hr =>
    refine .inl ⟨?_, by simp only [newcomer, hp], hr⟩
    simp only [outstanding, hp, hp', Option.toList_none, Option.toList_some, List.nil_append,
      List.cons_append]
    exact hu.map (·.job)
  | @done call hp hu _ hr =>
    refine .inr (.inr ⟨call.job, ?_, newcomer_eq_nil hp, hr⟩)
    unfold outstanding
    rw [hp]
    exact ((hu.map (·.job)).append_left _).trans List.perm_middle

theorem Assigned.step (h : Shift now r c c' r') (hp : r.plan = reg.plan) (ha : c.Assigned reg) :
    c'.Assigned reg := by
  rcases h.outstanding_cases with ⟨ho, -, -⟩ | ⟨codec, target, body, job, hi, -, ho⟩ | ⟨job, ho, -, -⟩
  · exact fun i hm => ha i (ho.mem_iff.mp hm)
  · intro i hm
    rw [ho, List.mem_cons] at hm
    rcases hm with rfl | hm
    · refine ⟨codec, target, body, ?_⟩
      rw [assign_of_invoke hp, hi]
      rfl
    · exact ha i hm
  · exact fun i hm => ha i (ho.mem_iff.mpr (List.mem_cons_of_mem _ hm))

/-- **An event moves an amount from what is outstanding to the total, or adds that of a
call that was taken.** -/
theorem Shift.balance (h : Shift now r c c' r') (hadds : reg.Adds measure amount)
    (hp : r.plan = reg.plan) (ha : c.Assigned reg) :
    r'.total measure name + (c'.outstanding.map (·.worth amount name)).sum =
      r.total measure name + (c.outstanding.map (·.worth amount name)).sum +
        ((newcomer c c').map (·.worth amount name)).sum := by
  rcases h.outstanding_cases with ⟨ho, hn, rfl⟩ | ⟨codec, target, body, job, hi, hn, ho⟩ | ⟨job, ho, hn, rfl⟩
  · rw [hn, (ho.map _).sum_eq]
    simp
  · rw [hn, ho, Registry.total_invoke hi]
    simp only [List.map_cons, List.sum_cons, List.map_nil, List.sum_nil]
    abel
  · obtain ⟨codec, target, body, hi⟩ := ha job (ho.mem_iff.mpr List.mem_cons_self)
    rw [hn, (ho.map _).sum_eq, Registry.total_act hadds hp hi]
    simp only [List.map_cons, List.sum_cons, List.map_nil, List.sum_nil]
    abel

/-! ### The calls in the journal -/

theorem jobs_enter (t : Nat) (xs : List (Exchange σ)) :
    Journal.jobs (Exchange.enter t xs) = Journal.jobs xs := by
  cases xs <;> rfl

theorem jobs_settle (t : Nat) (v : Verdict) (a : Option Frame) (xs : List (Exchange σ)) :
    Journal.jobs (Exchange.settle t v a xs) = Journal.jobs xs := by
  rw [Journal.jobs, Exchange.settle, List.filterMap_map]
  congr 1
  funext x
  simp only [Function.comp_apply]
  split <;> rfl

theorem jobs_note (h : Step now r c e c' r') :
    Journal.jobs (j.note r c e c').exchanges = newcomer c c' ++ Journal.jobs j.exchanges := by
  have hrest : c'.parked? = c.parked? →
      Journal.jobs (j.note r c e c').exchanges = Journal.jobs j.exchanges →
      Journal.jobs (j.note r c e c').exchanges = newcomer c c' ++ Journal.jobs j.exchanges := by
    intro hp hj
    rw [newcomer_eq_nil hp, hj, List.nil_append]
  cases h with
  | receive _ | hangUp | lose | write _ _ _ | release _ _ _ _ | retire _ => exact hrest rfl rfl
  | head hst hr =>
    obtain ⟨u, w, stage, hstage, rfl⟩ := readHead_cases hr
    refine hrest ?_ (by simp only [Journal.note, hst])
    rcases hstage with ⟨hd, rfl⟩ | rfl | rfl <;> simp [parked?, intake, hst]
  | options hst hr =>
    refine hrest ?_ (by simp only [Journal.note, hst])
    rcases readOptions_cases hr with ⟨line, b, o, -, -, -, rfl⟩ | ⟨⟨b, -, rfl⟩, -⟩ <;>
      simp [parked?, intake, hst]
  | @frame terms f b hst hf =>
    have hp : c.parked? = none := by simp only [parked?, intake, hst]
    simp only [Journal.note, hst, hf, newcomer, hp]
    cases hh : f.readHeader terms.codec with
    | error why => simp [dispatch, hh, parked?, intake]
    | ok h =>
      cases hi : r.invoke terms.codec h.target f.body with
      | ok q => simp [dispatch, hh, hi, parked?, intake, Journal.jobs, Exchange.begin]
      | error why =>
        cases ha : Answer.failure? terms.codec h why <;>
          simp [dispatch, hh, hi, ha, parked?, intake, Journal.jobs, Exchange.begin]
  | @stop terms b hst hn =>
    refine hrest (by simp [parked?, intake, hst]) ?_
    rcases hn with ⟨why, hn⟩ | ⟨hn, -⟩ <;> simp only [Journal.note, hst, hn]
  | refuse hst _ | drop hst _ =>
    refine hrest (by simp [parked?, intake, hst]) ?_
    simp only [Journal.note, hst, exchanges_handOver]
  | start hst _ _ =>
    have hp : ∀ d : Connection σ, newcomer c d = [] := fun d => by
      simp only [newcomer, parked?, intake, hst]
    rw [hp]
    exact jobs_enter _ _
  | finish hst hc _ =>
    refine hrest (parked?_settleAnswer _ _ _) ?_
    simp only [Journal.note, hc, jobs_settle]
  | expire hst _ _ =>
    refine hrest (parked?_settleAnswer _ _ _) ?_
    rw [note_expire hst]
    exact jobs_settle _ _ _ _
  | post ha _ | discard ha _ =>
    refine hrest rfl ?_
    simp only [Journal.note, ha, exchanges_handOver]

/-- **What is known has a call more when one is taken, and then only.** -/
theorem jobs_watch (h : c.step now r e = some (c', r')) (hp : r.plan = reg.plan)
    (hk : Known reg k c o) :
    jobsOf (Journal.watch r c e c' o) = newcomer c c' ++ jobsOf o := by
  cases o with
  | some j => exact jobs_note (.of_step h)
  | none =>
    have ht : c.Tunnelling k := hk
    have hnone : c'.parked? = none := by
      have hk' := hk.step h hp
      simp only [Journal.watch] at hk'
      split at hk'
      · rename_i hst
        simp only [parked?, intake, hst]
      · exact Tunnelling.parked? hk'
    rw [newcomer_eq_nil (hnone.trans ht.parked?.symm)]
    simp only [Journal.watch]
    split <;> rfl

/-- At rest no call is outstanding but those that were too late. -/
theorem Known.outstanding_at_rest (hk : Known reg k c o) (hrest : c.AtRest) (hd : c.detached = []) :
    c.outstanding = [] := by
  obtain ⟨hp, hrun, -⟩ := hk.at_rest hrest
  rw [outstanding, unfinished, hp, hrun, hd]
  rfl

end Connection

/-! ### In every run -/

namespace Server

variable {k : Config} {reg : Registry σ} {measure : σ → A} {amount : Behaviour σ → A} {name : String}
  {as : List Act} {c : Connection σ} {o : Option (Journal σ)}

/-- The calls of all connections that have yet to act. -/
def Chronicle.outstanding (p : Chronicle σ) : List (Invocation σ) :=
  p.entries.flatMap (·.1.outstanding)

/-- The calls that all requests became. -/
def Chronicle.jobs (p : Chronicle σ) : List (Invocation σ) :=
  p.entries.flatMap fun x => Connection.jobsOf x.2

theorem assigned_of_mem_chronicle (hx : (c, o) ∈ (chronicle k reg as).entries) : c.Assigned reg := by
  refine ((chronicle_keeps (k := k) (P := fun _ c _ => c.Staffed (max 1 k.maxCalls) ∧ c.Assigned reg)
    ?_ ?_ ?_ ?_ as).2.2 (c, o) hx).2
  · intro now tunnelled
    refine ⟨Connection.staffed_fresh _ _ _ _, ?_⟩
    cases tunnelled <;> exact List.forall_mem_nil _
  · exact fun _ _ _ _ _ h => h
  · rintro now r r' c c' o e hp hstep ⟨hs, ha⟩
    have h := Connection.Step.of_step hstep
    exact ⟨hs.step h, ha.step (h.shift hs.unfinished.nodup) hp⟩
  · rintro now c o n ⟨hs, ha⟩
    exact ⟨{ hs with }, ha⟩

/-- **The total and what is outstanding are the total at first and what all calls add.** -/
theorem balance (hadds : reg.Adds measure amount) (as : List Act) :
    let p := chronicle k reg as
    p.registry.total measure name + (p.outstanding.map (·.worth amount name)).sum =
      reg.total measure name + (p.jobs.map (·.worth amount name)).sum := by
  refine chronicle_induction (P := fun p =>
    p.registry.total measure name + (p.outstanding.map (·.worth amount name)).sum =
      reg.total measure name + (p.jobs.map (·.worth amount name)).sum) rfl ?_ as
  intro as p' hm ih
  have hplan := plan_chronicle k reg as
  cases hm with
  | wait _ => exact ih
  | arrive tunnelled =>
    have hfresh : ∀ c : Config,
        (Connection.fresh (σ := σ) c.maxBody c.maxCalls c.capacity tunnelled).outstanding = [] := by
      intro c
      cases tunnelled <;> rfl
    have hjobs : Connection.jobsOf (σ := σ) (if tunnelled = true then none else some {}) = [] := by
      cases tunnelled <;> rfl
    simpa only [Chronicle.outstanding, Chronicle.jobs, List.flatMap_append, List.flatMap_cons,
      List.flatMap_nil, List.append_nil, hfresh, hjobs] using ih
  | @change xs ys c c' o e r' he hc =>
    have hx : (c, o) ∈ (chronicle k reg as).entries := by
      rw [he]
      exact List.mem_append_right _ List.mem_cons_self
    obtain ⟨hstaffed, -, -⟩ := staffed_of_mem_chronicle hx
    have hshift := (Connection.Step.of_step hc).shift hstaffed.unfinished.nodup
    have hbalance : r'.total measure name + _ = _ := hshift.balance hadds hplan (assigned_of_mem_chronicle hx)
    have hjobs := Connection.jobs_watch hc hplan (known_of_mem_chronicle hx)
    simp only [Chronicle.outstanding, Chronicle.jobs, he, List.flatMap_append, List.flatMap_cons,
      List.map_append, List.sum_append] at ih
    simp only [Chronicle.outstanding, Chronicle.jobs, List.flatMap_append, List.flatMap_cons,
      List.map_append, List.sum_append, hjobs]
    exact add_both hbalance ih
  | collect n he =>
    have hsame : ∀ c : Connection σ, (c.collect n).outstanding = c.outstanding := fun _ => rfl
    simpa only [Chronicle.outstanding, Chronicle.jobs, he, List.flatMap_append, List.flatMap_cons,
      hsame] using ih

/-- The requests that were taken so far, of all connections. -/
def Chronicle.asked (p : Chronicle σ) : List (Codec × Frame) := p.entries.flatMap fun x => x.1.asked x.2

/-- The gists of all streams that came. -/
def Chronicle.gists (p : Chronicle σ) : List (Codec × Bytes) :=
  p.entries.filterMap fun x => Connection.gistOf? x.2

/-- Nothing runs any more, and nothing more will happen by itself. -/
def Chronicle.AtRest (p : Chronicle σ) : Prop := ∀ x ∈ p.entries, x.1.AtRest ∧ x.1.detached = []

/-- Once every handler has acted, each call that the requests asked for has counted once. -/
theorem total_of_outstanding (hadds : reg.Adds measure amount) (as : List Act)
    (hidle : (chronicle k reg as).outstanding = []) :
    let p := chronicle k reg as
    p.registry.total measure name = reg.total measure name + reg.due amount name p.asked := by
  intro p
  have hbalance : p.registry.total measure name + _ = _ := balance hadds as
  have hperm : p.jobs.Perm (p.asked.filterMap reg.assign?) := by
    rw [Chronicle.asked, List.filterMap_flatMap]
    exact List.Perm.flatMap_left _ fun x hx => jobs_perm hx
  rw [hidle, List.map_nil, List.sum_nil, add_zero] at hbalance
  rw [hbalance, (hperm.map _).sum_eq]
  rfl

/-- **At rest every request of every stream has counted once**, if its method is there and
its argument can be read, and nothing else has. -/
theorem total_at_rest (hadds : reg.Adds measure amount) (as : List Act)
    (hrest : (chronicle k reg as).AtRest) :
    let p := chronicle k reg as
    p.registry.total measure name =
      reg.total measure name + reg.due amount name (p.gists.flatMap k.requests) := by
  intro p
  have hidle : p.outstanding = [] := List.flatMap_eq_nil_iff.mpr fun x hx =>
    (known_of_mem_chronicle hx).outstanding_at_rest (hrest x hx).1 (hrest x hx).2
  have hasked : p.asked = p.gists.flatMap k.requests := by
    calc p.asked = p.entries.flatMap fun x => (Connection.gistOf? x.2).elim [] k.requests :=
          List.flatMap_congr fun x hx => asked_at_rest hx (hrest x hx).1
      _ = p.gists.flatMap k.requests := by
          rw [Chronicle.gists, List.filterMap_eq_flatMap_toList, List.flatMap_assoc]
          refine List.flatMap_congr fun x _ => ?_
          cases Connection.gistOf? x.2 <;> simp
  rw [total_of_outstanding hadds as hidle]
  exact congrArg (fun qs => reg.total measure name + reg.due amount name qs) hasked

end Server
end Callwire
