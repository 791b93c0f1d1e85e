/-
# Handlers and permits

A handler starts when its call gets a permit, and has finished when it has acted. The
call gives the permit back when its answer is handed over or cannot be framed, and that
may be before: a call that is too late is answered while its handler still runs. So there
are two accounts. The tickets of the calls with a permit and the free permits make up the
limit; the handlers that have not finished are those whose calls run and those that were
too late. Each event adds one to an account, or takes one away, or leaves it as it is.

Key definitions: `Connection.holders`, `Connection.unfinished`, `Connection.Staffed`,
`Connection.Shift`, `Connection.Toll`, `Connection.Punctual`.
Key theorems: `Connection.Step.shift`, `Connection.Step.toll`, `Connection.Staffed.step`,
`Connection.Punctual.step`.
-/
import Callwire.Proofs.Connection.Upkeep

namespace Callwire
namespace Connection

variable {σ : Type}

/-- The tickets of the calls that have a permit: those that run, and those whose answers
wait for room in the outbox. -/
def holders (c : Connection σ) : List Nat := c.running.map (·.ticket) ++ c.answered.map (·.1)

/-- The handlers that have started and not finished; the calls of the last ones were too
late. -/
def unfinished (c : Connection σ) : List (Running σ) := c.running ++ c.detached

/-- The call that waits for a permit. -/
def parked? (c : Connection σ) : Option (Invocation σ) :=
  match c.intake with
  | .parked _ job => some job
  | _ => none

/-- The tickets were given out, each once. -/
structure Issued (n : Nat) (ts : List Nat) : Prop where
  nodup : ts.Nodup
  below : ∀ t ∈ ts, t < n

/-- Both accounts are in order: every permit is free or held by one call, and every
handler has a ticket of its own. -/
structure Staffed (limit : Nat) (c : Connection σ) : Prop where
  permits : c.permits + c.holders.length = limit
  holders : Issued c.tickets c.holders
  unfinished : Issued c.tickets (c.unfinished.map (·.ticket))

/-- What an event does to the handlers and the services: nothing; or a call is taken and
counted and waits for a permit; or its handler starts; or a handler acts, and has
finished. -/
inductive Shift (now : Nat) (r : Registry σ) (c c' : Connection σ) (r' : Registry σ) : Prop where
  | rest (hp : c'.parked? = c.parked?) (hu : c'.unfinished.Perm c.unfinished)
      (ht : c'.tickets = c.tickets) (hr : r' = r)
  | accept {codec : Codec} {target : String} {body : Bytes} {job : Invocation σ}
      (hi : r.invoke codec target body = .ok (job, r')) (hp : c.parked? = none)
      (hp' : c'.parked? = some job) (hu : c'.unfinished = c.unfinished) (ht : c'.tickets = c.tickets)
  | start {call : Running σ} {terms : Terms} (hp : c.parked? = some call.job) (hp' : c'.parked? = none)
      (hc : call.ticket = c.tickets) (hs : c.terms? = some terms)
      (hd : call.deadline = if terms.budget = .zero then none else some (now + terms.budget.nanos))
      (hu : c'.unfinished.Perm (call :: c.unfinished)) (ht : c'.tickets = c.tickets + 1) (hr : r' = r)
  | done {call : Running σ} (hp : c'.parked? = c.parked?)
      (hu : c.unfinished.Perm (call :: c'.unfinished)) (ht : c'.tickets = c.tickets)
      (hr : r' = (r.act call.job).2)

/-- What an event does to the permits: nothing, and if it decided a call, the answer
waits; or a call takes one, with a ticket that no call had before; or a call gives one
back, because its answer is handed over, or because what was decided cannot be framed. -/
inductive Toll (r : Registry σ) (c : Connection σ) (e : Event) (c' : Connection σ) : Prop where
  | keep (he : e ≠ .start ∧ ∀ t, e ≠ .post t)
      (ha : ∀ t, e = .finish t ∨ e = .expire t → ∃ f, (t, f) ∈ c'.answered)
      (hp : c'.permits = c.permits) (hh : c'.holders.Perm c.holders)
  | take (he : e = .start) (hp : c'.permits + 1 = c.permits) (ht : c'.tickets = c.tickets + 1)
      (hh : c'.holders.Perm (c.tickets :: c.holders))
  | handOver {t : Nat} {f : Frame} (he : e = .post t) (ha : (t, f) ∈ c.answered)
      (hs : c.outbox.send f ≠ .full) (hp : c'.permits = c.permits + 1)
      (hh : c.holders.Perm (t :: c'.holders))
  | unsendable {call : Running σ} {terms : Terms} {v : Verdict} (hc : call ∈ c.running)
      (he : e = .finish call.ticket ∧ v = .returned (r.act call.job).1 ∨
        e = .expire call.ticket ∧ v = .late terms.budget)
      (ht : c.terms? = some terms)
      (hv : Answer.frame? terms.codec call.header (v.reply terms.codec) = none)
      (hp : c'.permits = c.permits + 1) (hh : c.holders.Perm (call.ticket :: c'.holders))

variable {now limit t : Nat} {r r' : Registry σ} {c c' : Connection σ} {e : Event} {call : Running σ}
  {cs : List (Running σ)}

/-! ### One call less -/

theorem Issued.keep {n n' : Nat} {ts ts' : List Nat} (h : Issued n ts) (hp : ts'.Perm ts)
    (hle : n ≤ n') : Issued n' ts' :=
  ⟨hp.nodup_iff.mpr h.nodup, fun t ht => Nat.lt_of_lt_of_le (h.below t (hp.mem_iff.mp ht)) hle⟩

theorem Issued.add {n : Nat} {ts ts' : List Nat} (h : Issued n ts) (hp : ts'.Perm (n :: ts)) :
    Issued (n + 1) ts' := by
  have hfresh : n ∉ ts := fun hm => Nat.lt_irrefl n (h.below n hm)
  refine ⟨hp.nodup_iff.mpr (List.nodup_cons.mpr ⟨hfresh, h.nodup⟩), fun t ht => ?_⟩
  rcases List.mem_cons.mp (hp.mem_iff.mp ht) with rfl | hm
  · exact Nat.lt_succ_self t
  · exact Nat.lt_succ_of_lt (h.below t hm)

theorem Issued.remove {n t : Nat} {ts ts' : List Nat} (h : Issued n ts) (hp : ts.Perm (t :: ts')) :
    Issued n ts' :=
  ⟨(hp.nodup_iff.mp h.nodup).of_cons, fun u hu => h.below u (hp.mem_iff.mpr (List.mem_cons_of_mem _ hu))⟩

theorem without_perm (hn : (cs.map (·.ticket)).Nodup) (hc : call? t cs = some call) :
    cs.Perm (call :: without t cs) := by
  obtain ⟨hm, rfl⟩ := mem_of_call? hc
  obtain ⟨xs, ys, rfl⟩ := List.append_of_mem hm
  simp only [List.map_append, List.map_cons, List.nodup_append, List.nodup_cons] at hn
  obtain ⟨-, ⟨hys, -⟩, hxs⟩ := hn
  have hx : without call.ticket xs = xs := List.filter_eq_self.mpr fun x hx => by
    have hne := hxs _ (List.mem_map.mpr ⟨x, hx, rfl⟩) _ List.mem_cons_self
    simpa using hne
  have hy : without call.ticket ys = ys := List.filter_eq_self.mpr fun y hy => by
    have hne : y.ticket ≠ call.ticket := fun he => hys (List.mem_map.mpr ⟨y, hy, he⟩)
    simpa using hne
  have hwithout : without call.ticket (xs ++ call :: ys) = xs ++ ys := by
    simp only [without] at hx hy
    simp [without, hx, hy]
  rw [hwithout]
  exact List.perm_middle

theorem nodup_running (hn : (c.unfinished.map (·.ticket)).Nodup) : (c.running.map (·.ticket)).Nodup :=
  hn.sublist ((List.sublist_append_left _ _).map _)

theorem nodup_detached (hn : (c.unfinished.map (·.ticket)).Nodup) : (c.detached.map (·.ticket)).Nodup :=
  hn.sublist ((List.sublist_append_right _ _).map _)

theorem parked?_settleAnswer (c : Connection σ) (t : Nat) (a : Option Frame) :
    (c.settleAnswer t a).parked? = c.parked? := by
  cases a <;> rfl

theorem unfinished_settleAnswer (c : Connection σ) (t : Nat) (a : Option Frame) :
    (c.settleAnswer t a).unfinished = c.unfinished := by
  cases a <;> rfl

theorem tickets_settleAnswer (c : Connection σ) (t : Nat) (a : Option Frame) :
    (c.settleAnswer t a).tickets = c.tickets := by
  cases a <;> rfl

theorem exists_parked {job : Invocation σ} (h : c.parked? = some job) :
    ∃ terms hd, c.stage = .serving terms (.parked hd job) := by
  cases hs : c.stage with
  | serving terms i =>
    cases i with
    | parked hd job' =>
      simp only [parked?, intake, hs, Option.some.injEq] at h
      exact ⟨terms, hd, by rw [h]⟩
    | _ => simp [parked?, intake, hs] at h
  | _ => simp [parked?, intake, hs] at h

/-! ### Handlers -/

/-- Taking a frame makes it a call that waits, or changes no service. -/
theorem dispatch_cases (terms : Terms) (r : Registry σ) (f : Frame) :
    (∃ h job r', r.invoke terms.codec h.target f.body = .ok (job, r') ∧
      dispatch terms r f = (.parked h job, r')) ∨
    ((∀ h job, (dispatch terms r f).1 ≠ .parked h job) ∧ (dispatch terms r f).2 = r) := by
  unfold dispatch
  split
  · exact .inr ⟨nofun, rfl⟩
  · rename_i h hh
    split
    · rename_i job r' hi
      exact .inl ⟨h, job, r', hi, rfl⟩
    · split
      · exact .inr ⟨nofun, rfl⟩
      · exact .inr ⟨nofun, rfl⟩

/-- **An event takes a call, or starts a handler, or lets one act, or none of these.** -/
theorem Step.shift (h : Step now r c e c' r') (hn : (c.unfinished.map (·.ticket)).Nodup) :
    Shift now r c c' r' := by
  cases h with
  | receive _ | hangUp | lose | write _ _ _ | release _ _ _ _ => exact .rest rfl (.refl _) rfl rfl
  | post _ _ | discard _ _ => exact .rest rfl (.refl _) rfl rfl
  | head hst hr =>
    obtain ⟨u, w, stage, hstage, rfl⟩ := readHead_cases hr
    refine .rest ?_ (.refl _) rfl rfl
    rcases hstage with ⟨hd, rfl⟩ | rfl | rfl <;> simp [parked?, intake, hst]
  | options hst hr =>
    rcases readOptions_cases hr with ⟨line, b, o, -, -, -, rfl⟩ | ⟨⟨b, -, rfl⟩, -⟩ <;>
      exact .rest (by simp [parked?, intake, hst]) (.refl _) rfl rfl
  | @frame terms f b hst hf =>
    have hp : c.parked? = none := by simp only [parked?, intake, hst]
    obtain ⟨h, job, r₁, hi, hd⟩ | ⟨hne, hr⟩ := dispatch_cases terms r f
    · rw [hd]
      exact .accept hi hp rfl rfl rfl
    · refine .rest ?_ (.refl _) rfl hr
      rw [hp]
      cases hd : (dispatch terms r f).1 with
      | parked h job => exact absurd hd (hne h job)
      | _ => simp only [parked?, intake]
  | stop hst _ | refuse hst _ | drop hst _ =>
    exact .rest (by simp only [parked?, intake, hst]) (.refl _) rfl rfl
  | @start terms h job deadline hst hp hd =>
    let call : Running σ := ⟨c.tickets, h, job, now + job.behaviour.wait.nanos, deadline⟩
    have hparked : c.parked? = some call.job := by simp only [parked?, intake, hst, call]
    have hu : (c.running ++ [call] ++ c.detached).Perm (call :: (c.running ++ c.detached)) := by
      rw [List.append_assoc]
      exact List.perm_middle
    exact .start hparked rfl rfl (by simp only [terms?, hst]) hd hu rfl rfl
  | @finish terms i t call hst hc hd =>
    have hperm := without_perm (nodup_running hn) hc
    refine .done (parked?_settleAnswer _ _ _) ?_ (tickets_settleAnswer _ _ _) rfl
    rw [unfinished_settleAnswer]
    exact hperm.append_right c.detached
  | @expire terms i t call hst hc =>
    refine .rest (parked?_settleAnswer _ _ _) ?_ (tickets_settleAnswer _ _ _) rfl
    have hperm := without_perm (nodup_running hn) hc
    rw [unfinished_settleAnswer]
    have hlast : (without t c.running ++ (c.detached ++ [call])).Perm
        (call :: (without t c.running ++ c.detached)) := by
      rw [← List.append_assoc]
      exact List.perm_append_singleton _ _
    exact hlast.trans (hperm.append_right c.detached).symm
  | @retire t call hc =>
    have hperm := without_perm (nodup_detached hn) hc
    exact .done rfl ((hperm.append_left c.running).trans List.perm_middle) rfl rfl

/-! ### Permits -/

/-- A call that is decided keeps its permit as long as its answer waits, and gives it back
if there is none. -/
theorem toll_settleAnswer {d : Connection σ} (hrun : c.running.Perm (call :: d.running))
    (hans : d.answered = c.answered) (hp : d.permits = c.permits) (a : Option Frame) :
    ((∃ f, (call.ticket, f) ∈ (d.settleAnswer call.ticket a).answered) ∧
      (d.settleAnswer call.ticket a).permits = c.permits ∧
      (d.settleAnswer call.ticket a).holders.Perm c.holders) ∨
    (a = none ∧ (d.settleAnswer call.ticket a).permits = c.permits + 1 ∧
      c.holders.Perm (call.ticket :: (d.settleAnswer call.ticket a).holders)) := by
  have hall : c.holders.Perm (call.ticket :: d.holders) := by
    unfold holders
    rw [hans]
    exact (hrun.map (·.ticket)).append_right _
  cases a with
  | none => exact .inr ⟨rfl, congrArg (· + 1) hp, hall⟩
  | some f =>
    refine .inl ⟨⟨f, by simp [settleAnswer]⟩, hp, ?_⟩
    have hlast : (d.settleAnswer call.ticket (some f)).holders = d.holders ++ [call.ticket] := by
      simp [settleAnswer, holders]
    rw [hlast]
    exact (List.perm_append_singleton _ _).trans hall.symm

/-- **An event gives one permit to a call, or takes one back from a call, or neither.** -/
theorem Step.toll (h : Step now r c e c' r') (hn : c.holders.Nodup) : Toll r c e c' := by
  have hrunning : (c.running.map (·.ticket)).Nodup := (List.nodup_append.mp hn).1
  have hanswered : (c.answered.map (·.1)).Nodup := (List.nodup_append.mp hn).2.1
  have hpost : ∀ {t f}, c.answered.lookup t = some f → (t, f) ∈ c.answered ∧
      c.holders.Perm (t :: (c.running.map (·.ticket) ++ (c.answered.filter (·.1 != t)).map (·.1))) := by
    intro t f ha
    obtain ⟨p, q, has, hfilter⟩ := lookup_split ha hanswered
    refine ⟨by rw [has]; simp, ?_⟩
    rw [holders, hfilter, has]
    simp only [List.map_append, List.map_cons, ← List.append_assoc]
    exact List.perm_middle
  cases h with
  | receive _ | hangUp | lose | retire _ | stop _ _ => exact .keep (by simp) (by simp) rfl (.refl _)
  | frame _ _ | refuse _ _ | drop _ _ | release _ _ _ _ | write _ _ _ =>
    exact .keep (by simp) (by simp) rfl (.refl _)
  | head hst hr =>
    obtain ⟨u, w, stage, -, rfl⟩ := readHead_cases hr
    exact .keep (by simp) (by simp) rfl (.refl _)
  | options hst hr =>
    rcases readOptions_cases hr with ⟨line, b, o, -, -, -, rfl⟩ | ⟨⟨b, -, rfl⟩, -⟩ <;>
      exact .keep (by simp) (by simp) rfl (.refl _)
  | start hst hp =>
    refine .take rfl ?_ rfl ?_
    · show c.permits - 1 + 1 = c.permits
      omega
    · unfold holders
      rw [List.map_append, List.append_assoc]
      exact List.perm_middle
  | @finish terms i t call hst hc hd =>
    have hperm := without_perm hrunning hc
    obtain ⟨hm, rfl⟩ := mem_of_call? hc
    obtain ⟨hw, hp, hh⟩ | ⟨ha, hp, hh⟩ := toll_settleAnswer (d := { c with
      running := without call.ticket c.running }) hperm rfl rfl
      (Answer.frame? terms.codec call.header ((r.act call.job).1.toReply terms.codec))
    · exact .keep (by simp) (by rintro t (he | he) <;> cases he; exact hw) hp hh
    · exact .unsendable hm (.inl ⟨rfl, rfl⟩) (by simp [terms?, hst]) ha hp hh
  | @expire terms i t call hst hc =>
    have hperm := without_perm hrunning hc
    obtain ⟨hm, rfl⟩ := mem_of_call? hc
    obtain ⟨hw, hp, hh⟩ | ⟨ha, hp, hh⟩ := toll_settleAnswer (d := { c with
      running := without call.ticket c.running
      detached := c.detached ++ [call] }) hperm rfl rfl
      (Answer.failure? terms.codec call.header (.handleTimeout terms.budget))
    · exact .keep (by simp) (by rintro t (he | he) <;> cases he; exact hw) hp hh
    · exact .unsendable hm (.inr ⟨rfl, rfl⟩) (by simp [terms?, hst]) ha hp hh
  | post ha ho =>
    obtain ⟨hm, hh⟩ := hpost ha
    exact .handOver rfl hm (by simp [ho]) rfl hh
  | discard ha ho =>
    obtain ⟨hm, hh⟩ := hpost ha
    exact .handOver rfl hm (by simp [ho]) rfl hh

theorem Shift.tickets_le (h : Shift now r c c' r') : c.tickets ≤ c'.tickets := by
  cases h with
  | rest _ _ ht _ | accept _ _ _ _ ht | done _ _ ht _ => exact Nat.le_of_eq ht.symm
  | start _ _ _ _ _ _ ht _ => omega

/-- **The accounts are in order after every event.** -/
theorem Staffed.step (h : Step now r c e c' r') (hs : c.Staffed limit) : c'.Staffed limit := by
  have hshift := h.shift hs.unfinished.nodup
  have htoll := h.toll hs.holders.nodup
  have hle := hshift.tickets_le
  have hpermits := hs.permits
  have hunfinished : Issued c'.tickets (c'.unfinished.map (·.ticket)) := by
    cases hshift with
    | rest _ hu _ _ => exact hs.unfinished.keep (hu.map _) hle
    | accept _ _ _ hu _ => exact hs.unfinished.keep (.of_eq (congrArg (List.map (·.ticket)) hu)) hle
    | start _ _ hc _ _ hu ht _ =>
      have hmap := hu.map (·.ticket)
      rw [List.map_cons, hc] at hmap
      rw [ht]
      exact hs.unfinished.add hmap
    | done _ hu ht _ =>
      rw [ht]
      exact hs.unfinished.remove (hu.map _)
  cases htoll with
  | keep _ _ hp hh =>
    have hlen := hh.length_eq
    exact ⟨by omega, hs.holders.keep hh hle, hunfinished⟩
  | take _ hp ht hh =>
    have hlen := hh.length_eq
    rw [List.length_cons] at hlen
    have hadd := hs.holders.add hh
    rw [← ht] at hadd
    exact ⟨by omega, hadd, hunfinished⟩
  | handOver _ _ _ hp hh | unsendable _ _ _ _ hp hh =>
    have hlen := hh.length_eq
    rw [List.length_cons] at hlen
    exact ⟨by omega, (hs.holders.remove hh).keep (.refl _) hle, hunfinished⟩

theorem staffed_fresh (limit permits capacity : Nat) (tunnelled : Bool) :
    (fresh (σ := σ) limit permits capacity tunnelled).Staffed (max 1 permits) :=
  ⟨rfl, ⟨List.nodup_nil, nofun⟩, ⟨List.nodup_nil, nofun⟩⟩

/-! ### Deadlines -/

/-- Handlers go on without a permit only after the deadline of their call, and without a
budget there is none. -/
structure Punctual (now : Nat) (c : Connection σ) : Prop where
  late : ∀ call ∈ c.detached, ∃ d, call.deadline = some d ∧ d ≤ now
  unhurried : ∀ terms, c.terms? = some terms → terms.budget = .zero →
    ∀ call ∈ c.unfinished, call.deadline = none
  unserved : c.terms? = none → c.unfinished = []

theorem detached_settleAnswer (c : Connection σ) (t : Nat) (a : Option Frame) :
    (c.settleAnswer t a).detached = c.detached := by
  cases a <;> rfl

theorem Punctual.late_step (h : Step now r c e c' r') (hp : c.Punctual now) :
    ∀ call ∈ c'.detached, ∃ d, call.deadline = some d ∧ d ≤ now := by
  cases h with
  | receive _ | hangUp | lose | stop _ _ | frame _ _ | refuse _ _ | drop _ _ => exact hp.late
  | start _ _ _ | post _ _ | discard _ _ | release _ _ _ _ | write _ _ _ => exact hp.late
  | head hst hr =>
    obtain ⟨u, w, stage, -, rfl⟩ := readHead_cases hr
    exact hp.late
  | options hst hr =>
    rcases readOptions_cases hr with ⟨line, b, o, -, -, -, rfl⟩ | ⟨⟨b, -, rfl⟩, -⟩ <;> exact hp.late
  | finish hst hc hd =>
    rw [detached_settleAnswer]
    exact hp.late
  | expire hst hc hd =>
    rw [detached_settleAnswer]
    exact List.forall_mem_append.mpr ⟨hp.late, List.forall_mem_singleton.mpr hd⟩
  | retire hc => exact fun call hm => hp.late call (mem_without.mp hm).1

theorem Punctual.step (h : Step now r c e c' r') (hn : (c.unfinished.map (·.ticket)).Nodup)
    (hp : c.Punctual now) : c'.Punctual now := by
  have hshift := h.shift hn
  refine ⟨hp.late_step h, fun terms hs hz => ?_, fun hs => ?_⟩
  · have hold : ∀ call ∈ c.unfinished, call.deadline = none := by
      intro call hc
      cases hbefore : c.terms? with
      | none =>
        rw [hp.unserved hbefore] at hc
        cases hc
      | some terms' =>
        obtain rfl := Option.some.inj ((terms?_step h hbefore).symm.trans hs)
        exact hp.unhurried _ hbefore hz call hc
    cases hshift with
    | rest _ hu _ _ => exact fun call hc => hold call (hu.mem_iff.mp hc)
    | accept _ _ _ hu _ => exact fun call hc => hold call (hu ▸ hc)
    | start _ _ _ hs' hd hu _ _ =>
      intro call hc
      rcases List.mem_cons.mp (hu.mem_iff.mp hc) with rfl | hc
      · obtain rfl := Option.some.inj ((terms?_step h hs').symm.trans hs)
        rw [hd, if_pos hz]
      · exact hold call hc
    | done _ hu _ _ => exact fun call hc => hold call (hu.mem_iff.mpr (List.mem_cons_of_mem _ hc))
  · have hbefore : c.terms? = none := Option.eq_none_iff_forall_ne_some.mpr fun terms hs' => by
      rw [terms?_step h hs'] at hs
      cases hs
    have hnil := hp.unserved hbefore
    cases hshift with
    | rest _ hu _ _ => exact List.perm_nil.mp (hnil ▸ hu)
    | accept _ _ _ hu _ => rw [hu, hnil]
    | start _ _ _ hs' _ _ _ _ =>
      rw [hbefore] at hs'
      cases hs'
    | done _ hu _ _ =>
      rw [hnil] at hu
      exact absurd hu.symm.eq_nil (List.cons_ne_nil _ _)

theorem Punctual.later {now' : Nat} (hp : c.Punctual now) (hle : now ≤ now') : c.Punctual now' := by
  refine ⟨fun call hc => ?_, hp.unhurried, hp.unserved⟩
  obtain ⟨d, hd, hdn⟩ := hp.late call hc
  exact ⟨d, hd, Nat.le_trans hdn hle⟩

theorem punctual_fresh (limit permits capacity : Nat) (tunnelled : Bool) :
    (fresh (σ := σ) limit permits capacity tunnelled).Punctual now := by
  refine ⟨nofun, fun terms hs _ => ?_, fun _ => rfl⟩
  cases tunnelled <;> cases hs

theorem Punctual.detached_eq_nil (hp : c.Punctual now)
    (hz : ∀ terms, c.terms? = some terms → terms.budget = .zero) : c.detached = [] := by
  refine List.eq_nil_iff_forall_not_mem.mpr fun call hc => ?_
  have hmem : call ∈ c.unfinished := List.mem_append_right _ hc
  cases hs : c.terms? with
  | none =>
    rw [hp.unserved hs] at hmem
    cases hmem
  | some terms =>
    obtain ⟨d, hd, -⟩ := hp.late call hc
    rw [hp.unhurried terms hs (hz terms hs) call hmem] at hd
    cases hd

end Connection
end Callwire
