/-
# Every request is decided once

The journal agrees with the state of the connection at all times. A request that
is not decided is the one that waits for a permit or a call that runs; a call
that runs belongs to a request that is not decided. A request that is decided
has the answer that its verdict calls for, or none if that has no room, and the
verdict has its grounds in the request.

Key definitions: `Exchange.Decided`, `Connection.Tidy`, `Connection.Accounts`.
Key theorems: `Connection.Tidy.step`, `Connection.Accounts.settle`,
`Connection.Accounts.step`.
-/
import Callwire.Proofs.Connection.Journal
import Callwire.Proofs.Registry

namespace Callwire

variable {σ : Type}

namespace Exchange

/-- What a verdict goes by: the request asks for nothing that there is, or for a
call, whose handler gave the outcome, or whose budget is that of the connection. -/
def Grounds (reg : Registry σ) (terms : Terms) (x : Exchange σ) : Verdict → Prop
  | .refused why => reg.assign terms.codec x.header.target x.request.body = .error why
  | .returned o => ∃ i st, reg.assign terms.codec x.header.target x.request.body = .ok i ∧
      o = (i.behaviour.act st).2
  | .late budget => budget = terms.budget ∧
      ∃ i, reg.assign terms.codec x.header.target x.request.body = .ok i

/-- The exchange has the answer that its verdict calls for. -/
def Decided (reg : Registry σ) (terms : Terms) (x : Exchange σ) : Prop :=
  match x.verdict with
  | none => x.answer = none
  | some v => x.answer = Answer.frame? terms.codec x.header (v.reply terms.codec) ∧
      x.Grounds reg terms v

end Exchange

namespace Connection

/-- What the options settled, once they are read. -/
def terms? (c : Connection σ) : Option Terms :=
  match c.stage with
  | .serving terms _ => some terms
  | _ => none

/-- What the reader of requests does; before the options it holds nothing. -/
def intake (c : Connection σ) : Intake σ :=
  match c.stage with
  | .serving _ i => i
  | _ => .reading

variable {now : Nat} {r r' reg : Registry σ} {c c' : Connection σ} {e : Event} {terms : Terms}
  {j : Journal σ}

theorem eq_terms {terms' : Terms} {i : Intake σ} (hs : c.stage = .serving terms' i)
    (ht : c.terms? = some terms) : terms' = terms ∧ c.intake = i := by
  simp only [terms?, hs, Option.some.injEq] at ht
  exact ⟨ht, by simp [intake, hs]⟩

theorem exists_serving (h : c.terms? = some terms) : ∃ i, c.stage = .serving terms i := by
  rw [terms?] at h
  split at h
  · rename_i i hst
    exact ⟨i, by rw [hst, Option.some.inj h]⟩
  · cases h

/-! ### The state alone -/

/-- A connection that serves has room for an answer, and permits or calls that
will give theirs back. Nobody can hand over more once the outbox is released. -/
structure Tidy (c : Connection σ) : Prop where
  capacity : 0 < c.outbox.capacity
  permits : 0 < c.permits + c.running.length + c.answered.length
  orderly : c.outbox.Orderly
  released : c.outbox.released = true → c.intake = .stopped ∧ c.running = [] ∧ c.answered = []
  failed : c.outbox.state = .failed → c.lost = true

theorem Tidy.not_released (ht : c.Tidy) (hi : c.intake ≠ .stopped) : c.outbox.released ≠ true :=
  fun h => hi (ht.released h).1

theorem intake_ne_stopped {i : Intake σ} (hs : c.stage = .serving terms i) (hi : i ≠ .stopped) :
    c.intake ≠ .stopped := by
  simpa [intake, hs] using hi

/-- An outbox that refuses while it may still be released has failed. -/
theorem Tidy.failed_of_refused (ht : c.Tidy) {f : Frame} (ho : c.outbox.send f = .refused)
    (hr : c.outbox.released ≠ true) : c.outbox.state = .failed := by
  have hw := Outbox.send_refused ho
  cases hs : c.outbox.state with
  | working => exact absurd hs hw
  | closed => exact absurd (ht.orderly hs).1 hr
  | failed => rfl

theorem Tidy.send (ht : c.Tidy) {f : Frame} {o : Outbox} (ho : c.outbox.send f = .queued o) :
    0 < o.capacity ∧ o.Orderly ∧ o.released = c.outbox.released ∧ o.state = .working := by
  have horder := Outbox.Orderly.send ho
  obtain ⟨hw, rfl⟩ := Outbox.send_queued ho
  exact ⟨ht.capacity, horder, rfl, hw⟩

/-- Settling a call frees a permit or leaves an answer. -/
theorem Tidy.settleAnswer {d : Connection σ} (ht : c.Tidy) (ho : d.outbox = c.outbox)
    (hl : d.lost = c.lost) (hr : c.outbox.released ≠ true) (t : Nat) (a : Option Frame) :
    (d.settleAnswer t a).Tidy := by
  cases a with
  | none =>
    refine ⟨by simpa [Connection.settleAnswer, ho] using ht.capacity, ?_,
      by simpa [Connection.settleAnswer, ho] using ht.orderly, fun h => ?_, fun h => ?_⟩
    · simp only [Connection.settleAnswer]
      omega
    · exact absurd (by simpa [Connection.settleAnswer, ho] using h) hr
    · simp only [Connection.settleAnswer, ho] at h
      simpa [Connection.settleAnswer, hl] using ht.failed h
  | some f =>
    refine ⟨by simpa [Connection.settleAnswer, ho] using ht.capacity, ?_,
      by simpa [Connection.settleAnswer, ho] using ht.orderly, fun h => ?_, fun h => ?_⟩
    · simp only [Connection.settleAnswer, List.length_append, List.length_cons]
      omega
    · exact absurd (by simpa [Connection.settleAnswer, ho] using h) hr
    · simp only [Connection.settleAnswer, ho] at h
      simpa [Connection.settleAnswer, hl] using ht.failed h

theorem call?_ne_nil {t : Nat} {call : Running σ} (hc : call? t c.running = some call) :
    c.running ≠ [] := by
  intro hn
  rw [hn] at hc
  cases hc

theorem lookup_ne_nil {t : Nat} {f : Frame} (ha : c.answered.lookup t = some f) :
    c.answered ≠ [] := by
  intro hn
  rw [hn] at ha
  cases ha

theorem Tidy.step (h : Step now r c e c' r') (hs : c.terms? = some terms) (ht : c.Tidy) :
    c'.Tidy := by
  cases h with
  | receive _ | hangUp => exact { ht with }
  | lose => exact { ht with failed := fun _ => rfl }
  | head hst _ | options hst _ => simp [terms?, hst] at hs
  | frame hst _ =>
    exact { ht with released := fun h => absurd h (ht.not_released (intake_ne_stopped hst nofun)) }
  | stop hst _ =>
    exact { ht with released := fun h => absurd h (ht.not_released (intake_ne_stopped hst nofun)) }
  | refuse hst ho =>
    have hr := ht.not_released (intake_ne_stopped hst nofun)
    obtain ⟨hcap, horder, hrel, hw⟩ := ht.send ho
    exact ⟨hcap, ht.permits, horder, fun h => absurd (hrel ▸ h) hr, fun h => by simp [hw] at h⟩
  | drop hst ho =>
    exact { ht with released := fun h => absurd h (ht.not_released (intake_ne_stopped hst nofun)) }
  | start hst hp =>
    have hr := ht.not_released (intake_ne_stopped hst nofun)
    refine { ht with permits := ?_, released := fun h => absurd h hr }
    simp only [List.length_append, List.length_cons]
    omega
  | @finish terms intake t call hst hc hd =>
    exact ht.settleAnswer (d := { c with running := without t c.running }) rfl rfl
      (fun h => call?_ne_nil hc (ht.released h).2.1) t _
  | @expire terms intake t call hst hc =>
    exact ht.settleAnswer
      (d := { c with running := without t c.running, detached := c.detached ++ [call] }) rfl rfl
      (fun h => call?_ne_nil hc (ht.released h).2.1) t _
  | retire hc => exact { ht with }
  | post ha ho =>
    obtain ⟨hcap, horder, hrel, hw⟩ := ht.send ho
    refine ⟨hcap, ?_, horder, fun h => ?_, fun h => by simp [hw] at h⟩
    · simp only
      omega
    · exact absurd (ht.released (hrel ▸ h)).2.2 (lookup_ne_nil ha)
  | discard ha ho =>
    refine { ht with
      permits := ?_
      released := fun h => absurd (ht.released h).2.2 (lookup_ne_nil ha) }
    simp only
    omega
  | release hst hr ha ho =>
    exact { ht with
      orderly := fun h => ⟨rfl, (ht.orderly h).2⟩
      released := fun _ => ⟨by simp [intake, hst], hr, ha⟩ }
  | write hst hf ho =>
    obtain ⟨hrel, hcap⟩ := Outbox.step_released ho
    refine ⟨by simpa [hcap] using ht.capacity, ht.permits, Outbox.Orderly.step ho,
      fun h => ht.released (hrel ▸ h), fun h => ?_⟩
    obtain ⟨hw, hcases⟩ := Outbox.step_cases ho
    rcases hcases with ⟨f, queue, b, -, -, -, rfl⟩ | ⟨n, -, -, -, rfl⟩ | ⟨rfl, -, -⟩ | ⟨-, -, -, -, rfl⟩
    · simp [hw] at h
    · simp [hw] at h
    · exact hf rfl
    · simp at h

/-! ### The journal and the calls -/

/-- Who is not decided runs. -/
def Open (running : List (Running σ)) (xs : List (Exchange σ)) : Prop :=
  ∀ x ∈ xs, x.verdict = none → ∃ call ∈ running, x.ticket = some call.ticket

/-- Who is not decided runs, or came last and waits for a permit. -/
def Waiting (i : Intake σ) (running : List (Running σ)) (xs : List (Exchange σ)) : Prop :=
  match i with
  | .parked h job => ∃ x rest, xs = x :: rest ∧ x.ticket = none ∧ x.verdict = none ∧
      x.header = h ∧ x.job = some job ∧ Open running rest
  | _ => Open running xs

/-- The exchanges agree with the calls that run and the answers that wait. -/
structure Accounts (reg : Registry σ) (terms : Terms) (c : Connection σ) (xs : List (Exchange σ)) :
    Prop where
  read : ∀ x ∈ xs, x.request.readHeader terms.codec = .ok x.header
  job : ∀ x ∈ xs, ∀ i, x.job = some i →
    reg.assign terms.codec x.header.target x.request.body = .ok i
  decided : ∀ x ∈ xs, x.Decided reg terms
  nodup : (Journal.tickets xs).Nodup
  below : ∀ t ∈ Journal.tickets xs, t < c.tickets
  distinct : (c.running.map (·.ticket)).Nodup
  running : ∀ call ∈ c.running, ∃ x ∈ xs, x.ticket = some call.ticket ∧ x.verdict = none ∧
    x.header = call.header ∧ x.job = some call.job
  waiting : Waiting c.intake c.running xs
  once : (c.answered.map (·.1)).Nodup
  answered : ∀ p ∈ c.answered, ∃ x ∈ xs, x.ticket = some p.1 ∧ x.answer = some p.2

theorem mem_of_call? {t : Nat} {cs : List (Running σ)} {call : Running σ} (h : call? t cs = some call) :
    call ∈ cs ∧ call.ticket = t :=
  ⟨List.mem_of_find?_eq_some h, by simpa using List.find?_some h⟩

theorem mem_without {t : Nat} {cs : List (Running σ)} {call : Running σ} :
    call ∈ without t cs ↔ call ∈ cs ∧ call.ticket ≠ t := by
  simp [without]

variable {xs : List (Exchange σ)} {t : Nat} {call : Running σ} {x : Exchange σ}

theorem Accounts.ne_of_running (ha : Accounts reg terms c xs) (hc : call? t c.running = some call) :
    ∀ p ∈ c.answered, p.1 ≠ t := by
  obtain ⟨hm, rfl⟩ := mem_of_call? hc
  obtain ⟨x, hx, htx, hv, -, -⟩ := ha.running call hm
  rintro p hp hpt
  obtain ⟨y, hy, hty, hay⟩ := ha.answered p hp
  obtain rfl := Journal.eq_of_ticket ha.nodup hx hy htx (hpt ▸ hty)
  have hd := ha.decided x hx
  simp [Exchange.Decided, hv, hay] at hd

theorem lookup_settled {as : List (Nat × Frame)} (h : ∀ p ∈ as, p.1 ≠ t) (a : Option Frame) :
    (as ++ a.toList.map (Prod.mk t)).lookup t = a := by
  induction as with
  | nil => cases a <;> simp
  | cons p as ih =>
    have hp : (t == p.1) = false :=
      beq_eq_false_iff_ne.mpr (h p List.mem_cons_self).symm
    rw [List.cons_append, List.lookup_cons, hp]
    exact ih fun q hq => h q (List.mem_cons_of_mem _ hq)

theorem running_settleAnswer (c : Connection σ) (t : Nat) (a : Option Frame) :
    (c.settleAnswer t a).running = c.running := by
  cases a <;> rfl

theorem answered_settleAnswer (c : Connection σ) (t : Nat) (a : Option Frame) :
    (c.settleAnswer t a).answered = c.answered ++ a.toList.map (Prod.mk t) := by
  cases a <;> simp [settleAnswer]

theorem Open.settle {running : List (Running σ)} (ho : Open running xs) (v : Verdict)
    (a : Option Frame) : Open (without t running) (Exchange.settle t v a xs) := by
  intro y hy hv
  obtain ⟨x, hx, rfl⟩ := List.mem_map.mp hy
  by_cases ht : x.ticket = some t
  · simp [ht] at hv
  · rw [if_neg ht] at hv ⊢
    obtain ⟨call, hm, hc⟩ := ho x hx hv
    refine ⟨call, mem_without.mpr ⟨hm, fun h => ht ?_⟩, hc⟩
    rw [hc, h]

theorem Waiting.settle {i : Intake σ} {running : List (Running σ)} (hw : Waiting i running xs)
    (v : Verdict) (a : Option Frame) : Waiting i (without t running) (Exchange.settle t v a xs) := by
  cases i with
  | parked h job =>
    obtain ⟨x, rest, rfl, ht, hv, hh, hj, ho⟩ := hw
    refine ⟨x, Exchange.settle t v a rest, ?_, ht, hv, hh, hj, ho.settle v a⟩
    simp [Exchange.settle, ht]
  | reading => exact Open.settle (t := t) hw v a
  | refusing f => exact Open.settle (t := t) hw v a
  | stopped => exact Open.settle (t := t) hw v a

/-- **Deciding a call settles its exchange.** -/
theorem Accounts.settle (ha : Accounts reg terms c xs) (hc : call? t c.running = some call)
    (hx : x ∈ xs) (htx : x.ticket = some t) {v : Verdict} {a : Option Frame}
    (hd : Exchange.Decided reg terms { x with verdict := some v, answer := a })
    {d : Connection σ} (hrun : d.running = without t c.running)
    (hans : d.answered = c.answered ++ a.toList.map (Prod.mk t)) (htick : d.tickets = c.tickets)
    (hint : d.intake = c.intake) : Accounts reg terms d (Exchange.settle t v a xs) := by
  have hne := ha.ne_of_running hc
  have hold : ∀ y ∈ xs, y.ticket ≠ some t → y ∈ Exchange.settle t v a xs := fun y hy ht =>
    List.mem_map.mpr ⟨y, hy, if_neg ht⟩
  have hnew : { x with verdict := some v, answer := a } ∈ Exchange.settle t v a xs :=
    List.mem_map.mpr ⟨x, hx, if_pos htx⟩
  constructor
  case read =>
    intro y hy
    obtain ⟨z, hz, rfl⟩ := List.mem_map.mp hy
    split
    · exact ha.read z hz
    · exact ha.read z hz
  case job =>
    intro y hy i hi
    obtain ⟨z, hz, rfl⟩ := List.mem_map.mp hy
    by_cases htz : z.ticket = some t
    · rw [if_pos htz] at hi ⊢
      exact ha.job z hz i hi
    · rw [if_neg htz] at hi ⊢
      exact ha.job z hz i hi
  case decided =>
    intro y hy
    obtain ⟨z, hz, rfl⟩ := List.mem_map.mp hy
    by_cases htz : z.ticket = some t
    · rw [if_pos htz, Journal.eq_of_ticket ha.nodup hz hx htz htx]
      exact hd
    · rw [if_neg htz]
      exact ha.decided z hz
  case nodup =>
    rw [Journal.tickets_settle]
    exact ha.nodup
  case below =>
    rw [Journal.tickets_settle, htick]
    exact ha.below
  case distinct =>
    rw [hrun]
    exact ha.distinct.sublist (List.Sublist.map _ List.filter_sublist)
  case running =>
    intro k hk
    rw [hrun] at hk
    obtain ⟨hk, hkt⟩ := mem_without.mp hk
    obtain ⟨y, hy, hty, hy'⟩ := ha.running k hk
    exact ⟨y, hold y hy (by rw [hty]; simpa using hkt), hty, hy'⟩
  case waiting =>
    rw [hrun, hint]
    exact ha.waiting.settle v a
  case once =>
    rw [hans, List.map_append, List.nodup_append]
    refine ⟨ha.once, by cases a <;> simp, ?_⟩
    rintro k hk k' hk' rfl
    obtain ⟨p, hp, rfl⟩ := List.mem_map.mp hk
    obtain ⟨q, hq, hqp⟩ := List.mem_map.mp hk'
    obtain ⟨f, -, rfl⟩ := List.mem_map.mp hq
    exact hne p hp hqp.symm
  case answered =>
    intro p hp
    rw [hans, List.mem_append] at hp
    rcases hp with hp | hp
    · obtain ⟨y, hy, hty, hay⟩ := ha.answered p hp
      exact ⟨y, hold y hy (by rw [hty]; simpa using hne p hp), hty, hay⟩
    · obtain ⟨f, hf, rfl⟩ := List.mem_map.mp hp
      exact ⟨_, hnew, htx, by simpa using hf⟩

theorem assign_of_invoke (hp : r.plan = reg.plan) (codec : Codec) (target : String) (body : Bytes) :
    reg.assign codec target body = (r.invoke codec target body).map (·.1) :=
  (Registry.assign_congr hp codec target body).symm

/-- The exchange of a request that was just read has its answer already, or waits. -/
theorem begin_cases (hp : r.plan = reg.plan) {f : Frame} {h : Header} {b : Frame.Buffer}
    (hh : f.readHeader terms.codec = .ok h) :
    let c' : Connection σ := { c with buffer := b, stage := .serving terms (dispatch terms r f).1 }
    let x := Exchange.begin terms r c' f h
    x.request = f ∧ x.header = h ∧ x.ticket = none ∧ x.Decided reg terms ∧
      (∀ i, x.job = some i → reg.assign terms.codec h.target f.body = .ok i) ∧
      ((∃ job, c'.intake = .parked h job ∧ x.job = some job ∧ x.verdict = none) ∨
        (∃ a, c'.intake = .refusing a ∧ x.answer = some a ∧ x.verdict ≠ none) ∨
        (c'.intake = .reading ∧ x.answer = none ∧ x.verdict ≠ none)) := by
  intro c' x
  have hg := assign_of_invoke hp terms.codec h.target f.body
  have hi : c'.intake = (dispatch terms r f).1 := rfl
  cases hinv : r.invoke terms.codec h.target f.body with
  | ok p =>
    have hd : (dispatch terms r f).1 = .parked h p.1 := by simp only [dispatch, hh, hinv]
    have hx : x = { request := f, header := h, job := some p.1 } := by
      simp only [x, Exchange.begin, hinv]
    rw [hinv] at hg
    rw [hx]
    refine ⟨rfl, rfl, rfl, rfl, fun i hij => ?_, .inl ⟨p.1, by rw [hi, hd], rfl, rfl⟩⟩
    rw [← Option.some.inj hij]
    exact hg
  | error why =>
    have hx : x = { request := f, header := h, verdict := some (.refused why),
                    answer := Answer.failure? terms.codec h why } := by
      have hr : Exchange.refusal? c' = Answer.failure? terms.codec h why := by
        simp only [Exchange.refusal?, c', dispatch, hh, hinv]
        cases Answer.failure? terms.codec h why <;> rfl
      simp only [x, Exchange.begin, hinv, hr]
    rw [hinv] at hg
    rw [hx]
    refine ⟨rfl, rfl, rfl, ⟨rfl, hg⟩, by simp, ?_⟩
    cases hf : Answer.failure? terms.codec h why with
    | some a => exact .inr (.inl ⟨a, by simp only [hi, dispatch, hh, hinv, hf], rfl, by simp⟩)
    | none => exact .inr (.inr ⟨by simp only [hi, dispatch, hh, hinv, hf], rfl, by simp⟩)

theorem Accounts.frame (ha : Accounts reg terms c xs) (hi : c.intake = .reading)
    (hp : r.plan = reg.plan) (f : Frame) (b : Frame.Buffer) :
    let c' : Connection σ := { c with buffer := b, stage := .serving terms (dispatch terms r f).1 }
    Accounts reg terms c' (match f.readHeader terms.codec with
      | .ok h => .begin terms r c' f h :: xs
      | .error _ => xs) := by
  intro c'
  have ho : Open c.running xs := by simpa [Waiting, hi] using ha.waiting
  cases hh : f.readHeader terms.codec with
  | error why =>
    have hd : c'.intake = .stopped := by simp [c', intake, dispatch, hh]
    exact { ha with waiting := by rw [hd]; exact ho }
  | ok h =>
    obtain ⟨hxr, hxh, hxt, hxd, hxj, hcases⟩ := begin_cases (c := c) (b := b) hp hh
    simp only
    generalize Exchange.begin terms r c' f h = x at *
    have htick : Journal.tickets (x :: xs) = Journal.tickets xs := by
      simp [Journal.tickets, hxt]
    constructor
    case read => exact List.forall_mem_cons.mpr ⟨by rw [hxr, hxh]; exact hh, ha.read⟩
    case job => exact List.forall_mem_cons.mpr ⟨by rw [hxr, hxh]; exact hxj, ha.job⟩
    case decided => exact List.forall_mem_cons.mpr ⟨hxd, ha.decided⟩
    case nodup =>
      rw [htick]
      exact ha.nodup
    case below =>
      rw [htick]
      exact ha.below
    case distinct => exact ha.distinct
    case running =>
      intro call hc
      obtain ⟨y, hy, hy'⟩ := ha.running call hc
      exact ⟨y, List.mem_cons_of_mem _ hy, hy'⟩
    case waiting =>
      rcases hcases with ⟨job, hc, hj, hv⟩ | ⟨a, hc, -, hv⟩ | ⟨hc, -, hv⟩
      · rw [hc]
        exact ⟨x, xs, rfl, hxt, hv, hxh, hj, ho⟩
      · rw [hc]
        exact List.forall_mem_cons.mpr ⟨fun h => absurd h hv, ho⟩
      · rw [hc]
        exact List.forall_mem_cons.mpr ⟨fun h => absurd h hv, ho⟩
    case once => exact ha.once
    case answered =>
      intro p hp
      obtain ⟨y, hy, hy'⟩ := ha.answered p hp
      exact ⟨y, List.mem_cons_of_mem _ hy, hy'⟩

/-- The call that waited gets a ticket that no other has. -/
theorem Accounts.start (ha : Accounts reg terms c xs) {h : Header} {job : Invocation σ}
    (hi : c.intake = .parked h job) (due : Nat) (deadline : Option Nat) :
    Accounts reg terms
      { c with
        stage := .serving terms .reading
        tickets := c.tickets + 1
        permits := c.permits - 1
        running := c.running ++ [⟨c.tickets, h, job, due, deadline⟩] }
      (Exchange.enter c.tickets xs) := by
  have hw := ha.waiting
  rw [hi] at hw
  obtain ⟨x, rest, rfl, hxt, hxv, rfl, hxj, ho⟩ := hw
  have htick : Journal.tickets (x :: rest) = Journal.tickets rest := by
    simp [Journal.tickets, hxt]
  have hbelow := ha.below
  have hnodup := ha.nodup
  rw [htick] at hbelow hnodup
  have hrest : ∀ y ∈ x :: rest, ∀ t, y.ticket = some t → y ∈ rest := by
    intro y hy t ht
    rcases List.mem_cons.mp hy with rfl | hy
    · rw [hxt] at ht
      cases ht
    · exact hy
  have hd := ha.decided x List.mem_cons_self
  simp only [Exchange.Decided, hxv] at hd
  constructor
  case read =>
    have hold := fun y hy => ha.read y (List.mem_cons_of_mem _ hy)
    exact List.forall_mem_cons.mpr ⟨ha.read x List.mem_cons_self, hold⟩
  case job =>
    have hold := fun y hy => ha.job y (List.mem_cons_of_mem _ hy)
    exact List.forall_mem_cons.mpr ⟨ha.job x List.mem_cons_self, hold⟩
  case decided =>
    have hold := fun y hy => ha.decided y (List.mem_cons_of_mem _ hy)
    exact List.forall_mem_cons.mpr ⟨by simpa [Exchange.Decided, hxv] using hd, hold⟩
  case nodup => exact List.nodup_cons.mpr ⟨fun hm => Nat.lt_irrefl _ (hbelow _ hm), hnodup⟩
  case below =>
    have hold := fun t ht => Nat.lt_succ_of_lt (hbelow t ht)
    exact List.forall_mem_cons.mpr ⟨Nat.lt_succ_self _, hold⟩
  case distinct =>
    rw [List.map_append, List.nodup_append]
    refine ⟨ha.distinct, by simp, ?_⟩
    rintro k hk k' hk' rfl
    obtain ⟨call, hc, rfl⟩ := List.mem_map.mp hk
    obtain ⟨y, hy, hyt, -⟩ := ha.running call hc
    have hlt := hbelow _ (Journal.mem_tickets (hrest y hy _ hyt) hyt)
    simp only [List.map_cons, List.map_nil, List.mem_singleton] at hk'
    omega
  case running =>
    intro call hc
    rcases List.mem_append.mp hc with hc | hc
    · obtain ⟨y, hy, hyt, hy'⟩ := ha.running call hc
      exact ⟨y, List.mem_cons_of_mem _ (hrest y hy _ hyt), hyt, hy'⟩
    · rw [List.mem_singleton.mp hc]
      exact ⟨_, List.mem_cons_self, rfl, hxv, rfl, hxj⟩
  case waiting =>
    refine List.forall_mem_cons.mpr ⟨fun _ => ⟨_, List.mem_append_right _ List.mem_cons_self, rfl⟩, ?_⟩
    intro y hy hv
    obtain ⟨call, hc, hyt⟩ := ho y hy hv
    exact ⟨call, List.mem_append_left _ hc, hyt⟩
  case once => exact ha.once
  case answered =>
    intro p hp
    obtain ⟨y, hy, hyt, hya⟩ := ha.answered p hp
    exact ⟨y, List.mem_cons_of_mem _ (hrest y hy _ hyt), hyt, hya⟩

theorem exchanges_handOver (o : Outbox) (f : Frame) :
    (j.handOver o f).exchanges = j.exchanges := by
  rw [Journal.handOver]
  split <;> rfl

/-- **What holds of an exchange at its beginning, and when it gets its ticket and its
verdict, holds of all exchanges.** A call gets its verdict when its handler acts or when it
is too late. -/
theorem forall_note {P : Exchange σ → Prop}
    (hbegin : ∀ terms f h, c.terms? = some terms → f.readHeader terms.codec = .ok h →
      P (Exchange.begin terms r c' f h))
    (henter : ∀ x t, P x → P { x with ticket := some t })
    (hsettle : ∀ x t v a, x.ticket = some t → e = .expire t ∨ (∃ o, v = .returned o) → P x →
      P { x with verdict := some v, answer := a })
    (hall : ∀ x ∈ j.exchanges, P x) : ∀ x ∈ (j.note r c e c').exchanges, P x := by
  have hsettled : ∀ t v a, e = .expire t ∨ (∃ o, v = .returned o) →
      ∀ x ∈ Exchange.settle t v a j.exchanges, P x := by
    intro t v a hv x hx
    obtain ⟨y, hy, rfl⟩ := List.mem_map.mp hx
    by_cases ht : y.ticket = some t
    · rw [if_pos ht]
      exact hsettle y t v a ht hv (hall y hy)
    · rw [if_neg ht]
      exact hall y hy
  cases e with
  | receive _ | hangUp | lose | retire _ | release | write _ => exact hall
  | read =>
    simp only [Journal.note]
    split
    · rename_i terms f b hs hn
      split
      · rename_i h hh
        exact List.forall_mem_cons.mpr ⟨hbegin terms f h (by simp only [terms?, hs]) hh, hall⟩
      · exact hall
    · exact hall
  | start =>
    show ∀ x ∈ Exchange.enter c.tickets j.exchanges, P x
    cases hj : j.exchanges with
    | nil => exact List.forall_mem_nil _
    | cons x xs =>
      rw [hj, List.forall_mem_cons] at hall
      exact List.forall_mem_cons.mpr ⟨henter x _ hall.1, hall.2⟩
  | finish t =>
    simp only [Journal.note]
    split
    · exact hsettled _ _ _ (.inr ⟨_, rfl⟩)
    · exact hall
  | expire t =>
    simp only [Journal.note]
    split
    · exact hsettled _ _ _ (.inl rfl)
    · exact hall
  | refuse =>
    simp only [Journal.note]
    split
    · rw [exchanges_handOver]
      exact hall
    · exact hall
  | post t =>
    simp only [Journal.note]
    split
    · rw [exchanges_handOver]
      exact hall
    · exact hall

theorem note_expire {i : Intake σ} (hs : c.stage = .serving terms i) :
    j.note r c (.expire t) c' =
      { j with exchanges :=
          Exchange.settle t (.late terms.budget) (c'.answered.lookup t) j.exchanges } := by
  simp only [Journal.note, hs]

theorem Accounts.reading (ha : Accounts reg terms c xs) {f : Frame} (hi : c.intake = .refusing f)
    {d : Connection σ} (hint : d.intake = .reading) (hrun : d.running = c.running)
    (hans : d.answered = c.answered) (htick : d.tickets = c.tickets) : Accounts reg terms d xs := by
  have hw := ha.waiting
  rw [hi] at hw
  exact ⟨ha.read, ha.job, ha.decided, ha.nodup, htick ▸ ha.below, hrun ▸ ha.distinct,
    hrun ▸ ha.running, by rw [hint, hrun]; exact hw, hans ▸ ha.once, hans ▸ ha.answered⟩

theorem Accounts.forget (ha : Accounts reg terms c xs) {d : Connection σ} (hint : d.intake = c.intake)
    (hrun : d.running = c.running) (hans : d.answered = c.answered.filter (·.1 != t))
    (htick : d.tickets = c.tickets) : Accounts reg terms d xs := by
  refine ⟨ha.read, ha.job, ha.decided, ha.nodup, htick ▸ ha.below, hrun ▸ ha.distinct,
    hrun ▸ ha.running, by rw [hint, hrun]; exact ha.waiting, ?_, ?_⟩
  · rw [hans]
    exact ha.once.sublist (List.Sublist.map _ List.filter_sublist)
  · rw [hans]
    exact fun p hp => ha.answered p (List.mem_filter.mp hp).1

/-- **The journal agrees with the calls and the answers after every event.** -/
theorem Accounts.step (h : Step now r c e c' r') (hs : c.terms? = some terms)
    (hp : r.plan = reg.plan) (ha : Accounts reg terms c j.exchanges) :
    Accounts reg terms c' (j.note r c e c').exchanges := by
  cases h with
  | receive _ | hangUp | lose | retire _ | write _ _ _ => exact { ha with }
  | release _ _ _ _ => exact { ha with }
  | head hst _ | options hst _ => simp [terms?, hst] at hs
  | @frame terms' f b hst hn =>
    obtain ⟨rfl, hi⟩ := eq_terms hst hs
    have hf := ha.frame hi hp f b
    simp only [Journal.note, hst, hn]
    cases hh : f.readHeader terms'.codec with
    | error why => simpa [hh] using hf
    | ok h => simpa [hh] using hf
  | @stop terms' b hst hn =>
    obtain ⟨rfl, hi⟩ := eq_terms hst hs
    have hw := ha.waiting
    rw [hi] at hw
    have hnote : (j.note r c .read { c with buffer := b, stage := .serving terms' .stopped }).exchanges =
        j.exchanges := by
      rcases hn with ⟨why, hn⟩ | ⟨hn, -⟩ <;> simp only [Journal.note, hst, hn]
    rw [hnote]
    exact { ha with waiting := hw }
  | refuse hst ho =>
    obtain ⟨rfl, hi⟩ := eq_terms hst hs
    simp only [Journal.note, hst, exchanges_handOver]
    exact ha.reading hi rfl rfl rfl rfl
  | drop hst ho =>
    obtain ⟨rfl, hi⟩ := eq_terms hst hs
    simp only [Journal.note, hst, exchanges_handOver]
    exact ha.reading hi rfl rfl rfl rfl
  | start hst hpos =>
    obtain ⟨rfl, hi⟩ := eq_terms hst hs
    exact ha.start hi _ _
  | @finish terms' intake t call hst hc hd =>
    obtain ⟨rfl, hi⟩ := eq_terms hst hs
    obtain ⟨hm, rfl⟩ := mem_of_call? hc
    obtain ⟨x, hx, hxt, hxv, hxh, hxj⟩ := ha.running call hm
    have hassign := ha.job x hx _ hxj
    obtain ⟨st, hst'⟩ := Registry.exists_act hp.symm hassign
    simp only [Journal.note, hc, answered_settleAnswer, lookup_settled (ha.ne_of_running hc)]
    refine ha.settle hc hx hxt ?_ ?_ (answered_settleAnswer _ _ _) ?_ ?_
    · exact ⟨by rw [hxh]; rfl, call.job, st, hassign, hst'⟩
    all_goals
      cases Answer.frame? terms'.codec call.header ((r.act call.job).1.toReply terms'.codec) <;> rfl
  | @expire terms' intake t call hst hc =>
    obtain ⟨rfl, hi⟩ := eq_terms hst hs
    obtain ⟨hm, rfl⟩ := mem_of_call? hc
    obtain ⟨x, hx, hxt, hxv, hxh, hxj⟩ := ha.running call hm
    have hassign := ha.job x hx _ hxj
    rw [note_expire hst, answered_settleAnswer, lookup_settled (ha.ne_of_running hc)]
    refine ha.settle hc hx hxt ?_ ?_ (answered_settleAnswer _ _ _) ?_ ?_
    · exact ⟨by rw [hxh]; rfl, rfl, _, hassign⟩
    all_goals
      cases Answer.failure? terms'.codec call.header (.handleTimeout terms'.budget) <;> rfl
  | post hl ho =>
    simp only [Journal.note, hl, exchanges_handOver]
    exact ha.forget rfl rfl rfl rfl
  | discard hl ho =>
    simp only [Journal.note, hl, exchanges_handOver]
    exact ha.forget rfl rfl rfl rfl

end Connection
end Callwire
