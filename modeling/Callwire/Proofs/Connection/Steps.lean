/-
# What a connection does, case by case

Every event that can happen to a connection is one of the cases of `Step`, each
with what must hold for it and what comes of it. What a connection does by
itself comes to an end: a request is nine bytes or more, and all that happens
because of it before its answer waits in the outbox weighs less.

Key definitions: `Connection.Step`, `Connection.Follows`.
Key theorems: `Connection.Step.of_step`, `Connection.wellFounded_follows`.
-/
import Callwire.Proofs.Outbox
import Callwire.Server

namespace Callwire
namespace Connection

variable {σ : Type}

/-- What an event does to a connection, case by case. -/
inductive Step (now : Nat) (r : Registry σ) (c : Connection σ) :
    Event → Connection σ → Registry σ → Prop where
  | receive {bs : Bytes} (he : c.ended = false) :
      Step now r c (.receive bs) { c with buffer := c.buffer.extend bs } r
  | hangUp : Step now r c .hangUp { c with ended := true } r
  | lose : Step now r c .lose { c with lost := true } r
  | head {h : Tunnel.Head} {c' : Connection σ} (hs : c.stage = .head h)
      (hr : c.readHead h = some c') : Step now r c .read c' r
  | options {c' : Connection σ} (hs : c.stage = .options) (hr : c.readOptions = some c') :
      Step now r c .read c' r
  | frame {terms : Terms} {f : Frame} {b : Frame.Buffer} (hs : c.stage = .serving terms .reading)
      (hn : c.buffer.next = (.ok (some f), b)) :
      Step now r c .read { c with buffer := b, stage := .serving terms (dispatch terms r f).1 }
        (dispatch terms r f).2
  | stop {terms : Terms} {b : Frame.Buffer} (hs : c.stage = .serving terms .reading)
      (hn : (∃ e, c.buffer.next = (.error e, b)) ∨ (c.buffer.next = (.ok none, b) ∧ c.ended)) :
      Step now r c .read { c with buffer := b, stage := .serving terms .stopped } r
  | refuse {terms : Terms} {f : Frame} {o : Outbox} (hs : c.stage = .serving terms (.refusing f))
      (ho : c.outbox.send f = .queued o) :
      Step now r c .refuse { c with stage := .serving terms .reading, outbox := o } r
  | drop {terms : Terms} {f : Frame} (hs : c.stage = .serving terms (.refusing f))
      (ho : c.outbox.send f = .refused) :
      Step now r c .refuse { c with stage := .serving terms .reading } r
  | start {terms : Terms} {h : Header} {job : Invocation σ} {deadline : Option Nat}
      (hs : c.stage = .serving terms (.parked h job)) (hp : c.permits ≠ 0)
      (hd : deadline = if terms.budget = .zero then none else some (now + terms.budget.nanos)) :
      Step now r c .start
        { c with
          stage := .serving terms .reading
          tickets := c.tickets + 1
          permits := c.permits - 1
          running := c.running ++
            [⟨c.tickets, h, job, now + job.behaviour.wait.nanos, deadline⟩] } r
  | finish {terms : Terms} {intake : Intake σ} {t : Nat} {call : Running σ}
      (hs : c.stage = .serving terms intake) (hc : call? t c.running = some call)
      (hd : call.due ≤ now) :
      Step now r c (.finish t)
        ({ c with running := without t c.running }.settleAnswer t
          (Answer.frame? terms.codec call.header ((r.act call.job).1.toReply terms.codec)))
        (r.act call.job).2
  | expire {terms : Terms} {intake : Intake σ} {t : Nat} {call : Running σ}
      (hs : c.stage = .serving terms intake) (hc : call? t c.running = some call)
      (hd : ∃ d, call.deadline = some d ∧ d ≤ now) :
      Step now r c (.expire t)
        ({ c with
          running := without t c.running
          detached := c.detached ++ [call] }.settleAnswer t
          (Answer.failure? terms.codec call.header (.handleTimeout terms.budget))) r
  | retire {t : Nat} {call : Running σ} (hc : call? t c.detached = some call) :
      Step now r c (.retire t) { c with detached := without t c.detached } (r.act call.job).2
  | post {t : Nat} {f : Frame} {o : Outbox} (ha : c.answered.lookup t = some f)
      (ho : c.outbox.send f = .queued o) :
      Step now r c (.post t)
        { c with
          answered := c.answered.filter (·.1 != t)
          permits := c.permits + 1
          outbox := o } r
  | discard {t : Nat} {f : Frame} (ha : c.answered.lookup t = some f)
      (ho : c.outbox.send f = .refused) :
      Step now r c (.post t)
        { c with
          answered := c.answered.filter (·.1 != t)
          permits := c.permits + 1 } r
  | release {terms : Terms} (hs : c.stage = .serving terms .stopped) (hr : c.running = [])
      (ha : c.answered = []) (ho : c.outbox.released = false) :
      Step now r c .release { c with outbox := { c.outbox with released := true } } r
  | write {terms : Terms} {intake : Intake σ} {e : Outbox.Event} {o : Outbox}
      (hs : c.stage = .serving terms intake) (hf : e = .fail → c.lost = true)
      (ho : c.outbox.step e = some o) : Step now r c (.write e) { c with outbox := o } r

variable {now : Nat} {r r' : Registry σ} {c c' : Connection σ} {e : Event}

theorem Step.of_read (h : c.step now r .read = some (c', r')) : Step now r c .read c' r' := by
  simp only [step] at h
  split at h
  · rename_i hd hs
    obtain ⟨d, hr, hp⟩ := Option.map_eq_some_iff.mp h
    cases hp
    exact .head hs hr
  · rename_i hs
    obtain ⟨d, hr, hp⟩ := Option.map_eq_some_iff.mp h
    cases hp
    exact .options hs hr
  · rename_i terms hs
    rw [readFrame] at h
    split at h
    · rename_i why b hn
      cases h
      exact .stop hs (.inl ⟨why, hn⟩)
    · rename_i b hn
      split at h
      · rename_i he
        cases h
        exact .stop hs (.inr ⟨hn, he⟩)
      · cases h
    · rename_i f b hn
      cases h
      exact .frame hs hn
  · cases h

theorem Step.of_refuse (h : c.step now r .refuse = some (c', r')) : Step now r c .refuse c' r' := by
  simp only [step] at h
  split at h
  · rename_i terms f hs
    split at h
    · rename_i o ho
      cases h
      exact .refuse hs ho
    · rename_i ho
      cases h
      exact .drop hs ho
    · cases h
  · cases h

theorem Step.of_start (h : c.step now r .start = some (c', r')) : Step now r c .start c' r' := by
  simp only [step] at h
  split at h
  · rename_i terms hd job hs
    split at h
    · cases h
    · rename_i hp
      cases h
      exact .start hs hp rfl
  · cases h

theorem Step.of_finish {t : Nat} (h : c.step now r (.finish t) = some (c', r')) :
    Step now r c (.finish t) c' r' := by
  simp only [step] at h
  split at h
  · rename_i terms intake call hs hc
    split at h
    · cases h
    · rename_i hd
      cases h
      exact .finish hs hc (by omega)
  · cases h

theorem Step.of_expire {t : Nat} (h : c.step now r (.expire t) = some (c', r')) :
    Step now r c (.expire t) c' r' := by
  simp only [step] at h
  split at h
  · rename_i terms intake call hs hc
    split at h
    · cases h
    · rename_i d hdead
      split at h
      · cases h
      · rename_i hd
        cases h
        exact .expire hs hc ⟨d, hdead, by omega⟩
  · cases h

theorem Step.of_retire {t : Nat} (h : c.step now r (.retire t) = some (c', r')) :
    Step now r c (.retire t) c' r' := by
  simp only [step] at h
  split at h
  · rename_i call hc
    split at h
    · cases h
    · cases h
      exact .retire hc
  · cases h

theorem Step.of_post {t : Nat} (h : c.step now r (.post t) = some (c', r')) :
    Step now r c (.post t) c' r' := by
  simp only [step] at h
  split at h
  · cases h
  · rename_i f ha
    split at h
    · rename_i o ho
      cases h
      exact .post ha ho
    · rename_i ho
      cases h
      exact .discard ha ho
    · cases h

theorem Step.of_release (h : c.step now r .release = some (c', r')) : Step now r c .release c' r' := by
  simp only [step] at h
  split at h
  · rename_i terms hs
    split at h
    · rename_i hc
      obtain ⟨hr, ha, ho⟩ := hc
      cases h
      exact .release hs (List.isEmpty_iff.mp hr) (List.isEmpty_iff.mp ha) (by simpa using ho)
    · cases h
  · cases h

theorem Step.of_write {w : Outbox.Event} (h : c.step now r (.write w) = some (c', r')) :
    Step now r c (.write w) c' r' := by
  simp only [step] at h
  split at h
  · rename_i terms intake hs
    rw [Option.ite_none_right_eq_some] at h
    obtain ⟨hp, h⟩ := h
    obtain ⟨o, ho, hm⟩ := Option.map_eq_some_iff.mp h
    cases hm
    refine .write hs ?_ ho
    rintro rfl
    exact hp
  · cases h

/-- **There are no other cases.** -/
theorem Step.of_step (h : c.step now r e = some (c', r')) : Step now r c e c' r' := by
  cases e with
  | receive bs =>
    simp only [step] at h
    split at h
    · cases h
    · rename_i he
      cases h
      exact .receive (by simpa using he)
  | hangUp =>
    cases h
    exact .hangUp
  | lose =>
    cases h
    exact .lose
  | read => exact .of_read h
  | refuse => exact .of_refuse h
  | start => exact .of_start h
  | finish t => exact .of_finish h
  | expire t => exact .of_expire h
  | retire t => exact .of_retire h
  | post t => exact .of_post h
  | release => exact .of_release h
  | write w => exact .of_write h

/-! ### It comes to an end -/

/-- How much the reader may still do for what it holds. -/
def Intake.weight : Intake σ → Nat
  | .reading => 1
  | .refusing _ => 2
  | .parked _ _ => 5
  | .stopped => 0

/-- How much the connection may still do for where it is. -/
def Stage.weight : Stage σ → Nat
  | .head _ | .options => 1
  | .serving _ intake => Intake.weight intake
  | .gone => 0

/-- How much may still happen to the state of a writer. -/
def writerWeight (s : WriterState) (released : Bool) : Nat :=
  (if s = .working then 1 else 0) + (if released then 0 else 1)

/-- More than what can happen before the last answer waits in the outbox and the
writer has ended. -/
def effort (c : Connection σ) : Nat :=
  c.buffer.front.length + Stage.weight c.stage + 3 * c.running.length + c.answered.length +
    c.detached.length + writerWeight c.outbox.state c.outbox.released

/-- The connection does something by itself, at some time and with some services. -/
def Follows (c' c : Connection σ) : Prop :=
  ∃ now r r' e, e.isOwn = true ∧ c.step now r e = some (c', r')

theorem front_takeLine {b b' : Frame.Buffer} {limit : Nat} {line : Bytes}
    (h : b.takeLine limit = (.ok (some line), b')) : b'.front.length < b.front.length := by
  obtain ⟨pre, hu, -, -, -, hb⟩ := Frame.Buffer.takeLine_line h
  rw [hb, Frame.Buffer.front, Frame.Buffer.front]
  cases b.awaited <;> simp [hu] <;> omega

theorem effort_readHead {h : Tunnel.Head} (hs : c.stage = .head h) (hr : c.readHead h = some c') :
    c'.effort < c.effort := by
  have hleave : c.leave.effort < c.effort := by
    simp only [effort, leave, hs, Stage.weight]
    omega
  rw [readHead] at hr
  split at hr
  · cases hr
    exact hleave
  · split at hr
    · cases hr
      exact hleave
    · cases hr
  · rename_i line b hl
    have hf := front_takeLine hl
    simp only at hr
    split at hr
    · cases hr
      simp only [effort, hs, Stage.weight]
      omega
    · cases hr
      simp only [effort, leave, hs, Stage.weight]
      omega
    · split at hr
      · cases hr
        simp only [effort, leave, hs, Stage.weight]
        omega
      · split at hr
        · cases hr
          simp only [effort, hs, Stage.weight]
          omega
        · cases hr
          simp only [effort, leave, hs, Stage.weight]
          omega

theorem effort_readOptions (hs : c.stage = .options) (hr : c.readOptions = some c') :
    c'.effort < c.effort := by
  have hleave : c.leave.effort < c.effort := by
    simp only [effort, leave, hs, Stage.weight]
    omega
  rw [readOptions] at hr
  split at hr
  · cases hr
    exact hleave
  · split at hr
    · cases hr
      exact hleave
    · cases hr
  · rename_i line b hl
    have hf := front_takeLine hl
    simp only at hr
    split at hr
    · cases hr
      simp only [effort, leave, hs, Stage.weight]
      omega
    · split at hr
      · cases hr
        simp only [effort, hs, Stage.weight, Intake.weight]
        omega
      · cases hr
        simp only [effort, leave, hs, Stage.weight]
        omega

theorem weight_dispatch (terms : Terms) (r : Registry σ) (f : Frame) :
    Intake.weight (dispatch terms r f).1 ≤ 5 := by
  rw [dispatch]
  split
  · simp [Intake.weight]
  · split
    · simp [Intake.weight]
    · split <;> simp [Intake.weight]

theorem length_without {t : Nat} {cs : List (Running σ)} {call : Running σ}
    (h : call? t cs = some call) : (without t cs).length < cs.length := by
  obtain ⟨hm, hc⟩ := And.intro (List.mem_of_find?_eq_some h) (List.find?_some h)
  exact List.length_filter_lt_length_iff_exists.mpr ⟨call, hm, by simpa using hc⟩

theorem length_answered {t : Nat} {f : Frame} {as : List (Nat × Frame)}
    (h : as.lookup t = some f) : (as.filter (·.1 != t)).length < as.length := by
  obtain ⟨a, b, rfl, -⟩ := List.lookup_eq_some_iff.mp h
  exact List.length_filter_lt_length_iff_exists.mpr ⟨(t, f), by simp, by simp⟩

theorem effort_settleAnswer (t : Nat) (a : Option Frame) :
    (c.settleAnswer t a).effort ≤ c.effort + 1 ∧
      (c.settleAnswer t a).outbox = c.outbox := by
  cases a with
  | none =>
    refine ⟨?_, rfl⟩
    simp only [settleAnswer, effort]
    omega
  | some f =>
    refine ⟨?_, rfl⟩
    simp only [settleAnswer, effort, List.length_append, List.length_cons, List.length_nil]
    omega

/-- What the writer does is less in the queue, or less in the batch, or its end. -/
theorem effort_write {w : Outbox.Event} {o : Outbox} (ho : c.outbox.step w = some o) :
    { c with outbox := o }.effort < c.effort ∨
      ({ c with outbox := o }.effort = c.effort ∧
        (o.queue.length < c.outbox.queue.length ∨
          (o.queue.length = c.outbox.queue.length ∧
            o.batch.left.length < c.outbox.batch.left.length))) := by
  obtain ⟨hw, hcases⟩ := Outbox.step_cases ho
  rcases hcases with ⟨f, queue, b, -, hq, -, rfl⟩ | ⟨n, -, hn, hl, rfl⟩ | ⟨-, -, rfl⟩ | ⟨-, -, -, -, rfl⟩
  · refine .inr ⟨rfl, .inl ?_⟩
    rw [hq, List.length_cons]
    exact Nat.lt_succ_self _
  · refine .inr ⟨rfl, .inr ⟨rfl, ?_⟩⟩
    rw [Batch.left_advance, List.length_drop]
    omega
  · left
    simp only [effort, hw, writerWeight, if_true, reduceCtorEq, if_false]
    omega
  · left
    simp only [effort, hw, writerWeight, if_true, reduceCtorEq, if_false]
    omega

/-- Whatever a connection does by itself is less to do, or less in the queue, or
less in the batch. -/
theorem Step.effort_lt (h : Step now r c e c' r') (he : e.isOwn = true) :
    c'.effort < c.effort ∨
      (c'.effort = c.effort ∧
        (c'.outbox.queue.length < c.outbox.queue.length ∨
          (c'.outbox.queue.length = c.outbox.queue.length ∧
            c'.outbox.batch.left.length < c.outbox.batch.left.length))) := by
  cases h with
  | receive _ | hangUp | lose => cases he
  | head hs hr => exact .inl (effort_readHead hs hr)
  | options hs hr => exact .inl (effort_readOptions hs hr)
  | @frame terms f b hs hn =>
    left
    have hw := weight_dispatch terms r f
    have hf := congrArg List.length (Frame.Buffer.next_frame hn).1
    simp only [List.length_append, Frame.length_toBytes, Lengths.size] at hf
    have hr : Intake.weight (.reading : Intake σ) = 1 := rfl
    simp only [effort, hs, Stage.weight, hr]
    omega
  | @stop terms b hs hn =>
    left
    have hf : b.front = c.buffer.front := by
      rcases hn with ⟨why, hn⟩ | ⟨hn, -⟩
      · rw [(Frame.Buffer.next_error hn []).1]
      · exact (Frame.Buffer.next_none hn).1
    simp only [effort, hs, Stage.weight, Intake.weight, hf]
    omega
  | refuse hs ho =>
    left
    obtain ⟨-, rfl⟩ := Outbox.send_queued ho
    simp only [effort, hs, Stage.weight, Intake.weight]
    omega
  | drop hs ho =>
    left
    simp only [effort, hs, Stage.weight, Intake.weight]
    omega
  | start hs hp =>
    left
    simp only [effort, hs, Stage.weight, Intake.weight, List.length_append, List.length_cons,
      List.length_nil]
    omega
  | @finish terms intake t call hs hc hd =>
    left
    have hl := length_without hc
    have hse := (effort_settleAnswer (c := { c with running := without t c.running }) t
      (Answer.frame? terms.codec call.header ((r.act call.job).1.toReply terms.codec))).1
    refine Nat.lt_of_le_of_lt hse ?_
    simp only [effort]
    omega
  | @expire terms intake t call hs hc =>
    left
    have hl := length_without hc
    have hse := (effort_settleAnswer (c := { c with
      running := without t c.running
      detached := c.detached ++ [call] }) t
      (Answer.failure? terms.codec call.header (.handleTimeout terms.budget))).1
    refine Nat.lt_of_le_of_lt hse ?_
    simp only [effort, List.length_append, List.length_cons, List.length_nil]
    omega
  | retire hc =>
    left
    have hl := length_without hc
    simp only [effort]
    omega
  | post ha ho =>
    left
    have hl := length_answered ha
    obtain ⟨-, rfl⟩ := Outbox.send_queued ho
    simp only [effort]
    omega
  | discard ha ho =>
    left
    have hl := length_answered ha
    simp only [effort]
    omega
  | release hs hr ha ho =>
    left
    simp only [effort, ho, writerWeight, if_true, Bool.false_eq_true, if_false]
    omega
  | write _ _ ho => exact effort_write ho

/-- **What a connection does by itself comes to an end.** -/
theorem wellFounded_follows : WellFounded (Follows (σ := σ)) := by
  have hwf : WellFounded (Prod.Lex (· < ·) (Prod.Lex (· < ·) (· < · : Nat → Nat → Prop)) :
      Nat × Nat × Nat → Nat × Nat × Nat → Prop) :=
    (Prod.lex Nat.lt_wfRel (Prod.lex Nat.lt_wfRel Nat.lt_wfRel)).wf
  let rank (c : Connection σ) : Nat × Nat × Nat :=
    (c.effort, c.outbox.queue.length, c.outbox.batch.left.length)
  refine Subrelation.wf ?_ (InvImage.wf rank hwf)
  rintro c' c ⟨now, r, r', e, he, h⟩
  rcases (Step.of_step h).effort_lt he with hlt | ⟨heq, hlt | ⟨hq, hlt⟩⟩
  · exact .left _ _ hlt
  · simp only [InvImage, rank, heq]
    exact .right _ (.left _ _ hlt)
  · simp only [InvImage, rank, heq, hq]
    exact .right _ (.right _ hlt)

end Connection
end Callwire
