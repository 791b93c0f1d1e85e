/-
# Answers on their way out

Every answer was handed to the outbox, or is held by the reader of requests, or
waits with the call that gave it; and each is in one of these places only. What
was handed over is on its way in the same order. Only a writer that has failed
loses answers.

Key definitions: `Intake.held`, `Connection.Delivered`.
Key theorems: `Connection.Delivered.step`.
-/
import Callwire.Proofs.Connection.Accounts

namespace Callwire

variable {σ : Type}

/-- The answer that the reader of requests holds. -/
def Intake.held : Intake σ → List Frame
  | .refusing f => [f]
  | _ => []

namespace Connection

variable {now : Nat} {r r' reg : Registry σ} {c c' : Connection σ} {e : Event} {terms : Terms}
  {j : Journal σ} {t : Nat} {f : Frame}

/-- The answers that were lost, handed over, held and waiting are those of the
exchanges, and none is lost unless a write has failed. -/
def Delivered (c : Connection σ) (j : Journal σ) : Prop :=
  ∃ lost : List Frame,
    (lost ++ j.posted ++ c.intake.held ++ c.answered.map (·.2)).Perm (Journal.answers j.exchanges) ∧
      (c.outbox.state ≠ .failed → lost = [])

theorem lookup_split {as : List (Nat × Frame)} (h : as.lookup t = some f)
    (hn : (as.map (·.1)).Nodup) :
    ∃ p q, as = p ++ (t, f) :: q ∧ as.filter (·.1 != t) = p ++ q := by
  obtain ⟨p, q, rfl, hp⟩ := List.lookup_eq_some_iff.mp h
  refine ⟨p, q, rfl, ?_⟩
  have hp' : p.filter (·.1 != t) = p := List.filter_eq_self.mpr fun x hx => by
    have hne : t ≠ x.1 := by simpa using hp x hx
    simpa using hne.symm
  have hq' : q.filter (·.1 != t) = q := List.filter_eq_self.mpr fun x hx => by
    simp only [List.map_append, List.map_cons, List.nodup_append, List.nodup_cons] at hn
    have hne : x.1 ≠ t := fun he => hn.2.1.1 (List.mem_map.mpr ⟨x, hx, he⟩)
    simpa using hne
  simp [hp', hq']

theorem posted_handOver_queued {o : Outbox} (h : c.outbox.send f = .queued o) :
    (j.handOver c.outbox f).posted = j.posted ++ [f] := by
  simp [Journal.handOver, h]

theorem posted_handOver_refused (h : c.outbox.send f = .refused) :
    (j.handOver c.outbox f).posted = j.posted := by
  simp [Journal.handOver, h]

/-- An answer that waits, or that there is none, is one more that waits. -/
theorem Delivered.settle {d : Connection σ} {xs : List (Exchange σ)} (hd : c.Delivered j)
    (a : Option Frame) (hans : d.answered = c.answered ++ a.toList.map (Prod.mk t))
    (hint : d.intake = c.intake) (hstate : d.outbox.state = c.outbox.state)
    (hxs : (Journal.answers xs).Perm (a.toList ++ Journal.answers j.exchanges)) :
    d.Delivered { j with exchanges := xs } := by
  obtain ⟨lost, hperm, hlost⟩ := hd
  refine ⟨lost, ?_, by rwa [hstate]⟩
  rw [hint, hans, List.map_append, ← List.append_assoc]
  have ha : (a.toList.map (Prod.mk t)).map (·.2) = a.toList := by cases a <;> rfl
  rw [ha]
  exact (hperm.append_right _).trans (List.perm_append_comm.trans hxs.symm)

/-- What waited is handed over. -/
theorem Delivered.post {d : Connection σ} {o : Outbox} (hd : c.Delivered j)
    (hn : (c.answered.map (·.1)).Nodup) (hl : c.answered.lookup t = some f)
    (ho : c.outbox.send f = .queued o) (hans : d.answered = c.answered.filter (·.1 != t))
    (hint : d.intake = c.intake) : d.Delivered (j.handOver c.outbox f) := by
  obtain ⟨lost, hperm, hlost⟩ := hd
  obtain ⟨hw, -⟩ := Outbox.send_queued ho
  obtain ⟨p, q, has, hfilter⟩ := lookup_split hl hn
  have hnil := hlost (by simp [hw])
  subst hnil
  refine ⟨[], ?_, fun _ => rfl⟩
  rw [posted_handOver_queued ho, exchanges_handOver, hint, hans, hfilter]
  rw [has] at hperm
  refine List.Perm.trans ?_ hperm
  simp only [List.nil_append, List.map_append, List.map_cons, List.append_assoc,
    List.cons_append]
  refine List.Perm.append_left _ ?_
  rw [← List.append_assoc, ← List.append_assoc]
  exact List.perm_middle.symm

/-- What waited is lost with the writer. -/
theorem Delivered.discard {d : Connection σ} (hd : c.Delivered j)
    (hn : (c.answered.map (·.1)).Nodup) (hl : c.answered.lookup t = some f)
    (ho : c.outbox.send f = .refused) (hans : d.answered = c.answered.filter (·.1 != t))
    (hint : d.intake = c.intake) (hstate : d.outbox.state = .failed) :
    d.Delivered (j.handOver c.outbox f) := by
  obtain ⟨lost, hperm, -⟩ := hd
  obtain ⟨p, q, has, hfilter⟩ := lookup_split hl hn
  refine ⟨f :: lost, ?_, fun h => absurd hstate h⟩
  rw [posted_handOver_refused ho, exchanges_handOver, hint, hans, hfilter]
  rw [has] at hperm
  refine List.Perm.trans ?_ hperm
  simp only [List.map_append, List.map_cons, List.append_assoc, List.cons_append]
  simp only [← List.append_assoc]
  exact List.perm_middle.symm

/-- A request is read: it is refused with an answer that is held, or it has none yet. -/
theorem Delivered.frame (hd : c.Delivered j) (hi : c.intake = .reading) (hp : r.plan = reg.plan)
    {h : Header} {b : Frame.Buffer} (hh : f.readHeader terms.codec = .ok h) :
    let c' : Connection σ := { c with buffer := b, stage := .serving terms (dispatch terms r f).1 }
    c'.Delivered { j with exchanges := .begin terms r c' f h :: j.exchanges } := by
  intro c'
  obtain ⟨lost, hperm, hlost⟩ := hd
  obtain ⟨-, -, -, hxd, -, hcases⟩ := begin_cases (c := c) (b := b) hp hh
  simp only [hi, Intake.held, List.append_nil] at hperm
  generalize Exchange.begin terms r c' f h = x at *
  have hans : c'.answered = c.answered := rfl
  refine ⟨lost, ?_, hlost⟩
  rw [hans]
  rcases hcases with ⟨job, hc, -, hv⟩ | ⟨a, hc, hxa, -⟩ | ⟨hc, hxa, -⟩
  · have hheld : c'.intake.held = [] := congrArg Intake.held hc
    have hxa : x.answer = none := by simpa [Exchange.Decided, hv] using hxd
    simpa [hheld, Journal.answers, hxa] using hperm
  · have hheld : c'.intake.held = [a] := congrArg Intake.held hc
    have hxs : Journal.answers (x :: j.exchanges) = a :: Journal.answers j.exchanges := by
      simp [Journal.answers, hxa]
    rw [hheld, hxs, List.append_assoc, List.singleton_append]
    exact List.perm_middle.trans (List.Perm.cons _ hperm)
  · have hheld : c'.intake.held = [] := congrArg Intake.held hc
    simpa [hheld, Journal.answers, hxa] using hperm

/-- The answer that was held is handed over. -/
theorem Delivered.refuse {d : Connection σ} {o : Outbox} (hd : c.Delivered j)
    (hi : c.intake = .refusing f) (ho : c.outbox.send f = .queued o) (hint : d.intake = .reading)
    (hans : d.answered = c.answered) : d.Delivered (j.handOver c.outbox f) := by
  obtain ⟨lost, hperm, hlost⟩ := hd
  obtain ⟨hw, -⟩ := Outbox.send_queued ho
  have hnil : lost = [] := hlost (by simp [hw])
  subst hnil
  simp only [hi, Intake.held] at hperm
  refine ⟨[], ?_, fun _ => rfl⟩
  rw [posted_handOver_queued ho, exchanges_handOver, hint, hans]
  simpa [Intake.held] using hperm

/-- The answer that was held is lost with the writer. -/
theorem Delivered.drop {d : Connection σ} (hd : c.Delivered j) (hi : c.intake = .refusing f)
    (ho : c.outbox.send f = .refused) (hint : d.intake = .reading) (hans : d.answered = c.answered)
    (hstate : d.outbox.state = .failed) : d.Delivered (j.handOver c.outbox f) := by
  obtain ⟨lost, hperm, -⟩ := hd
  simp only [hi, Intake.held] at hperm
  refine ⟨f :: lost, ?_, fun h => absurd hstate h⟩
  rw [posted_handOver_refused ho, exchanges_handOver, hint, hans]
  refine List.Perm.trans ?_ hperm
  simp only [Intake.held, List.append_nil, List.cons_append, List.append_assoc, List.nil_append]
  rw [← List.append_assoc, ← List.append_assoc]
  exact List.perm_middle.symm

/-- **Every answer is in one place after every event.** -/
theorem Delivered.step (h : Step now r c e c' r') (hs : c.terms? = some terms)
    (hp : r.plan = reg.plan) (ht : c.Tidy) (ha : Accounts reg terms c j.exchanges)
    (hd : c.Delivered j) : c'.Delivered (j.note r c e c') := by
  have same : ∀ {d : Connection σ}, d.answered = c.answered → d.intake = c.intake →
      (d.outbox.state ≠ .failed → c.outbox.state ≠ .failed) → d.Delivered j := by
    intro d hans hint hstate
    obtain ⟨lost, hperm, hlost⟩ := hd
    exact ⟨lost, by rw [hans, hint]; exact hperm, fun h => hlost (hstate h)⟩
  cases h with
  | @receive bs he =>
    obtain ⟨lost, hperm, hlost⟩ := hd
    exact ⟨lost, hperm, hlost⟩
  | hangUp | lose | retire _ => exact same rfl rfl id
  | release _ _ _ _ => exact same rfl rfl id
  | head hst _ | options hst _ => simp [terms?, hst] at hs
  | @frame terms' f b hst hn =>
    obtain ⟨rfl, hi⟩ := eq_terms hst hs
    simp only [Journal.note, hst, hn]
    cases hh : f.readHeader terms'.codec with
    | error why =>
      obtain ⟨lost, hperm, hlost⟩ := hd
      have hint : intake { c with buffer := b, stage := .serving terms' (dispatch terms' r f).1 } =
          .stopped := by simp [intake, dispatch, hh]
      exact ⟨lost, by simpa [hi, hint, Intake.held] using hperm, hlost⟩
    | ok h => exact hd.frame hi hp hh
  | @stop terms' b hst hn =>
    obtain ⟨rfl, hi⟩ := eq_terms hst hs
    obtain ⟨lost, hperm, hlost⟩ := hd
    simp only [hi, Intake.held, List.append_nil] at hperm
    have hnote : j.note r c .read { c with buffer := b, stage := .serving terms' .stopped } = j := by
      rcases hn with ⟨why, hn⟩ | ⟨hn, -⟩ <;> simp only [Journal.note, hst, hn]
    rw [hnote]
    exact ⟨lost, by simpa [intake, Intake.held] using hperm, hlost⟩
  | @refuse terms' f o hst ho =>
    obtain ⟨rfl, hi⟩ := eq_terms hst hs
    simp only [Journal.note, hst]
    exact hd.refuse hi ho rfl rfl
  | @drop terms' f hst ho =>
    obtain ⟨rfl, hi⟩ := eq_terms hst hs
    have hf := ht.failed_of_refused ho (ht.not_released (intake_ne_stopped hst (by simp)))
    simp only [Journal.note, hst]
    exact hd.drop hi ho rfl rfl hf
  | @start terms' h job deadline hst hpos =>
    obtain ⟨rfl, hi⟩ := eq_terms hst hs
    obtain ⟨lost, hperm, hlost⟩ := hd
    have hans : Journal.answers (Exchange.enter c.tickets j.exchanges) =
        Journal.answers j.exchanges := by
      cases j.exchanges <;> rfl
    simp only [hi, Intake.held, List.append_nil] at hperm
    refine ⟨lost, ?_, hlost⟩
    simp only [Journal.note, hans]
    simpa [intake, Intake.held] using hperm
  | @finish terms' i t call hst hc hdue =>
    obtain ⟨rfl, hi⟩ := eq_terms hst hs
    obtain ⟨hm, rfl⟩ := mem_of_call? hc
    obtain ⟨x, hx, hxt, hxv, -, -⟩ := ha.running call hm
    have hxa : x.answer = none := by simpa [Exchange.Decided, hxv] using ha.decided x hx
    simp only [Journal.note, hc, answered_settleAnswer, lookup_settled (ha.ne_of_running hc)]
    refine hd.settle _ (answered_settleAnswer _ _ _) ?_ ?_ ?_
    · cases Answer.frame? terms'.codec call.header ((r.act call.job).1.toReply terms'.codec) <;> rfl
    · cases Answer.frame? terms'.codec call.header ((r.act call.job).1.toReply terms'.codec) <;> rfl
    · exact Journal.answers_settle _ _ ha.nodup hx hxt hxa
  | @expire terms' i t call hst hc =>
    obtain ⟨rfl, hi⟩ := eq_terms hst hs
    obtain ⟨hm, rfl⟩ := mem_of_call? hc
    obtain ⟨x, hx, hxt, hxv, -, -⟩ := ha.running call hm
    have hxa : x.answer = none := by simpa [Exchange.Decided, hxv] using ha.decided x hx
    rw [note_expire hst, answered_settleAnswer, lookup_settled (ha.ne_of_running hc)]
    refine hd.settle _ (answered_settleAnswer _ _ _) ?_ ?_ ?_
    · cases Answer.failure? terms'.codec call.header (.handleTimeout terms'.budget) <;> rfl
    · cases Answer.failure? terms'.codec call.header (.handleTimeout terms'.budget) <;> rfl
    · exact Journal.answers_settle _ _ ha.nodup hx hxt hxa
  | post hl ho =>
    simp only [Journal.note, hl]
    exact hd.post ha.once hl ho rfl rfl
  | discard hl ho =>
    simp only [Journal.note, hl]
    refine hd.discard ha.once hl ho rfl rfl (ht.failed_of_refused ho fun h => ?_)
    exact lookup_ne_nil hl (ht.released h).2.2
  | write hst hf ho =>
    have hw := (Outbox.step_cases ho).1
    exact same rfl rfl fun _ => by simp [hw]

end Connection
end Callwire
