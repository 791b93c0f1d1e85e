/-
# Which requests are answered

A connection at rest can do nothing by itself, however late it gets. There every
request that was taken is decided, and all answers are written. So a request
goes without an answer only if there is something to complain about and the
complaint does not fit into a header together with the name of the method. That
happens: a long enough name that no service knows is told twice.

Key definitions: `Connection.Quiet`, `Connection.AtRest`.
Key theorems: `Connection.AtRest.idle`, `Server.answered_at_rest`.
-/
import Callwire.Proofs.Connection.Upkeep
import Callwire.Service.Sample

namespace Callwire

open Outbox (bytesOf)

variable {σ : Type}

namespace Connection

/-- Nothing can happen by itself, whatever time it is and whatever the services
have done. -/
def Quiet (c : Connection σ) : Prop := ∀ now r e, e.isOwn = true → c.step now r e = none

/-- Nothing more can happen by itself, or the writer has closed its side. -/
def AtRest (c : Connection σ) : Prop := c.Quiet ∨ c.outbox.state = .closed

variable {reg : Registry σ} {c : Connection σ} {terms : Terms} {j : Journal σ} {k : Server.Config}
  {i : Intake σ}

theorem Quiet.outbox_step (hq : c.Quiet) (hs : c.stage = .serving terms i) {e : Outbox.Event}
    (hf : e = .fail → c.lost = true) (hw : ∀ n, e = .write n → c.lost = false) :
    c.outbox.step e = none := by
  cases ho : c.outbox.step e with
  | none => rfl
  | some o =>
    have h := hq 0 {} (.write e) rfl
    simp only [step, hs, ho] at h
    cases e <;> simp_all

theorem Quiet.written (hq : c.Quiet) (hs : c.stage = .serving terms i)
    (hw : c.outbox.state = .working) :
    c.outbox.batch.parcels = [] ∧ c.outbox.queue = [] ∧ c.outbox.released ≠ true := by
  have hbatch : c.outbox.batch.parcels = [] := by
    refine Classical.byContradiction fun hb => ?_
    cases hl : c.lost with
    | true =>
      have hnone := hq.outbox_step hs (e := .fail) (fun _ => hl) fun _ h => by cases h
      simp [Outbox.step, hw, hb] at hnone
    | false =>
      have hleft : 0 < c.outbox.batch.left.length :=
        List.length_pos_iff.mpr fun h => hb (Batch.left_eq_nil_iff.mp h)
      have hnone := hq.outbox_step hs (e := .write c.outbox.batch.left.length) (fun h => by cases h)
        fun _ _ => hl
      simp [Outbox.step, hw, hleft] at hnone
  have hqueue : c.outbox.queue = [] := by
    refine Classical.byContradiction fun hne => ?_
    obtain ⟨f, queue, hcons⟩ := List.exists_cons_of_ne_nil hne
    have hopen := Batch.isOpen_of_parcels_eq_nil hbatch
    have hnone := hq.outbox_step hs (e := .take) (fun h => by cases h) fun _ h => by cases h
    simp [Outbox.step, hw, hcons, Batch.add?, hopen] at hnone
  refine ⟨hbatch, hqueue, fun hr => ?_⟩
  have hnone := hq.outbox_step hs (e := .close) (fun h => by cases h) fun _ h => by cases h
  simp [Outbox.step, hw, hbatch, hqueue, hr] at hnone

theorem Quiet.room (hq : c.Quiet) (hs : c.stage = .serving terms i) (ht : c.Tidy) (f : Frame) :
    c.outbox.send f ≠ .full := by
  intro hf
  obtain ⟨hw, hfull⟩ := Outbox.send_full hf
  have hqueue := (hq.written hs hw).2.1
  have hcap := ht.capacity
  rw [hqueue, List.length_nil] at hfull
  omega

theorem Quiet.answered (hq : c.Quiet) (hroom : ∀ f, c.outbox.send f ≠ .full) : c.answered = [] := by
  cases ha : c.answered with
  | nil => rfl
  | cons p as =>
    obtain ⟨t, f⟩ := p
    have h := hq 0 {} (.post t) rfl
    simp only [step, ha, List.lookup_cons, beq_self_eq_true] at h
    have hf := hroom f
    split at h
    · cases h
    · cases h
    · contradiction

/-- A quiet connection has no call that runs: its time would come. -/
theorem Quiet.running (hq : c.Quiet) (hs : c.stage = .serving terms i) : c.running = [] := by
  cases hr : c.running with
  | nil => rfl
  | cons call cs =>
    have h := hq call.due {} (.finish call.ticket) rfl
    simp [step, hs, hr, call?] at h

/-- The reader of a quiet connection waits for more, or has stopped. -/
theorem Quiet.intake (hq : c.Quiet) (hs : c.stage = .serving terms i) (ht : c.Tidy)
    (hroom : ∀ f, c.outbox.send f ≠ .full) :
    i = .stopped ∨ (i = .reading ∧ c.ended = false ∧ ∃ b, c.buffer.next = (.ok none, b)) := by
  cases i with
  | stopped => exact .inl rfl
  | reading =>
    right
    have h := hq 0 {} .read rfl
    simp only [step, hs, readFrame] at h
    split at h
    · cases h
    · rename_i b hn
      split at h
      · cases h
      · rename_i he
        exact ⟨rfl, by simpa using he, b, hn⟩
    · cases h
  | refusing f =>
    have h := hq 0 {} .refuse rfl
    simp only [step, hs] at h
    have hf := hroom f
    split at h
    · cases h
    · cases h
    · contradiction
  | parked hd job =>
    have h := hq 0 {} .start rfl
    simp only [step, hs] at h
    split at h
    · rename_i hp
      have hpos := ht.permits
      rw [hp, hq.running hs, hq.answered hroom] at hpos
      simp at hpos
    · cases h

/-- At rest no call runs, no answer waits, and the reader waits for more or has
stopped. -/
theorem AtRest.settled (h : c.AtRest) (hs : c.stage = .serving terms i) (ht : c.Tidy) :
    c.running = [] ∧ c.answered = [] ∧
      (i = .stopped ∨ (i = .reading ∧ c.ended = false ∧ ∃ b, c.buffer.next = (.ok none, b))) := by
  rcases h with hq | hc
  · have hroom := hq.room hs ht
    exact ⟨hq.running hs, hq.answered hroom, hq.intake hs ht hroom⟩
  · obtain ⟨hi, hrun, hans⟩ := ht.released (ht.orderly hc).1
    exact ⟨hrun, hans, .inl (by simpa [Connection.intake, hs] using hi)⟩

theorem AtRest.idle (h : c.AtRest) (hs : c.stage = .serving terms i) (hl : c.lost = false)
    (ht : c.Tidy) :
    c.running = [] ∧ c.answered = [] ∧ c.outbox.batch.parcels = [] ∧ c.outbox.queue = [] ∧
      (i = .stopped ∨ (i = .reading ∧ c.ended = false ∧ ∃ b, c.buffer.next = (.ok none, b))) := by
  obtain ⟨hrun, hans, hi⟩ := h.settled hs ht
  have hwritten : c.outbox.batch.parcels = [] ∧ c.outbox.queue = [] := by
    cases hstate : c.outbox.state with
    | closed => exact (ht.orderly hstate).2
    | failed =>
      rw [ht.failed hstate] at hl
      cases hl
    | working =>
      rcases h with hq | hc
      · obtain ⟨hb, hqueue, -⟩ := hq.written hs hstate
        exact ⟨hb, hqueue⟩
      · rw [hstate] at hc
        cases hc
  exact ⟨hrun, hans, hwritten.1, hwritten.2, hi⟩

theorem AtRest.terms? (h : c.AtRest) (hk : Kept reg k c j) (hsound : k.Sound) {o : Options}
    {rest : Bytes} (ho : Options.Opens j.input o rest) :
    c.terms? = some ⟨o.codec, o.handleTimeout⟩ := by
  cases hs : c.terms? with
  | some terms =>
    obtain ⟨o', rest', ho', rfl, -⟩ := (hk.served hs).heard
    rw [(ho.unique ho').1]
  | none =>
    exfalso
    have hu := hk.unserved hs
    rcases hu.stage with hst | hst
    · obtain ⟨haw, hin⟩ := hu.options hst
      have hq : c.Quiet := by
        rcases h with hq | hc
        · exact hq
        · rw [hu.writer.1] at hc
          cases hc
      have hr := hq 0 {} .read rfl
      simp only [step, hst, Option.map_eq_none_iff] at hr
      rw [readOptions] at hr
      split at hr
      · cases hr
      · rename_i b hl
        obtain ⟨-, hfree⟩ := Frame.Buffer.takeLine_none hl
        obtain ⟨line, heq, -⟩ := ho
        rw [← hin, heq] at hfree
        simp at hfree
      · simp only at hr
        split at hr
        · cases hr
        · split at hr <;> cases hr
    · exact hu.gone hst hsound [] (fun _ => rfl) o rest (by rwa [List.append_nil])

theorem AtRest.serving (h : c.AtRest) (hk : Kept reg k c j) (hsound : k.Sound) {o : Options}
    {rest : Bytes} (ho : Options.Opens j.input o rest) :
    ∃ i, c.stage = .serving ⟨o.codec, o.handleTimeout⟩ i ∧
      Served reg k ⟨o.codec, o.handleTimeout⟩ c j := by
  have hterms := h.terms? hk hsound ho
  obtain ⟨i, hs⟩ := exists_serving hterms
  exact ⟨i, hs, hk.served hterms⟩

theorem AtRest.decided (h : c.AtRest) (hs : c.stage = .serving terms i) (hk : Served reg k terms c j) :
    ∀ x ∈ j.exchanges, ∃ v, x.verdict = some v := by
  obtain ⟨hrun, -, hi⟩ := h.settled hs hk.tidy
  have hw := hk.accounts.waiting
  have hint : c.intake = i := by simp [Connection.intake, hs]
  have hopen : Open ([] : List (Running σ)) j.exchanges := by
    rw [hint, hrun] at hw
    rcases hi with rfl | ⟨rfl, -⟩ <;> exact hw
  intro x hx
  cases hv : x.verdict with
  | some v => exact ⟨v, rfl⟩
  | none =>
    obtain ⟨call, hc, -⟩ := hopen x hx hv
    cases hc

/-- At rest every request has the answer that its verdict calls for. -/
theorem AtRest.exchange (h : c.AtRest) (hs : c.stage = .serving terms i)
    (hk : Served reg k terms c j) {x : Exchange σ} (hx : x ∈ j.exchanges) :
    ∃ v, x.verdict = some v ∧ x.answer = Answer.frame? terms.codec x.header (v.reply terms.codec) ∧
      x.Grounds reg terms v := by
  obtain ⟨v, hv⟩ := h.decided hs hk x hx
  have hd := hk.accounts.decided x hx
  simp only [Exchange.Decided, hv] at hd
  exact ⟨v, hv, hd⟩

/-- At rest the requests that came are all there were to take. -/
theorem AtRest.requests (h : c.AtRest) (hs : c.stage = .serving terms i)
    (hk : Served reg k terms c j) {o : Options} {rest : Bytes} (ho : Options.Opens j.input o rest) :
    Journal.requests j.exchanges = Frame.readable terms.codec (Frame.parse k.maxBody rest).1 := by
  obtain ⟨-, -, hi⟩ := h.settled hs hk.tidy
  obtain ⟨o', rest', ho', -, hr⟩ := hk.heard
  obtain ⟨rfl, rfl⟩ := ho.unique ho'
  have hint : c.intake = i := by simp [Connection.intake, hs]
  rw [← hk.limit]
  rcases hi with rfl | ⟨rfl, -, b, hn⟩
  · simpa using (hr.whole hint [] fun _ => rfl).symm
  · rw [hr.front (by simp [hint]), Frame.parse_bytesOf hr.fits,
      Frame.Buffer.parse_front hn hr.checked, Frame.readable_append hk.accounts.readable]
    simp [Frame.readable]

/-- At rest all answers are written, each once. -/
theorem AtRest.written (h : c.AtRest) (hs : c.stage = .serving terms i) (hl : c.lost = false)
    (hk : Served reg k terms c j) (hc : c.outbox.Carries [] (bytesOf j.posted)) :
    c.outbox.wire = bytesOf j.posted ∧ j.posted.Perm (Journal.answers j.exchanges) := by
  obtain ⟨-, hans, hb, hq, hi⟩ := h.idle hs hl hk.tidy
  have hfail : c.outbox.state ≠ .failed := fun hf => by
    rw [hk.tidy.failed hf] at hl
    cases hl
  obtain ⟨lost, hperm, hlost⟩ := hk.delivered
  have hnil := hlost hfail
  have hheld : c.intake.held = [] := by
    have hint : c.intake = i := by simp [Connection.intake, hs]
    rw [hint]
    rcases hi with rfl | ⟨rfl, -⟩ <;> rfl
  rw [hnil, hheld, hans] at hperm
  exact ⟨hc.wire_eq hfail hb hq, by simpa using hperm⟩

/-- What can happen by itself can still happen later, whatever the services have
done in the meantime. -/
theorem step_isSome_mono {now now' : Nat} {r r' : Registry σ} {e : Event} (hn : now ≤ now')
    (h : (c.step now r e).isSome) : (c.step now' r' e).isSome := by
  cases e with
  | receive bs =>
    simp only [step] at h ⊢
    split at h <;> simp_all
  | hangUp | lose => rfl
  | read =>
    simp only [step, readFrame] at h ⊢
    split at h
    · simpa using h
    · simpa using h
    · split at h
      · rfl
      · split at h
        · simp_all
        · cases h
      · rfl
    · cases h
  | refuse =>
    simp only [step] at h ⊢
    split at h
    · split at h <;> simp_all
    · cases h
  | start =>
    simp only [step] at h ⊢
    split at h
    · split at h <;> simp_all
    · cases h
  | finish t =>
    simp only [step] at h ⊢
    split at h
    · split at h
      · cases h
      · rw [if_neg (by omega)]
        rfl
    · cases h
  | expire t =>
    simp only [step] at h ⊢
    split at h
    · split at h
      · cases h
      · split at h
        · cases h
        · rw [if_neg (by omega)]
          rfl
    · cases h
  | retire t =>
    simp only [step] at h ⊢
    split at h
    · split at h
      · cases h
      · rw [if_neg (by omega)]
        rfl
    · cases h
  | post t =>
    simp only [step] at h ⊢
    split at h
    · cases h
    · split at h <;> simp_all
  | release =>
    simp only [step] at h ⊢
    split at h
    · split at h <;> simp_all
    · cases h
  | write w =>
    simp only [step] at h ⊢
    split at h
    · rw [apply_ite Option.isSome, Option.isSome_map] at h ⊢
      exact h
    · cases h

theorem lost_step {now : Nat} {r r' : Registry σ} {c' : Connection σ} {e : Event}
    (h : Step now r c e c' r') (he : e.isOwn = true) (hh : ∀ hd, c.stage ≠ .head hd) :
    c'.lost = c.lost := by
  cases h with
  | lose => cases he
  | receive _ | hangUp | retire _ | post _ _ | discard _ _ | frame _ _ | stop _ _ => rfl
  | release _ _ _ _ | write _ _ _ | refuse _ _ | drop _ _ | start _ _ => rfl
  | head hst _ => exact absurd hst (hh _)
  | options hst hr =>
    rcases readOptions_cases hr with ⟨line, b, o, -, -, -, rfl⟩ | ⟨⟨b, -, rfl⟩, -⟩ <;> rfl
  | @finish terms i t call hst hcall hd =>
    cases Answer.frame? terms.codec call.header ((r.act call.job).1.toReply terms.codec) <;> rfl
  | @expire terms i t call hst hcall =>
    cases Answer.failure? terms.codec call.header (.handleTimeout terms.budget) <;> rfl

theorem exists_step_of_not_quiet (h : ¬ c.Quiet) :
    ∃ now r e, e.isOwn = true ∧ (c.step now r e).isSome := by
  refine Classical.byContradiction fun hn => h fun now r e he => ?_
  cases hs : c.step now r e with
  | none => rfl
  | some p => exact absurd ⟨now, r, e, he, by simp [hs]⟩ hn

end Connection

namespace Server

/-- From every state of a run, a connection comes to rest when it is let alone and
time passes. -/
theorem exists_rest {reg : Registry σ} {k : Config} {i : Nat} (c : Connection σ)
    (p : Server σ × Journal σ) (hc : p.1.connections[i]? = some c)
    (hplan : p.1.registry.plan = reg.plan) (hk : Connection.Kept reg k c p.2) :
    ∃ (es : List Event) (c' : Connection σ),
      (es.foldl (observe i) p).1.connections[i]? = some c' ∧ c'.Quiet ∧ c'.lost = c.lost ∧
      (es.foldl (observe i) p).2.input = p.2.input := by
  induction c using Connection.wellFounded_follows.induction generalizing p with
  | _ c ih =>
    by_cases hq : c.Quiet
    · exact ⟨[], c, hc, hq, rfl, rfl⟩
    · obtain ⟨now, r, e, he, hsome⟩ := Connection.exists_step_of_not_quiet hq
      let s := { p.1 with now := p.1.now + (now - p.1.now) }
      have hle : now ≤ s.now := by
        simp only [s]
        omega
      have hpos : (c.step s.now s.registry e).isSome := Connection.step_isSome_mono hle hsome
      obtain ⟨⟨c₁, r₁⟩, hq'⟩ := Option.isSome_iff_exists.mp hpos
      have hstep : s.step (.connection i e) = some (s.put i (c₁, r₁)) := by
        have hcs : s.connections[i]? = some c := hc
        simp [step, hcs, hq', bind, Option.bind]
      have hl := (List.getElem?_eq_some_iff.mp hc).1
      have hget : (s.put i (c₁, r₁)).connections[i]? = some c₁ := List.getElem?_set_self hl
      have hrec : record i s (.connection i e) (s.put i (c₁, r₁)) p.2 =
          p.2.note s.registry c e c₁ := by
        have hcs : s.connections[i]? = some c := hc
        simp [record, hcs, hget]
      have hobs : [Event.tick (now - p.1.now), .connection i e].foldl (observe i) p =
          (s.put i (c₁, r₁), p.2.note s.registry c e c₁) := by
        have htick : observe i p (.tick (now - p.1.now)) = (s, p.2) := rfl
        rw [List.foldl_cons, List.foldl_cons, List.foldl_nil, htick, observe, hstep]
        simp only [hrec]
      have hk₁ := hk.step hq' hplan
      obtain ⟨es, c', hc', hquiet, hlost, hinput⟩ := ih c₁ ⟨_, _, _, e, he, hq'⟩
        (s.put i (c₁, r₁), p.2.note s.registry c e c₁) hget
        ((Connection.plan_step (.of_step hq')).trans hplan) hk₁
      refine ⟨[.tick (now - p.1.now), .connection i e] ++ es, c', ?_, hquiet,
        hlost.trans (Connection.lost_step (.of_step hq') he hk.head_ne), ?_⟩
      · rw [List.foldl_append, hobs]
        exact hc'
      · rw [List.foldl_append, hobs, hinput, Connection.input_note, e.bytes_eq_nil he, List.append_nil]

/-- **At rest every request is decided, and each has its answer on the wire once,
unless there is a complaint about it that has no room in a header.** What came
after the line of options is read as frames up to the first that is wrong. A
connection that is let alone comes to rest. -/
theorem answered_at_rest (s : Server σ) (es : List Event) (hsound : s.config.Sound) :
    let j := (s.follow es).2
    ∃ c, (s.follow es).1.connections[s.connections.length]? = some c ∧
      Acc Connection.Follows c ∧
      (c.lost = false → c.AtRest → ∀ o rest, Options.Opens j.input o rest →
        c.outbox.wire = bytesOf j.posted ∧
        j.posted.Perm (Journal.answers j.exchanges) ∧
        Journal.requests j.exchanges = Frame.readable o.codec (Frame.parse s.config.maxBody rest).1 ∧
        ∀ x ∈ j.exchanges, x.request.readHeader o.codec = .ok x.header ∧
          ∃ v, x.verdict = some v ∧ x.Grounds s.registry ⟨o.codec, o.handleTimeout⟩ v ∧
            (x.answer = none ↔
              ∃ why, Answer.complaint? o.codec x.header (v.reply o.codec) = some why ∧
                ¬ (x.header.withError why.message).HasRoom o.codec) ∧
            ∀ a, x.answer = some a → ∃ h, a.readHeader o.codec = .ok h ∧
              h.target = x.header.target ∧ h.seq = x.header.seq) := by
  intro j
  obtain ⟨c, hc, hk, hcarry⟩ := kept_follow s es
  refine ⟨c, hc, Connection.wellFounded_follows.apply c, fun hl hrest o rest ho => ?_⟩
  obtain ⟨i, hs, hserved⟩ := hrest.serving hk hsound ho
  obtain ⟨hwire, hperm⟩ := hrest.written hs hl hserved hcarry
  refine ⟨hwire, hperm, hrest.requests hs hserved ho, fun x hx => ?_⟩
  obtain ⟨v, hv, ha, hg⟩ := hrest.exchange hs hserved hx
  refine ⟨hserved.accounts.read x hx, v, hv, hg, ?_, fun a hsome => ?_⟩
  · rw [ha]
    exact Answer.frame?_eq_none_iff
  · rw [ha] at hsome
    exact ⟨_, (Answer.readHeader_frame? hsome).1, Answer.target_header _, Answer.seq_header _⟩

end Server

/-! ### One request from beginning to end -/

namespace Sample

/-- A server with one method, which tells how long a text is. -/
def lenServer : Server Receiver :=
  .ofServices {} [service "Foo" 0 [("Len", Kind.len.method)]]

/-- A request of that method, for two letters, with a header of any kind. -/
def lenRequest (h : Header) : Frame := ⟨h.bytes .messagePack, MessagePack.print (.text "ab")⟩

/-- The options and the request come, the call is answered, and the peer ends. -/
def lenRun (h : Header) (answerSize : Nat) : List Server.Event :=
  .connection 0 (.receive (Options.default.line ++ (lenRequest h).toBytes)) ::
    [.read, .read, .start, .finish 0, .post 0, .write .take, .write (.write answerSize), .hangUp,
      .read, .release, .write .close].map (.connection 0)

end Sample

namespace Server

theorem answered_at_rest_len :
    Sample.lenServer.config.Sound ∧
    ∃ c, (Sample.lenServer.follow (Sample.lenRun ⟨"Foo.Len", 1, ""⟩ 44)).1.connections[0]? = some c ∧
      c.lost = false ∧ c.outbox.state = .closed ∧
      c.outbox.wire =
        bytesOf (Sample.lenServer.follow (Sample.lenRun ⟨"Foo.Len", 1, ""⟩ 44)).2.posted := by
  have hsound : Sample.lenServer.config.Sound := by decide
  obtain ⟨c, hc, -, h⟩ := answered_at_rest Sample.lenServer (Sample.lenRun ⟨"Foo.Len", 1, ""⟩ 44) hsound
  have hend : ((Sample.lenServer.follow (Sample.lenRun ⟨"Foo.Len", 1, ""⟩ 44)).1.connections[0]?).any
      (fun c => !c.lost && c.outbox.state == .closed) = true := by decide +kernel
  have hc0 : (Sample.lenServer.follow (Sample.lenRun ⟨"Foo.Len", 1, ""⟩ 44)).1.connections[0]? = some c := hc
  rw [hc0] at hend
  simp only [Option.any_some, Bool.and_eq_true, Bool.not_eq_true', beq_iff_eq] at hend
  obtain ⟨hl, hclosed⟩ := hend
  have hinput : (Sample.lenServer.follow (Sample.lenRun ⟨"Foo.Len", 1, ""⟩ 44)).2.input =
      Options.default.text ++ 0x0a :: (Sample.lenRequest ⟨"Foo.Len", 1, ""⟩).toBytes := by
    decide +kernel
  have hopens : Options.Opens (Sample.lenServer.follow (Sample.lenRun ⟨"Foo.Len", 1, ""⟩ 44)).2.input
      Options.default.received (Sample.lenRequest ⟨"Foo.Len", 1, ""⟩).toBytes :=
    ⟨_, hinput, Options.not_mem_text rfl, by decide +kernel,
      by rw [Options.stripReturn_text]; exact Options.parse_text rfl⟩
  exact ⟨hsound, c, hc0, hl, hclosed, (h hl (.inr hclosed) _ _ hopens).1⟩

/-- A request for a method of such a name. -/
def lengthyHeader (n : Nat) : Header := ⟨Header.lengthyName n, 1, ""⟩

theorem hasRoom_lengthyHeader {n : Nat} (hn : n + 64 ≤ maxHeaderSize) :
    (lengthyHeader n).HasRoom .messagePack := by
  have hl := (lengthyHeader n).length_bytes_le
  have ht : (Bytes.ofText (lengthyHeader n).target).length = n := Header.length_lengthyName n
  have he : (Bytes.ofText (lengthyHeader n).error).length = 0 := rfl
  simp only [Header.HasRoom]
  omega

/-- The complaint about a name tells it once more, so there is no room for a name
of more than half a header. -/
theorem not_hasRoom_illFormed {h : Header}
    (hn : maxHeaderSize < 2 * (Bytes.ofText h.target).length) :
    ¬ (h.withError (Fault.dispatch (.illFormed h.target)).message).HasRoom .messagePack := by
  intro hroom
  have hl := (h.withError (Fault.dispatch (.illFormed h.target)).message).length_texts_le
  have hm : (Bytes.ofText h.target).length ≤
      (Bytes.ofText (Fault.dispatch (.illFormed h.target)).message).length :=
    Nat.le_trans (Bytes.length_ofText_le _ _) (Bytes.length_ofText_le _ _)
  simp only [Header.HasRoom] at hroom
  simp only [Header.withError] at hl hroom
  omega

theorem assign_lengthyHeader (n : Nat) (body : Bytes) :
    ({} : Registry Unit).assign .messagePack (lengthyHeader n).target body =
      .error (.dispatch (.illFormed (lengthyHeader n).target)) := by
  have hdot : Text.splitLast? '.' (lengthyHeader n).target.toList = none := by
    rw [Text.splitLast?_eq_none_iff, lengthyHeader, Header.lengthyName, String.toList_ofList]
    exact fun hm => absurd (List.eq_of_mem_replicate hm) (by decide)
  simp [Registry.assign, Registry.invoke, Registry.find, hdot, Except.map]

/-- A request for such a name goes without an answer, whatever it is decided to be. -/
theorem answer_lengthyHeader {x : Exchange Unit} {v : Verdict} {terms : Terms} {n : Nat}
    (hmin : maxHeaderSize < 2 * n) (hx : x.header = lengthyHeader n) (ht : terms.codec = .messagePack)
    (ha : x.answer = Answer.frame? terms.codec x.header (v.reply terms.codec))
    (hg : x.Grounds ({} : Registry Unit) terms v) : x.answer = none := by
  have hassign := assign_lengthyHeader n x.request.body
  rw [← hx, ← ht] at hassign
  have hlong : maxHeaderSize < 2 * (Bytes.ofText x.header.target).length := by
    have hl : (Bytes.ofText (lengthyHeader n).target).length = n := Header.length_lengthyName n
    rw [hx, hl]
    exact hmin
  rw [ha, Answer.frame?_eq_none_iff, ht]
  refine ⟨.dispatch (.illFormed x.header.target), ?_, not_hasRoom_illFormed hlong⟩
  cases v with
  | refused why =>
    have hw : _ = why := Except.error.inj (hassign.symm.trans hg)
    simp [Verdict.reply, Answer.complaint?, ← hw]
  | returned o =>
    obtain ⟨i, st, hi, -⟩ := hg
    cases hassign.symm.trans hi
  | late b =>
    obtain ⟨-, i, hi⟩ := hg
    cases hassign.symm.trans hi

theorem input_receive (bs : Bytes) :
    (({} : Server Unit).follow [.connection 0 (.receive bs)]).2.input = bs := rfl

/-- A connection that got one request for a method of a long name comes to rest
without an answer. -/
theorem exists_unanswered {n : Nat} (hmin : maxHeaderSize < 2 * n) (hmax : n + 64 ≤ maxHeaderSize) :
    ∃ (es : List Event) (c : Connection Unit) (f : Frame),
      (({} : Server Unit).follow es).1.connections[0]? = some c ∧ c.lost = false ∧ c.AtRest ∧
      Options.Opens (({} : Server Unit).follow es).2.input Options.default.received f.toBytes ∧
      Frame.readable .messagePack (Frame.parse maxBodySize f.toBytes).1 = [f] ∧
      f.readHeader .messagePack = .ok (lengthyHeader n) ∧
      (({} : Server Unit).follow es).2.posted = [] := by
  let s : Server Unit := {}
  let f : Frame := ⟨(lengthyHeader n).bytes .messagePack, []⟩
  let first : Event := .connection 0 (.receive (Options.default.line ++ f.toBytes))
  have hsound : s.config.Sound := by decide
  have hbuild : Frame.ofHeader .messagePack (lengthyHeader n) [] = .ok f :=
    Frame.ofHeader_eq_ok_iff.mpr ⟨hasRoom_lengthyHeader hmax, by decide, rfl⟩
  have hread : f.readHeader .messagePack = .ok (lengthyHeader n) := Frame.readHeader_ofHeader hbuild
  -- let alone after the request has come, the connection comes to rest
  obtain ⟨c₀, hc₀, hk₀, -⟩ := kept_follow s [first]
  obtain ⟨es, c, hc, hquiet, hlost, hinput⟩ := exists_rest c₀ (s.follow [first]) hc₀ rfl hk₀
  have hrun : es.foldl (observe s.connections.length) (s.follow [first]) = s.follow (first :: es) := rfl
  rw [hrun] at hc hinput
  have hl : c.lost = false := by
    rw [hlost, ← Option.some.inj hc₀]
    rfl
  have hopens : Options.Opens (s.follow (first :: es)).2.input Options.default.received f.toBytes := by
    refine ⟨Options.default.text, ?_, Options.not_mem_text rfl, by decide +kernel, ?_⟩
    · rw [hinput, input_receive, Options.line, List.append_assoc]
      rfl
    · rw [Options.stripReturn_text]
      exact Options.parse_text rfl
  have hframes : Frame.readable .messagePack (Frame.parse maxBodySize f.toBytes).1 = [f] := by
    have hp := Frame.parse_append (Frame.fits_ofHeader hbuild) []
    rw [List.append_nil] at hp
    have hnil : (Frame.parse maxBodySize []).1 = [] := by simp [Frame.parse]
    rw [hp, hnil]
    simp [Frame.readable, hread, Except.isOk, Except.toBool]
  obtain ⟨hk, hcarry⟩ := kept_of_follow hc
  obtain ⟨i, hs, hserved⟩ := Connection.AtRest.serving (.inl hquiet) hk hsound hopens
  have hreq := Connection.AtRest.requests (.inl hquiet) hs hserved hopens
  have hperm := (Connection.AtRest.written (.inl hquiet) hs hl hserved hcarry).2
  have hans : Journal.answers (s.follow (first :: es)).2.exchanges = [] := by
    refine List.filterMap_eq_nil_iff.mpr fun x hmem => ?_
    have hxr := hserved.accounts.read x hmem
    obtain ⟨v, hv, ha, hg⟩ := Connection.AtRest.exchange (.inl hquiet) hs hserved hmem
    have hxf : x.request = f := by
      have hm : x.request ∈ Journal.requests (s.follow (first :: es)).2.exchanges :=
        List.mem_map.mpr ⟨x, List.mem_reverse.mpr hmem, rfl⟩
      rw [hreq] at hm
      exact List.mem_singleton.mp (hframes ▸ hm)
    have hxh : x.header = lengthyHeader n := by
      rw [hxf] at hxr
      exact (Except.ok.inj (hread.symm.trans hxr)).symm
    exact answer_lengthyHeader hmin hxh rfl ha hg
  rw [hans] at hperm
  exact ⟨first :: es, c, f, hc, hl, .inl hquiet, hopens, hframes, hread, hperm.eq_nil⟩

/-- Not every request is answered. -/
theorem not_all_answered :
    ¬ ∀ (s : Server Unit) (es : List Event) (c : Connection Unit), s.config.Sound →
      (s.follow es).1.connections[s.connections.length]? = some c → c.lost = false → c.AtRest →
      ∀ o rest, Options.Opens (s.follow es).2.input o rest →
      ∀ f ∈ Frame.readable o.codec (Frame.parse s.config.maxBody rest).1,
      ∀ h, f.readHeader o.codec = .ok h →
      ∃ a ∈ (s.follow es).2.posted, ∃ h', a.readHeader o.codec = .ok h' ∧ h'.seq = h.seq := by
  intro hall
  obtain ⟨es, c, f, hc, hl, hrest, hopens, hframes, hread, hposted⟩ :=
    exists_unanswered (n := 40000) (by decide) (by decide)
  have hf : f ∈ Frame.readable .messagePack (Frame.parse maxBodySize f.toBytes).1 := by
    rw [hframes]
    exact List.mem_singleton_self f
  obtain ⟨a, ha, -⟩ := hall {} es c (by decide) hc hl hrest _ _ hopens f hf _ hread
  rw [hposted] at ha
  cases ha

end Server
end Callwire
