/-
# What holds of a connection at all times

Before the options are read nothing has happened on a connection, and if it ends
there, the line was wrong or never came, or its bounds are such that nothing can
be served. From then on its state and its journal agree: in what was read, in
how requests were decided, in where the answers are and in what was written. This
holds in every run of the server, whatever its other connections do.

Key definitions: `Server.Config.Sound`, `Connection.Unserved`, `Connection.Served`,
`Connection.Kept`.
Key theorems: `Connection.Kept.step`, `Connection.carries_step`, `Server.observe_cases`,
`Server.follow_keeps`, `Server.kept_follow`.
-/
import Callwire.Proofs.Connection.Delivery
import Callwire.Proofs.Connection.Hearing

namespace Callwire

open Outbox (bytesOf)

variable {σ : Type}

/-- A queue and a count of permits can have these bounds. -/
def Server.Config.Sound (k : Server.Config) : Prop :=
  0 < k.capacity ∧ k.capacity ≤ Connection.mostPermits ∧ max 1 k.maxCalls ≤ Connection.mostPermits

instance (k : Server.Config) : Decidable k.Sound := inferInstanceAs (Decidable (_ ∧ _ ∧ _))

namespace Connection

/-- Nothing has happened yet. -/
structure Unserved (k : Server.Config) (c : Connection σ) (j : Journal σ) : Prop where
  exchanges : j.exchanges = []
  posted : j.posted = []
  running : c.running = []
  answered : c.answered = []
  writer : c.outbox.state = .working ∧ c.outbox.released = false
  permits : c.permits = max 1 k.maxCalls
  capacity : c.outbox.capacity = k.capacity
  limit : c.buffer.limit = k.maxBody
  stage : c.stage = .options ∨ c.stage = .gone
  options : c.stage = .options → c.buffer.awaited = none ∧ j.input = c.buffer.unread
  gone : c.stage = .gone → k.Sound → ∀ more, (c.ended = true → more = []) →
    ∀ o rest, ¬ Options.Opens (j.input ++ more) o rest

/-- The options were read; the state and the journal agree. -/
structure Served (reg : Registry σ) (k : Server.Config) (terms : Terms) (c : Connection σ)
    (j : Journal σ) : Prop where
  tidy : c.Tidy
  accounts : Accounts reg terms c j.exchanges
  delivered : c.Delivered j
  limit : c.buffer.limit = k.maxBody
  heard : ∃ o rest, Options.Opens j.input o rest ∧ terms = ⟨o.codec, o.handleTimeout⟩ ∧
    c.Reads terms.codec (Journal.requests j.exchanges) rest

/-- What holds of a connection and its journal at all times. -/
def Kept (reg : Registry σ) (k : Server.Config) (c : Connection σ) (j : Journal σ) : Prop :=
  match c.terms? with
  | none => Unserved k c j
  | some terms => Served reg k terms c j

variable {now : Nat} {r r' reg : Registry σ} {c c' : Connection σ} {e : Event} {terms : Terms}
  {j : Journal σ} {k : Server.Config}

theorem Kept.served (h : Kept reg k c j) (hs : c.terms? = some terms) : Served reg k terms c j := by
  rwa [Kept, hs] at h

theorem Kept.unserved (h : Kept reg k c j) (hs : c.terms? = none) : Unserved k c j := by
  rwa [Kept, hs] at h

theorem Served.kept (h : Served reg k terms c j) (hs : c.terms? = some terms) : Kept reg k c j := by
  rwa [Kept, hs]

theorem Unserved.kept (h : Unserved k c j) : Kept reg k c j := by
  have hs : c.terms? = none := by
    rcases h.stage with hs | hs <;> simp [terms?, hs]
  rwa [Kept, hs]

theorem Unserved.isServable (h : Unserved k c j) : c.isServable = true ↔ k.Sound := by
  simp only [Connection.isServable, h.permits, h.capacity, Bool.and_eq_true, decide_eq_true_eq,
    Server.Config.Sound, and_assoc]

theorem terms?_step (h : Step now r c e c' r') (hs : c.terms? = some terms) :
    c'.terms? = some terms := by
  cases h with
  | receive _ | hangUp | lose | retire _ | post _ _ | discard _ _ => exact hs
  | release _ _ _ _ | write _ _ _ => exact hs
  | head hst _ | options hst _ => simp [terms?, hst] at hs
  | frame hst _ | stop hst _ | refuse hst _ | drop hst _ | start hst _ =>
    obtain ⟨rfl, -⟩ := eq_terms hst hs
    rfl
  | @finish terms' i t call hst hc hd =>
    cases Answer.frame? terms'.codec call.header ((r.act call.job).1.toReply terms'.codec) <;>
      exact hs
  | @expire terms' i t call hst hc =>
    cases Answer.failure? terms'.codec call.header (.handleTimeout terms'.budget) <;> exact hs

theorem limit_step (h : Step now r c e c' r') (hs : c.terms? = some terms) :
    c'.buffer.limit = c.buffer.limit := by
  cases h with
  | receive _ | hangUp | lose | retire _ | post _ _ | discard _ _ => rfl
  | release _ _ _ _ | write _ _ _ | refuse _ _ | drop _ _ | start _ _ => rfl
  | head hst _ | options hst _ => simp [terms?, hst] at hs
  | frame hst hn => exact (Frame.Buffer.next_frame hn).2.2.2
  | stop hst hn =>
    rcases hn with ⟨why, hn⟩ | ⟨hn, -⟩
    · rw [(Frame.Buffer.next_error hn []).1]
    · exact (Frame.Buffer.next_none hn).2.1
  | @finish terms' i t call hst hc hd =>
    cases Answer.frame? terms'.codec call.header ((r.act call.job).1.toReply terms'.codec) <;> rfl
  | @expire terms' i t call hst hc =>
    cases Answer.failure? terms'.codec call.header (.handleTimeout terms'.budget) <;> rfl

theorem plan_step (h : Step now r c e c' r') : r'.plan = r.plan := by
  cases h with
  | @frame terms f b hst hn =>
    rw [dispatch]
    split
    · rfl
    · split
      · rename_i hi
        exact Registry.plan_invoke hi
      · split <;> rfl
  | finish hst hc hd => exact Registry.plan_act _
  | retire hc => exact Registry.plan_act _
  | _ => rfl

theorem Served.step (h : Step now r c e c' r') (hs : c.terms? = some terms)
    (hp : r.plan = reg.plan) (hk : Served reg k terms c j) :
    Served reg k terms c' (j.note r c e c') := by
  obtain ⟨o, rest, hopen, hterms, hreads⟩ := hk.heard
  refine ⟨hk.tidy.step h hs, hk.accounts.step h hs hp, hk.delivered.step h hs hp hk.tidy hk.accounts,
    (limit_step h hs).trans hk.limit, o, rest ++ e.bytes, ?_, hterms,
    hreads.step h hs hp hk.accounts⟩
  rw [input_note]
  exact hopen.append e.bytes

/-- With the options, serving begins, and nothing is there yet. -/
theorem Unserved.serve (hk : Unserved k c j) (hst : c.stage = .options) {line : Bytes}
    {b : Frame.Buffer} {o : Options}
    (hl : c.buffer.takeLine Options.lineLimit = (.ok (some line), b))
    (hp : Options.parse line = .ok o) (hserv : c.isServable = true) :
    Served reg k ⟨o.codec, o.handleTimeout⟩
      { c with buffer := b, stage := .serving ⟨o.codec, o.handleTimeout⟩ .reading } j := by
  obtain ⟨haw, hin⟩ := hk.options hst
  obtain ⟨pre, -, -, -, -, hb⟩ := Frame.Buffer.takeLine_line hl
  have haw' : b.awaited = none := by rw [hb]; exact haw
  have hlim : b.limit = k.maxBody := by rw [hb]; exact hk.limit
  have hopen := opens_of_takeLine hl hp
  rw [← hin] at hopen
  have hpos : 0 < k.capacity := (hk.isServable.mp hserv).1
  have hpm : 0 < c.permits := by
    rw [hk.permits]
    omega
  refine ⟨⟨?_, ?_, ?_, ?_, ?_⟩, ?_, ⟨[], ?_, fun _ => rfl⟩, ?_, o, b.unread, hopen, rfl,
    Frame.Buffer.checked_of_awaited_eq_none haw', ?_, ?_, fun _ => ?_, ?_⟩
  · rwa [hk.capacity]
  · simp only [hk.running, hk.answered]
    omega
  · exact fun h => by simp [hk.writer.1] at h
  · exact fun h => by simp [hk.writer.2] at h
  · exact fun h => by simp [hk.writer.1] at h
  · rw [hk.exchanges]
    refine ⟨?_, ?_, ?_, List.nodup_nil, ?_, ?_, ?_, ?_, ?_, ?_⟩
    · simp
    · simp
    · simp
    · simp [Journal.tickets]
    · simp [hk.running]
    · simp [hk.running]
    · simp [intake, Waiting, Open]
    · simp [hk.answered]
    · simp [hk.answered]
  · simp [hk.exchanges, hk.posted, hk.answered, intake, Intake.held, Journal.answers]
  · exact hlim
  · simp [hk.exchanges, Journal.requests]
  · simp [hk.exchanges, Journal.requests, Frame.bytesOf_nil]
  · simp [hk.exchanges, Journal.requests, Frame.bytesOf_nil, Frame.Buffer.front, haw']
  · exact fun h => by simp [intake] at h

/-- Without acceptable options there is nothing to serve, now or later. -/
theorem Unserved.leave (hk : Unserved k c j) (hst : c.stage = .options)
    (hwhy : (∃ why b, c.buffer.takeLine Options.lineLimit = (.error why, b)) ∨
      (∃ b, c.buffer.takeLine Options.lineLimit = (.ok none, b) ∧ c.ended = true) ∨
      (∃ line b why, c.buffer.takeLine Options.lineLimit = (.ok (some line), b) ∧
        Options.parse line = .error why) ∨ c.isServable = false) (hsound : k.Sound)
    {more : Bytes} (hm : c.ended = true → more = []) (o : Options) (rest : Bytes) :
    ¬ Options.Opens (j.input ++ more) o rest := by
  rintro ⟨line, heq, hn, hlen, hp⟩
  rw [(hk.options hst).2] at heq
  rcases hwhy with ⟨why, b, hl⟩ | ⟨b, hl, he⟩ | ⟨line', b, why, hl, hw⟩ | hserv
  · have := Frame.Buffer.takeLine_error hl heq
    omega
  · obtain ⟨-, hfree⟩ := Frame.Buffer.takeLine_none hl
    rw [hm he, List.append_nil] at heq
    exact hfree (heq ▸ by simp)
  · obtain ⟨pre, hu, hn', -, rfl, -⟩ := Frame.Buffer.takeLine_line hl
    rw [hu, List.append_assoc, List.cons_append] at heq
    obtain ⟨rfl, -⟩ := Frame.Buffer.line_inj hn' hn heq
    rw [hp] at hw
    cases hw
  · rw [hk.isServable.mpr hsound] at hserv
    cases hserv

theorem Unserved.step (h : Step now r c e c' r') (hk : Unserved k c j) :
    Kept reg k c' (j.note r c e c') := by
  have hns : ∀ terms i, c.stage ≠ .serving terms i := by
    intro terms i hs
    rcases hk.stage with ho | ho <;> simp [ho] at hs
  cases h with
  | @receive bs he =>
    refine Unserved.kept { hk with options := fun hs => ?_, gone := fun hs hsound more _ => ?_ }
    · obtain ⟨haw, hin⟩ := hk.options hs
      exact ⟨haw, by simp [Journal.note, hin, Frame.Buffer.extend]⟩
    · simp only [Journal.note, List.append_assoc]
      exact hk.gone hs hsound _ (by simp [he])
  | hangUp =>
    exact Unserved.kept
      { hk with gone := fun hs hsound more hm => hk.gone hs hsound more fun _ => hm rfl }
  | lose | retire _ => exact Unserved.kept { hk with }
  | head hst _ => rcases hk.stage with ho | ho <;> simp [ho] at hst
  | options hst hr =>
    have hnote : j.note r c .read c' = j := by simp only [Journal.note, hst]
    rw [hnote]
    rcases readOptions_cases hr with ⟨line, b, o, hl, hp, hserv, rfl⟩ | ⟨⟨b, hlim, rfl⟩, hwhy⟩
    · exact (hk.serve hst hl hp hserv).kept rfl
    · refine Unserved.kept { hk with
        limit := hlim.trans hk.limit
        stage := .inr rfl
        options := by simp
        gone := fun _ hsound more hm => hk.leave hst hwhy hsound hm }
  | frame hst _ | stop hst _ | refuse hst _ | drop hst _ | start hst _ => exact absurd hst (hns _ _)
  | finish hst _ _ | expire hst _ | release hst _ _ _ | write hst _ _ => exact absurd hst (hns _ _)
  | post hl _ | discard hl _ => simp [hk.answered] at hl

/-- **What holds of a connection holds after every event.** -/
theorem Kept.step (h : c.step now r e = some (c', r')) (hp : r.plan = reg.plan)
    (hk : Kept reg k c j) : Kept reg k c' (j.note r c e c') := by
  have h := Step.of_step h
  cases hs : c.terms? with
  | none => exact (hk.unserved hs).step h
  | some terms => exact ((hk.served hs).step h hs hp).kept (terms?_step h hs)

theorem posted_note_read : (j.note r c .read c').posted = j.posted := by
  simp only [Journal.note]
  split
  · split <;> rfl
  · rfl

theorem Kept.head_ne (hk : Kept reg k c j) (hd : Tunnel.Head) : c.stage ≠ .head hd := by
  intro hs
  have hu := hk.unserved (by simp [terms?, hs])
  rcases hu.stage with ho | ho <;> simp [ho] at hs

theorem Kept.wire (hk : Kept reg k c j) (bs : Bytes) :
    Kept reg k { c with outbox := { c.outbox with wire := bs } } j := by
  cases hs : c.terms? with
  | none =>
    have hu := hk.unserved hs
    exact Unserved.kept { hu with }
  | some terms =>
    have hv := hk.served hs
    have ht : Tidy { c with outbox := { c.outbox with wire := bs } } := { hv.tidy with }
    obtain ⟨o, rest, ho, hterms, hr⟩ := hv.heard
    exact Served.kept
      ⟨ht, { hv.accounts with }, hv.delivered, hv.limit, o, rest, ho, hterms, { hr with }⟩ hs

/-- **What was handed over is on its way after every event.** -/
theorem carries_step (h : c.step now r e = some (c', r')) (hk : Kept reg k c j) {gone : Bytes}
    (hc : c.outbox.Carries gone (bytesOf j.posted)) :
    c'.outbox.Carries gone (bytesOf (j.note r c e c').posted) := by
  have h := Step.of_step h
  cases h with
  | receive _ | hangUp | lose | retire _ | start _ _ => exact hc
  | head hst _ => exact absurd hst (hk.head_ne _)
  | options hst hr =>
    rw [posted_note_read]
    rcases readOptions_cases hr with ⟨line, b, o, -, -, -, rfl⟩ | ⟨⟨b, -, rfl⟩, -⟩ <;> exact hc
  | frame _ _ | stop _ _ =>
    rw [posted_note_read]
    exact hc
  | refuse hst ho =>
    simp only [Journal.note, hst, posted_handOver_queued ho, Frame.bytesOf_concat]
    exact hc.send ho
  | drop hst ho =>
    simp only [Journal.note, hst, posted_handOver_refused ho]
    exact hc
  | @finish terms i t call hst hcall hd =>
    simp only [Journal.note, hcall]
    cases Answer.frame? terms.codec call.header ((r.act call.job).1.toReply terms.codec) <;> exact hc
  | @expire terms i t call hst hcall =>
    rw [note_expire hst]
    cases Answer.failure? terms.codec call.header (.handleTimeout terms.budget) <;> exact hc
  | post hl ho =>
    simp only [Journal.note, hl, posted_handOver_queued ho, Frame.bytesOf_concat]
    exact hc.send ho
  | discard hl ho =>
    simp only [Journal.note, hl, posted_handOver_refused ho]
    exact hc
  | release _ _ _ _ => exact hc
  | write hst hf ho => exact hc.step ho

theorem Delivered.mem_posted (hd : c.Delivered j) {f : Frame} (hf : f ∈ j.posted) :
    ∃ x ∈ j.exchanges, x.answer = some f := by
  obtain ⟨lost, hperm, -⟩ := hd
  have hm : f ∈ Journal.answers j.exchanges := hperm.mem_iff.mp (by simp [hf])
  exact List.mem_filterMap.mp hm

theorem Accounts.fits {xs : List (Exchange σ)} (ha : Accounts reg terms c xs) {x : Exchange σ}
    (hx : x ∈ xs) {f : Frame} (hf : x.answer = some f) : f.Fits maxBodySize := by
  have hd := ha.decided x hx
  cases hv : x.verdict with
  | none => simp [Exchange.Decided, hv, hf] at hd
  | some v =>
    simp only [Exchange.Decided, hv, hf] at hd
    exact Answer.fits_frame? hd.1.symm

end Connection

/-! ### In a run of a server -/

namespace Server

variable {s s' : Server σ} {i : Nat} {c : Connection σ} {j : Journal σ}

/-- An event of a server is one of the connection, or leaves it and its journal as
they are; services stay the same in outline. -/
theorem observe_cases {e : Event} (h : s.step e = some s') (hc : s.connections[i]? = some c) :
    s'.registry.plan = s.registry.plan ∧
      (((∀ ce, e ≠ .connection i ce) ∧ s'.connections[i]? = some c ∧ record i s e s' j = j) ∨
        ∃ ce c', c.step s.now s.registry ce = some (c', s'.registry) ∧ e = .connection i ce ∧
          s'.connections[i]? = some c' ∧ record i s e s' j = j.note s.registry c ce c') := by
  cases e with
  | arrive tunnelled =>
    cases h
    refine ⟨rfl, .inl ⟨nofun, ?_, rfl⟩⟩
    have hl := (List.getElem?_eq_some_iff.mp hc).1
    rw [Server.arrive, List.getElem?_append_left hl, hc]
  | tick n =>
    cases h
    exact ⟨rfl, .inl ⟨nofun, hc, rfl⟩⟩
  | connection k ce =>
    simp only [step, bind, Option.bind] at h
    cases hk : s.connections[k]? with
    | none => simp [hk] at h
    | some d =>
      simp only [hk] at h
      cases hd : d.step s.now s.registry ce with
      | none => simp [hd] at h
      | some p =>
        obtain ⟨d', r'⟩ := p
        simp only [hd, pure, Option.some.injEq] at h
        subst h
        refine ⟨Connection.plan_step (.of_step hd), ?_⟩
        by_cases hki : k = i
        · subst hki
          obtain rfl : c = d := Option.some.inj (hc.symm.trans hk)
          have hl := (List.getElem?_eq_some_iff.mp hc).1
          have hget : (s.put k (d', r')).connections[k]? = some d' := by
            rw [put, List.getElem?_set_self hl]
          exact .inr ⟨ce, d', hd, rfl, hget, by simp [record, hc, hget]⟩
        · refine .inl ⟨fun ce' he => hki (by cases he; rfl), ?_, by simp [record, hki]⟩
          rw [put, List.getElem?_set_ne hki, hc]

/-- What holds of a connection and its journal after every event of the connection
holds after every event of the server. -/
theorem observe_keeps {reg : Registry σ} {P : Connection σ → Journal σ → Prop}
    (hstep : ∀ now r r' c c' j ce, r.plan = reg.plan → c.step now r ce = some (c', r') → P c j →
      P c' (j.note r c ce c')) (p : Server σ × Journal σ) (e : Event)
    (hplan : p.1.registry.plan = reg.plan) (hp : ∃ c, p.1.connections[i]? = some c ∧ P c p.2) :
    (observe i p e).1.registry.plan = reg.plan ∧
      ∃ c, (observe i p e).1.connections[i]? = some c ∧ P c (observe i p e).2 := by
  obtain ⟨c, hc, hpc⟩ := hp
  rw [observe]
  cases hs : p.1.step e with
  | none => exact ⟨hplan, c, hc, hpc⟩
  | some s' =>
    obtain ⟨hpl, hcases⟩ := observe_cases (j := p.2) hs hc
    refine ⟨hpl.trans hplan, ?_⟩
    rcases hcases with ⟨-, hc', hj⟩ | ⟨ce, c', hce, -, hc', hj⟩
    · exact ⟨c, hc', by simpa only [hj] using hpc⟩
    · exact ⟨c', hc', by simpa only [hj] using hstep _ _ _ _ _ _ _ hplan hce hpc⟩

theorem kept_fresh (k : Config) (reg : Registry σ) :
    Connection.Kept reg k (.fresh k.maxBody k.maxCalls k.capacity false) {} :=
  Connection.Unserved.kept ⟨rfl, rfl, rfl, rfl, ⟨rfl, rfl⟩, rfl, rfl, rfl, .inl rfl,
    fun _ => ⟨rfl, rfl⟩, nofun⟩

/-- **What holds of a connection that comes, and after every event of it, holds in every
run of its server**; and services stay the same in outline. -/
theorem follow_keeps (s : Server σ) (es : List Event) {P : Connection σ → Journal σ → Prop}
    (hstep : ∀ now r r' c c' j ce, r.plan = s.registry.plan → c.step now r ce = some (c', r') → P c j →
      P c' (j.note r c ce c'))
    (hfresh : P (.fresh s.config.maxBody s.config.maxCalls s.config.capacity false) {}) :
    (s.follow es).1.registry.plan = s.registry.plan ∧
      ∃ c, (s.follow es).1.connections[s.connections.length]? = some c ∧ P c (s.follow es).2 := by
  have hrun : ∀ p : Server σ × Journal σ, p.1.registry.plan = s.registry.plan →
      (∃ c, p.1.connections[s.connections.length]? = some c ∧ P c p.2) →
      (es.foldl (observe s.connections.length) p).1.registry.plan = s.registry.plan ∧
      ∃ c, (es.foldl (observe s.connections.length) p).1.connections[s.connections.length]? =
        some c ∧ P c (es.foldl (observe s.connections.length) p).2 := by
    induction es with
    | nil => exact fun _ hplan hp => ⟨hplan, hp⟩
    | cons e es ih =>
      intro p hplan hp
      obtain ⟨hplan', hp'⟩ := observe_keeps hstep p e hplan hp
      exact ih _ hplan' hp'
  exact hrun (s.arrive false, {}) rfl ⟨_, List.getElem?_concat_length, hfresh⟩

/-- **In every run of a server, a connection that comes is kept, and all that was
handed to its outbox is on its way.** -/
theorem kept_follow (s : Server σ) (es : List Event) :
    ∃ c, (s.follow es).1.connections[s.connections.length]? = some c ∧
      Connection.Kept s.registry s.config c (s.follow es).2 ∧
      c.outbox.Carries [] (bytesOf (s.follow es).2.posted) := by
  let P (c : Connection σ) (j : Journal σ) : Prop :=
    Connection.Kept s.registry s.config c j ∧ c.outbox.Carries [] (bytesOf j.posted)
  refine (follow_keeps s es (P := P) ?_ ⟨kept_fresh _ _, [], rfl, fun _ => rfl⟩).2
  intro now r r' c c' j ce hplan hstep ⟨hk, hc⟩
  exact ⟨hk.step hstep hplan, Connection.carries_step hstep hk hc⟩

theorem kept_of_follow {es : List Event}
    (hc : (s.follow es).1.connections[s.connections.length]? = some c) :
    Connection.Kept s.registry s.config c (s.follow es).2 ∧
      c.outbox.Carries [] (bytesOf (s.follow es).2.posted) := by
  obtain ⟨c', hc', h⟩ := kept_follow s es
  obtain rfl : c = c' := Option.some.inj (hc.symm.trans hc')
  exact h

end Server
end Callwire
