/-
# How many calls there are at once

On every connection the free permits and the calls that hold one make up the limit, and
at least one call has room. So the reader of requests waits only while that many calls
are without an answer, and no request is passed over: those that were taken are the first
of the stream, and each has had its permit, or was refused, or waits for one. When nobody
can hand over an answer any more, all permits are free.

The limit is meant for the handlers, and it bounds those whose calls are not answered. But
a permit is back once the answer is handed over, and the handler of a call that was too late
goes on. So there may be more handlers than the limit, and there are exactly if more of them
go on without a permit than there are permits without a handler; without a budget none does.

Key definitions: `Exchange.Vouched`, `Exchange.Admitted`.
Key theorems: `Server.staffed_of_mem_chronicle`,
`Server.permits_accounted`, `Server.handlers_within_limit`.
-/
import Callwire.Proofs.Connection.Handlers
import Callwire.Proofs.Handshake
import Callwire.Proofs.Server.Chronicle

namespace Callwire

variable {σ : Type}

/-! ### Requests and their permits -/

namespace Exchange

/-- Who was not refused and is decided has had a ticket. -/
def Vouched (x : Exchange σ) : Prop :=
  ∀ v, x.verdict = some v → x.ticket ≠ none ∨ ∃ why, v = .refused why

/-- The request has had its permit, or was refused and needs none. -/
def Admitted (x : Exchange σ) : Prop := x.ticket ≠ none ∨ ∃ why, x.verdict = some (.refused why)

theorem vouched_begin (terms : Terms) (r : Registry σ) (c : Connection σ) (f : Frame) (h : Header) :
    (begin terms r c f h).Vouched := by
  unfold begin
  split
  · exact nofun
  · rename_i why _
    intro v hv
    exact .inr ⟨why, (Option.some.inj hv).symm⟩

end Exchange

namespace Connection

variable {r reg : Registry σ} {c c' : Connection σ} {e : Event} {k : Server.Config} {j : Journal σ}
  {terms : Terms}

theorem vouched_note (hall : ∀ x ∈ j.exchanges, x.Vouched) :
    ∀ x ∈ (j.note r c e c').exchanges, x.Vouched :=
  forall_note (fun terms f h _ _ => Exchange.vouched_begin terms r c' f h)
    (fun _ _ _ _ _ => .inl nofun) (fun _ _ _ _ ht _ _ _ _ => .inl (by simp [ht])) hall

theorem admitted_of_open {running : List (Running σ)} {xs : List (Exchange σ)} (ho : Open running xs)
    (hv : ∀ x ∈ xs, x.Vouched) : ∀ x ∈ xs, x.Admitted := by
  intro x hx
  cases hverdict : x.verdict with
  | none =>
    obtain ⟨call, -, ht⟩ := ho x hx hverdict
    exact .inl (by simp [ht])
  | some v =>
    obtain ht | ⟨why, rfl⟩ := hv x hx v hverdict
    · exact .inl ht
    · exact .inr ⟨why, hverdict⟩

/-- **No request is passed over**: all were admitted, but for the last one while it waits. -/
theorem Served.admitted (hk : Served reg k terms c j) (hv : ∀ x ∈ j.exchanges, x.Vouched) :
    (c.parked? = none ∧ ∀ x ∈ j.exchanges, x.Admitted) ∨
    ∃ x rest, j.exchanges = x :: rest ∧ x.job = c.parked? ∧ x.job ≠ none ∧ ∀ y ∈ rest, y.Admitted := by
  have hw := hk.accounts.waiting
  unfold parked?
  cases hi : c.intake with
  | parked h job =>
    rw [hi] at hw
    obtain ⟨x, rest, hj, -, -, -, hjob, ho⟩ := hw
    rw [hj, List.forall_mem_cons] at hv
    exact .inr ⟨x, rest, hj, hjob, by simp [hjob], admitted_of_open ho hv.2⟩
  | reading | refusing _ | stopped =>
    rw [hi] at hw
    exact .inl ⟨rfl, admitted_of_open hw hv⟩

/-- The requests are the first frames of the stream. -/
theorem Served.requests_readable (hk : Served reg k terms c j) {o : Options} {rest : Bytes}
    (ho : Options.Opens j.input o rest) :
    Journal.requests j.exchanges <+: Frame.readable o.codec (Frame.parse k.maxBody rest).1 := by
  obtain ⟨o', rest', ho', rfl, hr⟩ := hk.heard
  obtain ⟨rfl, rfl⟩ := ho.unique ho'
  rw [← hk.limit]
  by_cases hi : c.intake = .stopped
  · have hwhole := hr.whole hi [] fun _ => rfl
    rw [List.append_nil] at hwhole
    rw [hwhole]
  · rw [hr.front hi, Frame.parse_bytesOf hr.fits, Frame.readable_append hk.accounts.readable]
    exact List.prefix_append _ _

theorem Unserved.parked? (hu : Unserved k c j) : c.parked? = none := by
  rcases hu.stage with hst | hst <;> simp only [Connection.parked?, intake, hst]

theorem Tunnelling.parked? (ht : c.Tunnelling k) : c.parked? = none := by
  rcases ht.stage with ⟨hd, hst⟩ | hst <;> simp only [Connection.parked?, intake, hst]

theorem Known.at_rest {o : Option (Journal σ)} (hk : Known reg k c o) (h : c.AtRest) :
    c.parked? = none ∧ c.running = [] ∧ c.answered = [] := by
  cases o with
  | none =>
    have ht : c.Tunnelling k := hk
    exact ⟨ht.parked?, ht.running, ht.answered⟩
  | some j =>
    have hkept : Kept reg k c j := hk
    cases hs : c.terms? with
    | none =>
      have hu := hkept.unserved hs
      exact ⟨hu.parked?, hu.running, hu.answered⟩
    | some terms =>
      obtain ⟨i, hst⟩ := exists_serving hs
      obtain ⟨hrun, hans, hi⟩ := h.settled hst (hkept.served hs).tidy
      refine ⟨?_, hrun, hans⟩
      rcases hi with rfl | ⟨rfl, -⟩ <;> simp only [Connection.parked?, intake, hst]

/-- Nobody can hand over an answer any more, so there is none, and no call that runs. -/
theorem Known.released {o : Option (Journal σ)} (hk : Known reg k c o) (h : c.outbox.released = true) :
    c.running = [] ∧ c.answered = [] := by
  cases o with
  | none =>
    have ht : c.Tunnelling k := hk
    exact ⟨ht.running, ht.answered⟩
  | some j =>
    have hkept : Kept reg k c j := hk
    cases hs : c.terms? with
    | none =>
      have hu := hkept.unserved hs
      exact ⟨hu.running, hu.answered⟩
    | some terms => exact ((hkept.served hs).tidy.released h).2

theorem Known.holders_eq_nil {o : Option (Journal σ)} (hk : Known reg k c o)
    (h : c.outbox.released = true ∨ c.AtRest) : c.holders = [] := by
  have hnone : c.running = [] ∧ c.answered = [] := by
    rcases h with hr | hrest
    · exact hk.released hr
    · exact (hk.at_rest hrest).2
  rw [holders, hnone.1, hnone.2]
  rfl

theorem start_eq_none_iff {now : Nat} {h : Header} {job : Invocation σ}
    (hs : c.stage = .serving terms (.parked h job)) : c.step now r .start = none ↔ c.permits = 0 := by
  unfold step
  simp only [hs]
  by_cases hp : c.permits = 0
  · simp [hp]
  · simp [hp]

end Connection

/-! ### In every run -/

namespace Server

variable {k : Config} {reg : Registry σ} {as : List Act} {c : Connection σ} {o : Option (Journal σ)}

/-- **In every run permits and handlers are in order on every connection**, and so are the
tickets of its requests. -/
theorem staffed_of_mem_chronicle (hx : (c, o) ∈ (chronicle k reg as).entries) :
    c.Staffed (max 1 k.maxCalls) ∧ c.Punctual (chronicle k reg as).now ∧
      ∀ j, o = some j → ∀ x ∈ j.exchanges, x.Vouched := by
  refine (chronicle_keeps (k := k) (P := fun now c o => c.Staffed (max 1 k.maxCalls) ∧ c.Punctual now ∧
    ∀ j, o = some j → ∀ x ∈ j.exchanges, x.Vouched) ?_ ?_ ?_ ?_ as).2.2 (c, o) hx
  · intro now tunnelled
    refine ⟨Connection.staffed_fresh _ _ _ _, Connection.punctual_fresh _ _ _ _, fun j hj => ?_⟩
    cases tunnelled <;> cases hj
    exact List.forall_mem_nil _
  · rintro now now' c o hle ⟨hs, hp, hv⟩
    exact ⟨hs, hp.later hle, hv⟩
  · rintro now r r' c c' o e - hstep ⟨hs, hp, hv⟩
    have h := Connection.Step.of_step hstep
    refine ⟨hs.step h, hp.step h hs.unfinished.nodup, fun j hj => ?_⟩
    cases o with
    | some j₀ =>
      cases hj
      exact Connection.vouched_note (hv j₀ rfl)
    | none =>
      simp only [Journal.watch] at hj
      split at hj
      · cases hj
        exact List.forall_mem_nil _
      · cases hj
  · rintro now c o n ⟨hs, hp, hv⟩
    exact ⟨{ hs with }, { hp with }, hv⟩

/-- **Permits are accounted for.** On every connection, in every run: the free permits and
the calls that hold one make up the limit, and no call holds two. An event gives a permit
to the call that starts, or takes one back, when an answer is handed over or there is none
that can be framed, whatever was decided; else the answer to a decided call waits. A call
waits exactly while as many calls as the limit are without an answer. Once nobody can hand
over an answer any more, and whenever there is nothing more to do, all permits are free. The
requests that were taken are the first frames of the stream, each was admitted or is the one
that waits, and when there is nothing more to do they are all there are. -/
theorem permits_accounted (k : Config) (reg : Registry σ) (as : List Act) (c : Connection σ)
    (o : Option (Journal σ)) (hx : (c, o) ∈ (chronicle k reg as).entries) :
    c.permits + c.holders.length = max 1 k.maxCalls ∧ c.holders.Nodup ∧
    (∀ now r e c' r', c.step now r e = some (c', r') → c.Toll r e c') ∧
    (∀ now r terms h job, c.stage = .serving terms (.parked h job) →
      (c.step now r .start = none ↔ c.holders.length = max 1 k.maxCalls)) ∧
    (c.outbox.released = true ∨ c.AtRest → c.permits = max 1 k.maxCalls) ∧
    ∀ j asked rest, o = some j → Options.Opens j.input asked rest →
      let frames := Frame.readable asked.codec (Frame.parse k.maxBody rest).1
      Journal.requests j.exchanges <+: frames ∧
      ((c.parked? = none ∧ ∀ x ∈ j.exchanges, x.Admitted) ∨
        ∃ x xs, j.exchanges = x :: xs ∧ x.job = c.parked? ∧ x.job ≠ none ∧ ∀ y ∈ xs, y.Admitted) ∧
      (k.Sound → c.AtRest → Journal.requests j.exchanges = frames ∧ ∀ x ∈ j.exchanges, x.Admitted) := by
  obtain ⟨hstaffed, -, hvouched⟩ := staffed_of_mem_chronicle hx
  have hknown := known_of_mem_chronicle hx
  have hsum := hstaffed.permits
  refine ⟨hsum, hstaffed.holders.nodup, fun now r e c' r' hstep => ?_, fun now r terms h job hs => ?_,
    fun hdone => ?_, ?_⟩
  · exact (Connection.Step.of_step hstep).toll hstaffed.holders.nodup
  · rw [Connection.start_eq_none_iff hs]
    omega
  · have hnil := hknown.holders_eq_nil hdone
    rw [hnil, List.length_nil] at hsum
    omega
  · rintro j asked rest rfl hopens frames
    have hkept : Connection.Kept reg k c j := hknown
    cases hs : c.terms? with
    | none =>
      have hu := hkept.unserved hs
      have hp := hu.parked?
      have hnil : Journal.requests j.exchanges = [] := by
        rw [hu.exchanges]
        rfl
      refine ⟨by rw [hnil]; exact List.nil_prefix, .inl ⟨hp, by simp [hu.exchanges]⟩,
        fun hsound hrest => ?_⟩
      rw [hrest.terms? hkept hsound hopens] at hs
      cases hs
    | some terms =>
      have hserved := hkept.served hs
      have hadmitted := hserved.admitted (hvouched j rfl)
      refine ⟨hserved.requests_readable hopens, hadmitted, fun hsound hrest => ?_⟩
      obtain ⟨i, hst, hserved'⟩ := hrest.serving hkept hsound hopens
      refine ⟨hrest.requests hst hserved' hopens, ?_⟩
      obtain ⟨hp, -⟩ := hknown.at_rest hrest
      rcases hadmitted with ⟨-, hall⟩ | ⟨x, xs, -, hjob, hne, -⟩
      · exact hall
      · exact absurd (hjob.trans hp) hne

end Server

namespace Sample

/-- One service with a method that takes its time. -/
def sleepRegistry : Registry Receiver := ⟨[service "Foo" 0 [("Sleep", Kind.sleep.method)]]⟩

/-- Room for one call. -/
def narrow : Server.Config := { maxCalls := 1 }

/-- A budget of fifty milliseconds for every call. -/
def hurried : Options := ⟨Options.magicNumber, .messagePack, .ofSeconds 10, .ofMillis 50⟩

/-- A request that is answered after some milliseconds. -/
def sleepRequest (seq : UInt64) (millis : Nat) : Frame :=
  ⟨(⟨"Foo.Sleep", seq, ""⟩ : Header).bytes .messagePack, MessagePack.print (.int millis)⟩

/-- Two of them. -/
def twoRequests : Bytes := (sleepRequest 1 1000).toBytes ++ (sleepRequest 2 1000).toBytes

/-- Two requests come, the first is started, and the second waits. -/
def waitingRun (o : Options) : List Server.Act :=
  .event (.arrive false) ::
    [.receive (o.line ++ twoRequests), .read, .read, .start, .read].map fun e => .event (.connection 0 e)

/-- Then the first is too late and is answered, and the second is started. -/
def lateRun : List Server.Act :=
  waitingRun hurried ++ .event (.tick 50000000) ::
    [.expire 0, .post 0, .start].map fun e => .event (.connection 0 e)

end Sample

namespace Server

/-- The only permit is held by the first call, so the second waits. -/
theorem permits_accounted_waiting :
    ∃ (c : Connection Sample.Receiver) (o : Option (Journal Sample.Receiver)),
      (c, o) ∈ (chronicle Sample.narrow Sample.sleepRegistry (Sample.waitingRun .default)).entries ∧
      c.holders = [0] ∧ (∀ now r, c.step now r .start = none) ∧
      ∃ j, o = some j ∧ Journal.requests j.exchanges <+:
        Frame.readable .messagePack (Frame.parse maxBodySize Sample.twoRequests).1 := by
  have hend : (chronicle Sample.narrow Sample.sleepRegistry (Sample.waitingRun .default)).entries.head?.any
      (fun x => x.1.holders == [0] && x.1.parked?.isSome &&
        x.2.any (·.input == Options.default.line ++ Sample.twoRequests)) = true := by
    decide +kernel
  obtain ⟨⟨c, o⟩, hx, hend⟩ := (Option.any_eq_true _ _).mp hend
  simp only [Bool.and_eq_true, beq_iff_eq] at hend
  obtain ⟨⟨hholders, hparked⟩, hinput⟩ := hend
  obtain ⟨j, hj, hinput⟩ := (Option.any_eq_true _ _).mp hinput
  have hmem := List.mem_of_head? hx
  obtain ⟨-, -, -, hwait, -, hrequests⟩ :=
    permits_accounted Sample.narrow Sample.sleepRegistry (Sample.waitingRun .default) c o hmem
  have hopens : Options.Opens j.input Options.default.received Sample.twoRequests := by
    rw [beq_iff_eq.mp hinput]
    exact Options.opens_line rfl _
  refine ⟨c, o, hmem, hholders, fun now r => ?_, j, hj, (hrequests j _ _ hj hopens).1⟩
  obtain ⟨job, hjob⟩ := Option.isSome_iff_exists.mp hparked
  obtain ⟨terms, h, hs⟩ := Connection.exists_parked hjob
  exact (hwait now r terms h job hs).mpr (by rw [hholders]; rfl)

/-- **When the limit bounds the handlers.** At each moment of every run no more handlers than
the limit have started and are not over exactly if those that go on without a permit are no
more than the permits that are free or belong to answers that wait. A handler goes on without
a permit only if its call was too late, after the deadline that its budget gave it; so the
limit bounds the handlers whose calls are not decided, and without a budget it bounds all. -/
theorem handlers_within_limit (k : Config) (reg : Registry σ) (as : List Act) :
    let s := as.foldl act (opened k reg)
    ∀ c ∈ s.connections,
      (c.unfinished.length ≤ max 1 k.maxCalls ↔ c.detached.length ≤ c.permits + c.answered.length) ∧
      (∀ call ∈ c.detached, ∃ d, call.deadline = some d ∧ d ≤ s.now) ∧
      c.running.length ≤ max 1 k.maxCalls ∧
      ((∀ terms, c.terms? = some terms → terms.budget = .zero) →
        c.detached = [] ∧ c.unfinished.length ≤ max 1 k.maxCalls) := by
  intro s c hc
  have hserver : (chronicle k reg as).server = s := server_chronicle k reg as
  have hnow : (chronicle k reg as).now = s.now := congrArg Server.now hserver
  have hmem : c ∈ (chronicle k reg as).entries.map (·.1) := by
    rw [← hserver] at hc
    exact hc
  obtain ⟨⟨c', o⟩, hx, hcc⟩ := List.mem_map.mp hmem
  obtain rfl : c' = c := hcc
  obtain ⟨hstaffed, hpunctual, -⟩ := staffed_of_mem_chronicle hx
  -- a permit is free, or held by a call that runs, or by an answer that waits
  have hsum : c'.permits + (c'.running.length + c'.answered.length) = max 1 k.maxCalls := by
    have hsum := hstaffed.permits
    rwa [Connection.holders, List.length_append, List.length_map, List.length_map] at hsum
  have hall : c'.unfinished.length = c'.running.length + c'.detached.length := List.length_append
  refine ⟨by omega, hnow ▸ hpunctual.late, by omega, fun hz => ?_⟩
  have hnone := hpunctual.detached_eq_nil hz
  rw [hnone, List.length_nil] at hall
  exact ⟨hnone, by omega⟩

/-- Without a budget, one handler runs on a connection with room for one. -/
theorem handlers_within_limit_waiting :
    ∃ c ∈ ((Sample.waitingRun .default).foldl act (opened Sample.narrow Sample.sleepRegistry)).connections,
      c.unfinished.length = 1 ∧ c.unfinished.length ≤ max 1 Sample.narrow.maxCalls ∧
      c.detached.length ≤ c.permits + c.answered.length := by
  have hend : ((Sample.waitingRun .default).foldl act
      (opened Sample.narrow Sample.sleepRegistry)).connections.head?.any
      (fun c => c.unfinished.length == 1 && c.terms?.any (·.budget == .zero)) = true := by decide +kernel
  obtain ⟨c, hc, hend⟩ := (Option.any_eq_true _ _).mp hend
  simp only [Bool.and_eq_true, beq_iff_eq] at hend
  obtain ⟨hone, hterms⟩ := hend
  have hmem := List.mem_of_head? hc
  obtain ⟨hiff, -, -, hall⟩ :=
    handlers_within_limit Sample.narrow Sample.sleepRegistry (Sample.waitingRun .default) c hmem
  obtain ⟨-, hbounded⟩ := hall fun terms hs => by simpa [hs] using hterms
  exact ⟨c, hmem, hone, hbounded, hiff.mp hbounded⟩

/-- **The limit does not bound all handlers.** One whose call was too late goes on beside the
next one. -/
theorem not_all_handlers_within_limit :
    ¬ ∀ (k : Config) (reg : Registry Sample.Receiver) (as : List Act),
      ∀ c ∈ (as.foldl act (opened k reg)).connections, c.unfinished.length ≤ max 1 k.maxCalls := by
  intro hall
  have hend : (Sample.lateRun.foldl act (opened Sample.narrow Sample.sleepRegistry)).connections.head?.any
      (fun c => c.unfinished.length == 2) = true := by decide +kernel
  obtain ⟨c, hc, htwo⟩ := (Option.any_eq_true _ _).mp hend
  have hle := hall Sample.narrow Sample.sleepRegistry Sample.lateRun c (List.mem_of_head? hc)
  rw [beq_iff_eq.mp htwo] at hle
  exact absurd hle (by decide)

end Server
end Callwire
