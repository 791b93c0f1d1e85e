/-
# Budgets on the wire

A budget travels in whole milliseconds, in a word of 64 bits. What a server reads is the
remainder of that: a budget comes through as it is exactly if it is a whole number of
milliseconds below `2 ^ 64`, and it comes through as no budget exactly if `2 ^ 64`
divides its milliseconds. Whatever a server has once read from a line can be sent on
without a change.

Key definitions: `Options.Travels`, `Connection.Allots`.
Key theorems: `Options.travels_of_parse`, `Options.there_and_back`, `Connection.allots_step`,
`Server.budget_arrives`.
-/
import Callwire.Proofs.Codec.Kinds
import Callwire.Proofs.Connection.Courses
import Callwire.Proofs.Handshake
import Callwire.Proofs.Server.Permits

namespace Callwire

variable {σ : Type}

/-! ### Options there and back -/

namespace Options

/-- The span is a whole number of milliseconds that a word holds. -/
def Travels (d : Duration) : Prop := ∃ n, n < 2 ^ 64 ∧ d = .ofMillis n

theorem line_dropLast (o : Options) : o.line.dropLast = o.text := List.dropLast_concat

/-- What travels is not changed, and nothing else is left as it is. -/
theorem ofMillis_wireMillis_iff {d : Duration} : .ofMillis (wireMillis d) = d ↔ Travels d := by
  constructor
  · intro h
    exact ⟨wireMillis d, wireMillis_lt d, h.symm⟩
  · rintro ⟨n, hn, rfl⟩
    have hw : wireMillis (.ofMillis n) = n := by
      rw [wireMillis, Duration.millis_ofMillis]
      exact Nat.mod_eq_of_lt hn
    rw [hw]

/-- What travels of a span is zero exactly if its milliseconds fill whole words. -/
theorem ofMillis_wireMillis_eq_zero_iff {d : Duration} :
    Duration.ofMillis (wireMillis d) = .zero ↔ 2 ^ 64 ∣ d.millis := by
  have hnanos : Duration.ofMillis (wireMillis d) = .zero ↔ wireMillis d * 1000000 = 0 :=
    Duration.mk.injEq .. ▸ Iff.rfl
  rw [hnanos, Nat.mul_eq_zero, or_iff_left (by decide), Nat.dvd_iff_mod_eq_zero]
  exact Iff.rfl

theorem received_eq_iff {o : Options} (hm : o.magic = magicNumber) :
    o.received = o ↔ Travels o.connectTimeout ∧ Travels o.handleTimeout := by
  obtain ⟨magic, codec, connect, handle⟩ := o
  obtain rfl : magic = magicNumber := hm
  simp only [received, Options.mk.injEq, true_and, ofMillis_wireMillis_iff]

theorem travels_of_word {n : Int} (h : Width.u64.holds n) : Travels (.ofMillis n.toNat) := by
  have hg : Width.u64.greatest = 18446744073709551615 := rfl
  have hl : Width.u64.least = 0 := rfl
  simp only [Width.holds, hl, hg, Bool.and_eq_true, decide_eq_true_eq] at h
  exact ⟨n.toNat, by omega, rfl⟩

/-- **Budgets that were read from a line travel.** -/
theorem travels_of_parse {bs : Bytes} {o : Options} (h : parse bs = .ok o) :
    o.magic = magicNumber ∧ Travels o.connectTimeout ∧ Travels o.handleTimeout := by
  obtain ⟨d, hread, hdata, hmagic⟩ := parse_eq_ok_iff.mp h
  obtain ⟨r, rfl, hr⟩ := Json.read_record hread
  cases hr with | @cons _ e₁ _ _ h₁ hr
  cases hr with | @cons _ e₂ _ _ h₂ hr
  cases hr with | @cons _ e₃ _ _ h₃ hr
  cases hr with | @cons _ e₄ _ _ h₄ hr
  cases hr
  obtain ⟨magic, hd₁, -⟩ := Scalar.exists_of_admits_int (h₁.admits rfl)
  obtain ⟨id, hd₂, -⟩ := Scalar.exists_of_admits_codec (h₂.admits rfl)
  obtain ⟨connect, hd₃, hconnect⟩ := Scalar.exists_of_admits_int (h₃.admits rfl)
  obtain ⟨handle, hd₄, hhandle⟩ := Scalar.exists_of_admits_int (h₄.admits rfl)
  simp only [Datum.record, List.map_cons, List.map_nil, ofDatum?, hd₁, hd₂, hd₃, hd₄,
    Option.map_eq_some_iff] at hdata
  obtain ⟨codec, -, rfl⟩ := hdata
  exact ⟨hmagic, travels_of_word hconnect, travels_of_word hhandle⟩

/-- **Options there and back.** A line of options is read as what its client asked for with
each budget's milliseconds cut to a word, so it comes back as it was exactly if both
budgets travel. What was read from any line comes back as it is. -/
theorem there_and_back (o : Options) :
    (o.magic = magicNumber →
      parse o.line.dropLast = .ok { o with
        connectTimeout := .ofMillis (o.connectTimeout.millis % 2 ^ 64)
        handleTimeout := .ofMillis (o.handleTimeout.millis % 2 ^ 64) } ∧
      (parse o.line.dropLast = .ok o ↔ Travels o.connectTimeout ∧ Travels o.handleTimeout)) ∧
    ∀ bs : Bytes, parse bs = .ok o → parse o.line.dropLast = .ok o := by
  have hback : o.magic = magicNumber → parse o.line.dropLast = .ok o.received := by
    intro hm
    rw [line_dropLast, parse_text hm]
  have hsame : o.magic = magicNumber →
      (parse o.line.dropLast = .ok o ↔ Travels o.connectTimeout ∧ Travels o.handleTimeout) := by
    intro hm
    rw [hback hm, Except.ok.injEq, received_eq_iff hm]
  refine ⟨fun hm => ⟨?_, hsame hm⟩, fun bs h => ?_⟩
  · rw [hback hm, received, ← hm]
    rfl
  · obtain ⟨hm, htravels⟩ := travels_of_parse h
    exact (hsame hm).mpr htravels

end Options

namespace Sample

/-- The least whole number of seconds whose milliseconds no word of 64 bits holds. -/
def hugeOptions : Options := { Options.default with handleTimeout := .ofSeconds 18446744073709552 }

/-- Options as an array, with blanks around them. -/
def tersePage : Bytes := Bytes.ofText " [3927900, \"application/json\", 5, 0] "

end Sample

namespace Options

theorem there_and_back_terse :
    (parse default.line.dropLast = .ok default ∧
      ¬ parse Sample.hugeOptions.line.dropLast = .ok Sample.hugeOptions) ∧
    parse Sample.tersePage = .ok ⟨magicNumber, .json, .ofMillis 5, .zero⟩ ∧
    parse (line ⟨magicNumber, .json, .ofMillis 5, .zero⟩).dropLast =
      .ok ⟨magicNumber, .json, .ofMillis 5, .zero⟩ := by
  have hterse : parse Sample.tersePage = .ok ⟨magicNumber, .json, .ofMillis 5, .zero⟩ := by
    have h : (parse Sample.tersePage).toOption = some ⟨magicNumber, .json, .ofMillis 5, .zero⟩ := by
      decide +kernel
    revert h
    cases parse Sample.tersePage with
    | error why => exact fun h => by cases h
    | ok o => exact fun h => congrArg _ (Option.some.inj h)
  refine ⟨⟨?_, fun h => ?_⟩, hterse, (there_and_back _).2 _ hterse⟩
  · exact ((there_and_back default).1 rfl).2.mpr ⟨⟨10000, by decide, by decide⟩, ⟨0, by decide, rfl⟩⟩
  · obtain ⟨-, n, hn, hd⟩ := ((there_and_back Sample.hugeOptions).1 rfl).2.mp h
    have hnanos : 18446744073709552 * 1000000000 = n * 1000000 := congrArg Duration.nanos hd
    omega

/-- **Not every span comes through**, though it is a whole number of milliseconds that a
span of `2 ^ 64` seconds at most has: more of them than a word holds are cut. -/
theorem not_all_come_back :
    ¬ ∀ o : Options, o.magic = magicNumber →
      (∃ m, o.connectTimeout = .ofMillis m ∧ m < 2 ^ 64 * 1000) →
      (∃ n, o.handleTimeout = .ofMillis n ∧ n < 2 ^ 64 * 1000) →
      parse o.line.dropLast = .ok o := by
  intro h
  have hback := h Sample.hugeOptions rfl ⟨10000, by decide, by decide⟩
    ⟨18446744073709552000, by decide, by decide⟩
  rw [line_dropLast, parse_text rfl, Except.ok.injEq, received_eq_iff rfl] at hback
  obtain ⟨-, n, hn, hd⟩ := hback
  have hnanos : 18446744073709552 * 1000000000 = n * 1000000 := congrArg Duration.nanos hd
  omega

end Options

/-! ### The budget of a call -/

namespace Connection

variable {now : Nat} {r r' : Registry σ} {c c' : Connection σ} {e : Event} {terms : Terms}

/-- The call has the deadline that the budget gave it when its handler started. -/
def Allots (budget : Duration) (now : Nat) (call : Running σ) : Prop :=
  ∃ began ≤ now, call.deadline = if budget = .zero then none else some (began + budget.nanos)

theorem Allots.later {budget : Duration} {now' : Nat} {call : Running σ} (h : Allots budget now call)
    (hle : now ≤ now') : Allots budget now' call := by
  obtain ⟨began, hb, hd⟩ := h
  exact ⟨began, Nat.le_trans hb hle, hd⟩

/-- A handler that has not finished had started before, or starts now. -/
theorem Shift.of_mem_unfinished (h : Shift now r c c' r') {call : Running σ}
    (hm : call ∈ c'.unfinished) :
    call ∈ c.unfinished ∨ ∃ terms, c.terms? = some terms ∧ Allots terms.budget now call := by
  cases h with
  | rest _ hu _ _ => exact .inl (hu.mem_iff.mp hm)
  | accept _ _ _ hu _ => exact .inl (hu ▸ hm)
  | start _ _ _ hs hd hu _ _ =>
    rcases List.mem_cons.mp (hu.mem_iff.mp hm) with rfl | hm
    · exact .inr ⟨_, hs, now, Nat.le_refl now, hd⟩
    · exact .inl hm
  | done _ hu _ _ => exact .inl (hu.mem_iff.mpr (List.mem_cons_of_mem _ hm))

/-- **Every call of a connection has the budget of the connection**, from the moment its
handler starts. -/
theorem allots_step (h : Step now r c e c' r') (hn : (c.unfinished.map (·.ticket)).Nodup)
    (hp : c.Punctual now)
    (hall : ∀ terms, c.terms? = some terms → ∀ call ∈ c.unfinished, Allots terms.budget now call) :
    ∀ terms, c'.terms? = some terms → ∀ call ∈ c'.unfinished, Allots terms.budget now call := by
  intro terms hs call hm
  rcases (h.shift hn).of_mem_unfinished hm with hold | ⟨terms', hs', hd⟩
  · cases hbefore : c.terms? with
    | none =>
      rw [hp.unserved hbefore] at hold
      cases hold
    | some terms' =>
      obtain rfl := Option.some.inj ((terms?_step h hbefore).symm.trans hs)
      exact hall _ hbefore call hold
  · obtain rfl := Option.some.inj ((terms?_step h hs').symm.trans hs)
    exact hd

end Connection

namespace Server

theorem opens_of_wire {input rest : Bytes} {o : Options} (h : input = (Client.start o).outbox.wire ++ rest) :
    Options.Opens input { o with magic := Options.magicNumber }.received rest := by
  rw [h]
  exact Options.opens_line rfl rest

/-- **In every run every call has the budget of its connection.** -/
theorem allots_of_mem_chronicle {k : Config} {reg : Registry σ} {as : List Act} {c : Connection σ}
    {o : Option (Journal σ)} (hx : (c, o) ∈ (chronicle k reg as).entries) :
    ∀ terms, c.terms? = some terms → ∀ call ∈ c.unfinished,
      Connection.Allots terms.budget (chronicle k reg as).now call := by
  refine ((chronicle_keeps (k := k) (P := fun now c o => c.Staffed (max 1 k.maxCalls) ∧ c.Punctual now ∧
    ∀ terms, c.terms? = some terms → ∀ call ∈ c.unfinished, Connection.Allots terms.budget now call)
    ?_ ?_ ?_ ?_ as).2.2 (c, o) hx).2.2
  · exact fun now tunnelled => ⟨Connection.staffed_fresh _ _ _ _, Connection.punctual_fresh _ _ _ _,
      fun _ _ _ hc => by cases hc⟩
  · rintro now now' c o hle ⟨hs, hp, hall⟩
    exact ⟨hs, hp.later hle, fun terms ht call hc => (hall terms ht call hc).later hle⟩
  · rintro now r r' c c' o e - hstep ⟨hs, hp, hall⟩
    have h := Connection.Step.of_step hstep
    have hn := hs.unfinished.nodup
    exact ⟨hs.step h, hp.step h hn, Connection.allots_step h hn hp hall⟩
  · rintro now c o n ⟨hs, hp, hall⟩
    exact ⟨{ hs with }, { hp with }, hall⟩

/-- The terms on which calls are served are what the client asked for. -/
theorem budget_of_wire {k : Config} {reg : Registry σ} {as : List Act} {c : Connection σ} {j : Journal σ}
    {o : Options} {rest : Bytes} {terms : Terms} (hx : (c, some j) ∈ (chronicle k reg as).entries)
    (hin : j.input = (Client.start o).outbox.wire ++ rest) (hs : c.terms? = some terms) :
    terms.budget = .ofMillis (Options.wireMillis o.handleTimeout) := by
  have hkept : Connection.Kept reg k c j := known_of_mem_chronicle hx
  obtain ⟨o', rest', ho', hterms, -⟩ := (hkept.served hs).heard
  obtain ⟨rfl, rfl⟩ := (opens_of_wire hin).unique ho'
  rw [hterms]
  rfl

/-- **How a budget arrives.** What a server reads of a budget is zero exactly if `2 ^ 64`
divides its milliseconds, as it does if there are none; and no budget stays none. So on a
connection through which a client asks for the budget, whatever else comes on it and in
every run of its server, all calls have a deadline or none has one; and a call that runs
can be given up from its deadline on. -/
theorem budget_arrives (o : Options) :
    (o.magic = Options.magicNumber → ∃ asked,
      Options.parse o.line.dropLast = .ok asked ∧
      (asked.handleTimeout = .zero ↔ 2 ^ 64 ∣ o.handleTimeout.millis) ∧
      (o.handleTimeout = .zero → asked.handleTimeout = .zero)) ∧
    ∀ (k : Config) (reg : Registry σ) (as : List Act) (c : Connection σ) (j : Journal σ) (rest : Bytes),
      (c, some j) ∈ (chronicle k reg as).entries → j.input = (Client.start o).outbox.wire ++ rest →
      (2 ^ 64 ∣ o.handleTimeout.millis → ∀ call ∈ c.unfinished, call.deadline = none) ∧
      (¬ 2 ^ 64 ∣ o.handleTimeout.millis →
        (∀ call ∈ c.unfinished, ∃ began ≤ (chronicle k reg as).now,
          call.deadline = some (began + o.handleTimeout.millis % 2 ^ 64 * 1000000)) ∧
        ∀ call ∈ c.running, ∃ d, call.deadline = some d ∧
          ∀ now r, d ≤ now → (c.step now r (.expire call.ticket)).isSome) := by
  have hzero := Options.ofMillis_wireMillis_eq_zero_iff (d := o.handleTimeout)
  refine ⟨fun hm => ⟨o.received, ?_, hzero, fun hnone => ?_⟩, fun k reg as c j rest hx hin => ?_⟩
  · rw [Options.line_dropLast, Options.parse_text hm]
  · rw [Options.received, hnone]
    rfl
  · obtain ⟨hstaffed, hpunctual, -⟩ := staffed_of_mem_chronicle hx
    cases hs : c.terms? with
    | none =>
      have hnil := hpunctual.unserved hs
      have hrun : c.running = [] := (List.append_eq_nil_iff.mp hnil).1
      rw [hnil, hrun]
      exact ⟨fun _ => List.forall_mem_nil _, fun _ => ⟨List.forall_mem_nil _, List.forall_mem_nil _⟩⟩
    | some terms =>
      have hcall := allots_of_mem_chronicle hx terms hs
      rw [budget_of_wire hx hin hs] at hcall
      have hdeadline : ¬ 2 ^ 64 ∣ o.handleTimeout.millis → ∀ call ∈ c.unfinished,
          ∃ began ≤ (chronicle k reg as).now,
            call.deadline = some (began + o.handleTimeout.millis % 2 ^ 64 * 1000000) := by
        intro hnot call hc
        obtain ⟨began, hb, hd⟩ := hcall call hc
        rw [if_neg (mt hzero.mp hnot)] at hd
        exact ⟨began, hb, hd⟩
      refine ⟨fun hdvd call hc => ?_, fun hnot => ⟨hdeadline hnot, fun call hc => ?_⟩⟩
      · obtain ⟨began, -, hd⟩ := hcall call hc
        rw [hd, if_pos (hzero.mpr hdvd)]
      · obtain ⟨began, -, hd⟩ := hdeadline hnot call (List.mem_append_left _ hc)
        have hfind := Connection.call?_of_mem (Connection.nodup_running hstaffed.unfinished.nodup) hc
        exact ⟨_, hd, fun now r hle => (Connection.isSome_expire_iff hs hfind).mpr ⟨_, hd, hle⟩⟩

end Server

namespace Sample

/-- Half a millisecond for every call. -/
def briefOptions : Options := { Options.default with handleTimeout := ⟨500000⟩ }

end Sample

namespace Server

/-- **Not every budget arrives as one**: what is below a millisecond arrives as none. -/
theorem not_all_budgets_arrive :
    ¬ ∀ o asked : Options, o.magic = Options.magicNumber → o.handleTimeout ≠ .zero →
      Options.parse o.line.dropLast = .ok asked → asked.handleTimeout ≠ .zero := by
  intro h
  refine h Sample.briefOptions Sample.briefOptions.received rfl (by decide) ?_ (by decide)
  rw [Options.line_dropLast, Options.parse_text rfl]

/-- Of two calls with a budget of fifty milliseconds, the one that runs has its deadline;
with half a millisecond it has none. -/
theorem budget_arrives_hurried :
    (∃ asked, Options.parse Sample.hurried.line.dropLast = .ok asked ∧ asked.handleTimeout ≠ .zero) ∧
    (∃ x ∈ (chronicle Sample.narrow Sample.sleepRegistry (Sample.waitingRun Sample.hurried)).entries,
      ∃ call ∈ x.1.running, ∃ d, call.deadline = some d ∧
        ∀ now r, d ≤ now → (x.1.step now r (.expire call.ticket)).isSome) ∧
    ∃ x ∈ (chronicle Sample.narrow Sample.sleepRegistry (Sample.waitingRun Sample.briefOptions)).entries,
      ∃ call ∈ x.1.running, call.deadline = none := by
  have hend : ∀ o : Options, o = Sample.hurried ∨ o = Sample.briefOptions →
      (chronicle Sample.narrow Sample.sleepRegistry (Sample.waitingRun o)).entries.head?.any
        (fun x => x.1.running.length == 1 &&
          x.2.any (·.input == (Client.start o).outbox.wire ++ Sample.twoRequests)) = true := by
    rintro o (rfl | rfl) <;> decide +kernel
  have hopen : ∀ o : Options, o = Sample.hurried ∨ o = Sample.briefOptions → ∃ c j call,
      (c, some j) ∈ (chronicle Sample.narrow Sample.sleepRegistry (Sample.waitingRun o)).entries ∧
        call ∈ c.running ∧ j.input = (Client.start o).outbox.wire ++ Sample.twoRequests := by
    intro o ho
    obtain ⟨⟨c, oj⟩, hx, hfacts⟩ := (Option.any_eq_true _ _).mp (hend o ho)
    simp only [Bool.and_eq_true, beq_iff_eq] at hfacts
    obtain ⟨call, hcall⟩ := List.exists_mem_of_length_pos (by rw [hfacts.1]; decide : 0 < c.running.length)
    obtain ⟨j, rfl, hin⟩ := (Option.any_eq_true _ _).mp hfacts.2
    exact ⟨c, j, call, List.mem_of_head? hx, hcall, beq_iff_eq.mp hin⟩
  refine ⟨?_, ?_, ?_⟩
  · obtain ⟨asked, hasked, hz, -⟩ := (budget_arrives (σ := Sample.Receiver) Sample.hurried).1 rfl
    exact ⟨asked, hasked, fun h => absurd (hz.mp h) (by decide)⟩
  · obtain ⟨c, j, call, hx, hcall, hin⟩ := hopen Sample.hurried (.inl rfl)
    obtain ⟨-, hbound⟩ := (budget_arrives Sample.hurried).2 _ _ _ c j _ hx hin
    exact ⟨_, hx, call, hcall, (hbound (by decide)).2 call hcall⟩
  · obtain ⟨c, j, call, hx, hcall, hin⟩ := hopen Sample.briefOptions (.inr rfl)
    obtain ⟨hnone, -⟩ := (budget_arrives Sample.briefOptions).2 _ _ _ c j _ hx hin
    exact ⟨_, hx, call, hcall, hnone (by decide) call (List.mem_append_left _ hcall)⟩

end Server
end Callwire
