/-
# What a caller is told of a failure

A handler that fails gives a text, and the answer carries it as its error with an
empty body. An empty text is no error: the caller takes the empty body for a reply.
So a failed call ends as a success exactly if the text is empty and an empty body is
a reply of the shape that the caller expects; every other failure is told, if a
header has room for its text.

Key definitions: `Client.failureOutcome`.
Key theorems: `Ends.Sound.told_failure`, `Ends.Sound.heard_failure`, `Network.failure_outcome`,
`Network.not_all_failures_told`.
-/
import Callwire.Proofs.Network.Correlation

namespace Callwire

variable {σ : Type}

namespace Answer

variable {codec : Codec} {h : Header} {text : String}

theorem header_failure :
    header codec h ((Verdict.returned (.failure text)).reply codec) = h.withError text := rfl

theorem body_failure :
    body codec h ((Verdict.returned (.failure text)).reply codec) = codec.unitBytes := rfl

theorem failure_eq_none_iff :
    frame? codec h ((Verdict.returned (.failure text)).reply codec) = none ↔
      ¬ (h.withError text).HasRoom codec := by
  rw [frame?_eq_none_iff]
  constructor
  · rintro ⟨why, hw, hr⟩
    cases hw
    exact hr
  · exact fun hr => ⟨.handler text, rfl, hr⟩

end Answer

/-- What a caller is told of a failure of this text. -/
def Client.failureOutcome (codec : Codec) (text : String) : Except Fault Bytes :=
  if text = "" then .ok codec.unitBytes else .error (.remote text)

theorem Header.outcome_failure (codec : Codec) (h : Header) (text : String) :
    (h.withError text).outcome codec.unitBytes = Client.failureOutcome codec text := by
  simp [Header.outcome, Header.isError, Header.withError, Client.failureOutcome]

/-- Only an empty text can be taken for a success. -/
theorem Client.readReply_failure {codec : Codec} {text : String} {shape : Shape} {d : Datum} :
    readReply codec shape (failureOutcome codec text) = .ok d ↔
      text = "" ∧ codec.decode shape codec.unitBytes = .ok d := by
  rw [failureOutcome]
  split
  · rename_i ht
    cases hd : codec.decode shape codec.unitBytes <;> simp [readReply, hd, ht, Except.mapError]
  · rename_i ht
    simp [readReply, ht]

namespace Ends

variable {reg : Registry σ} {k : Server.Config} {o : Options} {v : Ends σ} {e : Exchange σ} {x : Call}
  {text : String} {out : Except Fault Bytes} {f : Frame}

/-- The exchange of a number is that of the call with the number. -/
theorem Sound.header_eq (h : v.Sound reg k o) (hf : v.client.Faithful v.log)
    (hlt : v.log.booked.length < 2 ^ 64) (hx : x ∈ v.client.calls) (he : e ∈ v.journal.exchanges)
    (hs : e.header.seq = x.seq) : x.seq ≠ 0 ∧ e.header = ⟨x.target, x.seq, ""⟩ := by
  obtain ⟨b, hb, -, hbh, -⟩ := h.booking hf he
  have hseq : b.seq = x.seq := by rw [← hs, ← hbh, Booking.header]
  have hne : x.seq ≠ 0 := hseq ▸ hf.log.ne_zero hlt hb
  obtain ⟨b', hb'⟩ := (hf.calls x hx).numbered hne
  have hbb : b = b' := hf.log.eq_of_seq hlt hb hb'.mem (hseq.trans hb'.seq.symm)
  exact ⟨hne, by rw [← hbh, Booking.header, hseq, hbb, hb'.target]⟩

/-- If the peer told an outcome of a call that failed, it is that of the failure. -/
theorem Sound.told_failure (h : v.Sound reg k o) (hf : v.client.Faithful v.log)
    (hlt : v.log.booked.length < 2 ^ 64) (hx : x ∈ v.client.calls) (he : e ∈ v.journal.exchanges)
    (hs : e.header.seq = x.seq) (hv : e.verdict = some (.returned (.failure text)))
    (ho : x.outcome = some out) (ht : Client.isTold out = true) :
    out = Client.failureOutcome o.codec text := by
  obtain ⟨e', hd, body, hserves, he', rfl⟩ := h.serves hf hlt hx ho ht
  have hee : e' = e := h.eq_of_seq hf hlt he' he (by rw [hserves.header, hs])
  subst hee
  obtain ⟨a, ha, hr, -, rfl⟩ := hserves.answer
  obtain ⟨w, hw, -, hread, hbody⟩ := h.verdict he ha
  obtain rfl : .returned (.failure text) = w := Option.some.inj (hv.symm.trans hw)
  rw [← Except.ok.inj (hread.symm.trans hr), hbody, Answer.header_failure, Answer.body_failure,
    Header.outcome_failure]

/-- A call whose answer has come ends with it, unless the client was shut down. -/
theorem Sound.heard_failure (h : v.Sound reg k o) (hf : v.client.Faithful v.log)
    (hh : v.client.Heeded v.log) (hlt : v.log.booked.length < 2 ^ 64) (hx : x ∈ v.client.calls)
    (he : e ∈ v.journal.exchanges) (hs : e.header.seq = x.seq)
    (hv : e.verdict = some (.returned (.failure text))) (ha : e.answer = some f) (hg : f ∈ v.log.got)
    (hopen : v.client.shutdown = false) : x.outcome = some (Client.failureOutcome o.codec text) := by
  have hopt : v.client.options.codec = o.codec := by rw [h.options]
  have hatt := hh x hx
  rw [hopt] at hatt
  obtain ⟨hne, -⟩ := h.header_eq hf hlt hx he hs
  obtain ⟨w, -, -, hread, -⟩ := h.verdict he ha
  have hsome := hatt.settled hne f hg _ hread (by rw [Answer.seq_header, hs])
  obtain ⟨out, ho⟩ := Option.ne_none_iff_exists'.mp hsome
  cases ht : Client.isTold out with
  | true => rw [ho, h.told_failure hf hlt hx he hs hv ho ht]
  | false =>
    have hm : e.request ∈ v.log.sent := (h.requests_prefix hf).subset
      (List.mem_map.mpr ⟨e, List.mem_reverse.mpr he, rfl⟩)
    exact absurd hs ((hatt.loyal out ho ht hopen).2 _ hm _ ((h.served he).1.accounts.read e he))

end Ends

namespace Network

/-- **A failure is told as what it is, unless its text is empty.** The answer exists
exactly if a header has room for the text. If it comes while the client is open, the
call ends: with the text as its error, if there is one, and with a reply exactly if the
text is empty and an empty body is such a reply. No other end of the call is a reply. -/
theorem failure_outcome (s : Server σ) (o : Options) (es : List Event)
    (hlt : (follow s o es).log.booked.length < 2 ^ 64) {w : Wire}
    (hw : (follow s o es).network.wires[0]? = some w) {id : Nat} {x : Call}
    (hx : w.client.call? id = some x) {e : Exchange σ} (he : e ∈ (follow s o es).journal.exchanges)
    (hs : e.header.seq = x.seq) {text : String}
    (hv : e.verdict = some (.returned (.failure text))) :
    (e.answer = none ↔ ¬ Header.HasRoom o.codec ⟨x.target, x.seq, text⟩) ∧
      (∀ f ∈ (follow s o es).log.got, e.answer = some f → w.client.shutdown = false →
        ∃ out, x.outcome = some out ∧ (text ≠ "" → out = .error (.remote text)) ∧
          ∀ shape d, Client.readReply o.codec shape out = .ok d ↔
            text = "" ∧ o.codec.decode shape o.codec.unitBytes = .ok d) ∧
      ∀ out shape d, x.outcome = some out → Client.readReply o.codec shape out = .ok d →
        text = "" ∧ o.codec.decode shape o.codec.unitBytes = .ok d := by
  obtain ⟨s', v, hshow, hsound, hreg⟩ := agree s o es
  rw [hshow.log] at hlt ⊢
  rw [hshow.journal] at he
  rw [hshow.wires] at hw
  cases hw
  obtain ⟨hf, hh⟩ := hreg hlt
  obtain ⟨hm, -⟩ := Client.mem_of_call? hx
  refine ⟨?_, fun f hg ha hopen => ?_, fun out shape d ho hr => ?_⟩
  · have hd := (hsound.served he).1.accounts.decided e he
    simp only [Exchange.Decided, hv] at hd
    obtain ⟨-, hheader⟩ := hsound.header_eq hf hlt hm he hs
    rw [hd.1, hheader]
    exact Answer.failure_eq_none_iff
  · refine ⟨_, hsound.heard_failure hf hh hlt hm he hs hv ha hg hopen, fun hne => ?_, fun shape d => ?_⟩
    · rw [Client.failureOutcome, if_neg hne]
    · exact Client.readReply_failure
  · have ht : Client.isTold out = true := by
      cases out with
      | ok body => rfl
      | error why => cases hr
    rw [hsound.told_failure hf hlt hm he hs hv ho ht] at hr
    exact Client.readReply_failure.mp hr

end Network

/-! ### One failure from beginning to end -/

namespace Sample

/-- A server with one method, which fails with the text that it is given. -/
def failServer : Server Receiver :=
  .ofServices {} [service "Foo" 0 [("Fail", Kind.fail.method)]]

/-- A call of that method; the request and the answer go as a whole. -/
def failCall (text : String) : List Network.Event :=
  [.client 0 (.begin 7 "Foo.Fail" (.text text)), .client 0 (.register 7), .client 0 (.post 7),
    .client 0 (.write .take), .client 0 (.write (.write (45 + text.utf8ByteSize))),
    .up 0 (142 + text.utf8ByteSize), .connection 0 0 .read, .connection 0 0 .read,
    .connection 0 0 .start, .connection 0 0 (.finish 0), .connection 0 0 (.post 0),
    .connection 0 0 (.write .take), .connection 0 0 (.write (.write (45 + text.utf8ByteSize))),
    .down 0 (45 + text.utf8ByteSize), .client 0 .read]

/-- What has happened when the client has taken the answer. -/
def failed (text : String) : Network.Account Receiver :=
  Network.follow failServer .default (failCall text)

/-- The call failed with the text, and its answer has come. -/
def hasFailed (text : String) : Bool :=
  (failed text).log.booked.length == 1 &&
    (failed text).network.wires[0]?.any fun w => !w.client.shutdown &&
      (w.client.call? 7).any fun x =>
        (failed text).journal.exchanges.any fun e => e.header.seq == x.seq &&
          (match e.verdict with
            | some (.returned (.failure t)) => t == text
            | _ => false) &&
          e.answer.any fun f => (failed text).log.got.contains f

theorem exists_failure (text : String) (h : hasFailed text = true) :
    (failed text).log.booked.length < 2 ^ 64 ∧
    ∃ w x f, (failed text).network.wires[0]? = some w ∧ w.client.shutdown = false ∧
      w.client.call? 7 = some x ∧ f ∈ (failed text).log.got ∧
      ∃ e ∈ (failed text).journal.exchanges, e.header.seq = x.seq ∧ e.answer = some f ∧
        e.verdict = some (.returned (.failure text)) := by
  simp only [hasFailed, Bool.and_eq_true, Option.any_eq_true, List.any_eq_true, beq_iff_eq,
    Bool.not_eq_true', List.contains_iff_mem] at h
  obtain ⟨hl, w, hw, hopen, x, hx, e, he, ⟨hs, hv⟩, f, hf, hg⟩ := h
  refine ⟨by omega, w, x, f, hw, hopen, hx, hg, e, he, hs, hf, ?_⟩
  split at hv
  · rename_i t ht
    rw [ht, eq_of_beq hv]
  · cases hv

end Sample

namespace Network

theorem failure_outcome_no :
    ∃ w x, (Sample.failed "no").network.wires[0]? = some w ∧ w.client.call? 7 = some x ∧
      x.outcome = some (.error (.remote "no")) := by
  obtain ⟨hlt, w, x, f, hw, hopen, hx, hg, e, he, hs, ha, hv⟩ :=
    Sample.exists_failure "no" (by decide +kernel)
  obtain ⟨-, htold, -⟩ :=
    failure_outcome Sample.failServer .default (Sample.failCall "no") hlt hw hx he hs hv
  obtain ⟨out, ho, hout, -⟩ := htold f hg ha hopen
  exact ⟨w, x, hw, hx, by rw [ho, hout (by decide)]⟩

/-- Not every failure is told. -/
theorem not_all_failures_told :
    ¬ ∀ (s : Server Sample.Receiver) (o : Options) (es : List Event),
      (follow s o es).log.booked.length < 2 ^ 64 →
      ∀ w, (follow s o es).network.wires[0]? = some w → ∀ id x, w.client.call? id = some x →
      ∀ e ∈ (follow s o es).journal.exchanges, e.header.seq = x.seq →
      ∀ text, e.verdict = some (.returned (.failure text)) →
      ∀ out, x.outcome = some out → ∀ shape d, Client.readReply o.codec shape out ≠ .ok d := by
  intro hall
  obtain ⟨hlt, w, x, f, hw, -, hx, -, e, he, hs, -, hv⟩ :=
    Sample.exists_failure "" (by decide +kernel)
  obtain ⟨w', x', hw', hx', ho⟩ := Sample.exists_call (Sample.failed "").network 7
    (Codec.unitBytes .messagePack) (by decide +kernel)
  obtain rfl : w = w' := Option.some.inj (hw.symm.trans hw')
  obtain rfl : x = x' := Option.some.inj (hx.symm.trans hx')
  exact hall _ _ _ hlt w hw 7 x hx e he hs "" hv _ ho (.scalar .unit) .null rfl

end Network
end Callwire
