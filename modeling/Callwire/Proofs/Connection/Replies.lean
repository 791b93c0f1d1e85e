/-
# What a successful answer says

A handler that gives a reply in time is answered by a frame of that reply, if
the reply can be written and the frame keeps its limits. The header of the frame
is the header of the request, all of it: the name, the number, and the error
that the request itself carried. So the answer counts as a success exactly if
the request carried no error.

Key theorems: `Server.reply_header`, `Server.not_all_replies_succeed`.
-/
import Callwire.Proofs.Connection.Answered

namespace Callwire

variable {σ : Type}

namespace Connection

variable {reg : Registry σ} {c : Connection σ} {terms : Terms} {j : Journal σ} {k : Server.Config}

/-- A reply that can be written and framed is the answer. -/
theorem Served.reply (hk : Served reg k terms c j) {x : Exchange σ} (hx : x ∈ j.exchanges) {d : Datum}
    {body : Bytes} {f : Frame} (hv : x.verdict = some (.returned (.reply d)))
    (hd : terms.codec.encode d = .ok body) (hf : Frame.ofHeader terms.codec x.header body = .ok f) :
    x.answer = some f ∧ x.Grounds reg terms (.returned (.reply d)) := by
  have hdec := hk.accounts.decided x hx
  simp only [Exchange.Decided, hv] at hdec
  refine ⟨hdec.1.trans ?_, hdec.2⟩
  simp [Verdict.reply, Outcome.toReply, hd, Except.mapError, Answer.frame?, hf]

theorem Served.mem_posted (hk : Served reg k terms c j) (hs : c.terms? = some terms)
    (hl : c.lost = false) (hr : c.AtRest) (hc : c.outbox.Carries [] (Outbox.bytesOf j.posted))
    {x : Exchange σ} (hx : x ∈ j.exchanges) {f : Frame} (hf : x.answer = some f) : f ∈ j.posted := by
  obtain ⟨i, hst⟩ := exists_serving hs
  exact (hr.written hst hl hk hc).2.mem_iff.mpr (List.mem_filterMap.mpr ⟨x, hx, hf⟩)

end Connection

namespace Server

/-- **The answer to a call that succeeds has the header of its request and the
encoded reply.** The name and the number are those of the request, and the error is
empty exactly if the request's own error is. -/
theorem reply_header (s : Server σ) (es : List Event) {c : Connection σ} {terms : Terms}
    (hc : (s.follow es).1.connections[s.connections.length]? = some c) (hs : c.terms? = some terms)
    {x : Exchange σ} (hx : x ∈ (s.follow es).2.exchanges) {d : Datum} {body : Bytes} {f : Frame}
    (hv : x.verdict = some (.returned (.reply d))) (hd : terms.codec.encode d = .ok body)
    (hf : Frame.ofHeader terms.codec x.header body = .ok f) :
    x.request.readHeader terms.codec = .ok x.header ∧
      (∃ i st, s.registry.assign terms.codec x.header.target x.request.body = .ok i ∧
        .reply d = (i.behaviour.act st).2) ∧
      x.answer = some f ∧ f.body = body ∧
      (c.lost = false → c.AtRest → f ∈ (s.follow es).2.posted) ∧
      ∃ h, f.readHeader terms.codec = .ok h ∧ h.target = x.header.target ∧ h.seq = x.header.seq ∧
        (h.error = "" ↔ x.header.error = "") := by
  obtain ⟨c', hc', hk, hcarry⟩ := kept_follow s es
  obtain rfl : c = c' := Option.some.inj (hc.symm.trans hc')
  have hserved := hk.served hs
  obtain ⟨ha, hg⟩ := hserved.reply hx hv hd hf
  have hbody : f.body = body := by
    obtain ⟨-, -, rfl⟩ := Frame.ofHeader_eq_ok_iff.mp hf
    rfl
  exact ⟨hserved.accounts.read x hx, hg, ha, hbody,
    fun hl hr => hserved.mem_posted hs hl hr hcarry hx ha,
    x.header, Frame.readHeader_ofHeader hf, rfl, rfl, Iff.rfl⟩

end Server

namespace Sample

/-- The run of one request gives the reply 2. -/
def lenReplied (h : Header) (answerSize : Nat) : Bool :=
  let p := lenServer.follow (lenRun h answerSize)
  p.1.connections[0]?.any (fun c => c.terms? == some ⟨.messagePack, .zero⟩) &&
    p.2.exchanges.any fun x => x.header == h && match x.verdict with
      | some (.returned (.reply (.int n))) => n == 2
      | _ => false

theorem exists_reply {h : Header} {n : Nat} (hr : lenReplied h n = true) :
    ∃ c x, (lenServer.follow (lenRun h n)).1.connections[0]? = some c ∧
      c.terms? = some ⟨.messagePack, .zero⟩ ∧
      x ∈ (lenServer.follow (lenRun h n)).2.exchanges ∧ x.header = h ∧
      x.verdict = some (.returned (.reply (.int 2))) := by
  simp only [lenReplied, Bool.and_eq_true, Option.any_eq_true, List.any_eq_true, beq_iff_eq] at hr
  obtain ⟨⟨c, hc, hs⟩, x, hx, hh, hv⟩ := hr
  refine ⟨c, x, hc, hs, hx, hh, ?_⟩
  split at hv
  · rename_i n hn
    rw [hn, eq_of_beq hv]
  · cases hv

/-- The frame that answers it. -/
def lenAnswer (h : Header) : Frame := ⟨h.bytes .messagePack, [2]⟩

end Sample

namespace Server

theorem reply_header_len :
    ∃ x ∈ (Sample.lenServer.follow (Sample.lenRun ⟨"Foo.Len", 1, ""⟩ 44)).2.exchanges,
      x.answer = some (Sample.lenAnswer ⟨"Foo.Len", 1, ""⟩) ∧
      ∃ h, (Sample.lenAnswer ⟨"Foo.Len", 1, ""⟩).readHeader .messagePack = .ok h ∧
        h.target = "Foo.Len" ∧ h.seq = 1 ∧ h.error = "" := by
  obtain ⟨c, x, hc, hs, hx, hh, hv⟩ :=
    Sample.exists_reply (h := ⟨"Foo.Len", 1, ""⟩) (n := 44) (by decide +kernel)
  have hroom : Header.HasRoom .messagePack ⟨"Foo.Len", 1, ""⟩ := by decide +kernel
  have hf : Frame.ofHeader .messagePack x.header [2] = .ok (Sample.lenAnswer ⟨"Foo.Len", 1, ""⟩) := by
    rw [hh]
    exact Frame.ofHeader_eq_ok_iff.mpr ⟨hroom, by decide, rfl⟩
  obtain ⟨-, -, ha, -, -, h, hread, ht, hseq, he⟩ :=
    reply_header Sample.lenServer (Sample.lenRun ⟨"Foo.Len", 1, ""⟩ 44) hc hs hx hv rfl hf
  rw [hh] at ht hseq he
  exact ⟨x, hx, ha, h, hread, ht, hseq, he.mpr rfl⟩

/-- Not every call that succeeds is answered as a success. -/
theorem not_all_replies_succeed :
    ¬ ∀ (s : Server Sample.Receiver) (es : List Event) (c : Connection Sample.Receiver) (terms : Terms),
      (s.follow es).1.connections[s.connections.length]? = some c → c.terms? = some terms →
      ∀ x ∈ (s.follow es).2.exchanges, ∀ d body f, x.verdict = some (.returned (.reply d)) →
      terms.codec.encode d = .ok body → Frame.ofHeader terms.codec x.header body = .ok f →
      ∃ a h, x.answer = some a ∧ a.readHeader terms.codec = .ok h ∧ h.error = "" := by
  intro hall
  let h : Header := ⟨"Foo.Len", 1, "late"⟩
  obtain ⟨c, x, hc, hs, hx, hh, hv⟩ :=
    Sample.exists_reply (h := h) (n := 48) (by decide +kernel)
  have hroom : h.HasRoom .messagePack := by decide +kernel
  have hf : Frame.ofHeader .messagePack x.header [2] = .ok (Sample.lenAnswer h) := by
    rw [hh]
    exact Frame.ofHeader_eq_ok_iff.mpr ⟨hroom, by decide, rfl⟩
  obtain ⟨a, h', ha, hread, he⟩ :=
    hall Sample.lenServer (Sample.lenRun h 48) c _ hc hs x hx _ _ _ hv rfl hf
  obtain ⟨c', hc', hk, -⟩ := kept_follow Sample.lenServer (Sample.lenRun h 48)
  obtain rfl : c = c' := Option.some.inj (hc.symm.trans hc')
  have hans := ((hk.served hs).reply hx hv rfl hf).1
  rw [hans] at ha
  rw [← Option.some.inj ha, Frame.readHeader_ofHeader hf, hh] at hread
  rw [← Except.ok.inj hread] at he
  exact absurd he (by decide)

end Server
end Callwire
