/-
# Every caller gets the answer to its own call

Requests are told apart by their numbers, so the answer that completes a call is the
answer to the one request that has its number. That request is the call: it has the
name of the method and the argument as the caller gave them.

Key definitions: `Exchange.Serves`.
Key theorems: `Ends.Sound.filter_seq`, `Ends.Sound.serves`, `Network.told_own_answer`.
-/
import Callwire.Proofs.Connection.Replies
import Callwire.Proofs.Network.Agreement

namespace Callwire

variable {σ : Type}

/-- The exchange is the call's own: no other request has its number, the request is
what the caller asked for, and the server answered it with this header and this body. -/
structure Exchange.Serves (codec : Codec) (l : Client.Log) (j : Journal σ) (x : Call) (e : Exchange σ)
    (h : Header) (body : Bytes) : Prop where
  only : j.exchanges.filter (·.header.seq == x.seq) = [e]
  header : e.header = ⟨x.target, x.seq, ""⟩
  read : e.request.readHeader codec = .ok e.header
  asked : ∃ args, l.begun.lookup x.id = some (x.target, args) ∧ codec.encode args = .ok e.request.body
  answer : ∃ a, e.answer = some a ∧ a.readHeader codec = .ok h ∧ h.seq = x.seq ∧ a.body = body

namespace Ends

variable {reg : Registry σ} {k : Server.Config} {o : Options} {v : Ends σ} {e e' : Exchange σ} {f : Frame}
  {x : Call}

/-- A number tells which exchange. -/
theorem Sound.eq_of_seq (h : v.Sound reg k o) (hf : v.client.Faithful v.log)
    (hlt : v.log.booked.length < 2 ^ 64) (he : e ∈ v.journal.exchanges) (he' : e' ∈ v.journal.exchanges)
    (hs : e.header.seq = e'.header.seq) : e = e' := by
  obtain ⟨b, hb, hbf, hbh, -⟩ := h.booking hf he
  obtain ⟨b', hb', hbf', hbh', -⟩ := h.booking hf he'
  have hbb : b = b' := hf.log.eq_of_seq hlt hb hb' (by rw [← hbh, ← hbh'] at hs; exact hs)
  have hreq : e.request = e'.request := Except.ok.inj (hbf.symm.trans (hbb ▸ hbf'))
  have hn : (v.journal.exchanges.reverse.map (·.request)).Nodup :=
    hf.log.once.sublist (h.requests_prefix hf).sublist
  exact List.inj_on_of_nodup_map hn (List.mem_reverse.mpr he) (List.mem_reverse.mpr he') hreq

/-- **There is one request of a number at most.** -/
theorem Sound.filter_seq (h : v.Sound reg k o) (hf : v.client.Faithful v.log)
    (hlt : v.log.booked.length < 2 ^ 64) (he : e ∈ v.journal.exchanges) :
    v.journal.exchanges.filter (·.header.seq == e.header.seq) = [e] := by
  have hn : v.journal.exchanges.Nodup := List.nodup_reverse.mp
    (hf.log.once.sublist (h.requests_prefix hf).sublist).of_map
  have hall : ∀ y, y ∈ v.journal.exchanges.filter (·.header.seq == e.header.seq) ↔ y = e := by
    intro y
    rw [List.mem_filter, beq_iff_eq]
    constructor
    · rintro ⟨hy, hs⟩
      exact h.eq_of_seq hf hlt hy he hs
    · rintro rfl
      exact ⟨he, rfl⟩
  have hperm : (v.journal.exchanges.filter (·.header.seq == e.header.seq)).Perm [e] :=
    (List.perm_ext_iff_of_nodup (hn.filter _) (List.nodup_singleton e)).mpr (by simpa using hall)
  exact List.perm_singleton.mp hperm

/-- **The outcome that a call got from the peer is the answer to its own request.** -/
theorem Sound.serves (h : v.Sound reg k o) (hf : v.client.Faithful v.log)
    (hlt : v.log.booked.length < 2 ^ 64) (hx : x ∈ v.client.calls) {out : Except Fault Bytes}
    (ho : x.outcome = some out) (ht : Client.isTold out = true) :
    ∃ (e : Exchange σ) (hd : Header) (body : Bytes),
      e.Serves o.codec v.log v.journal x hd body ∧ e ∈ v.journal.exchanges ∧ out = hd.outcome body := by
  have hopt : v.client.options.codec = o.codec := by rw [h.options]
  have hx' := hf.calls x hx
  rw [hopt] at hx'
  obtain ⟨hs, f, hg, hd, hr, hseq, rfl⟩ := hx'.told out ho ht
  obtain ⟨b, hb⟩ := hx'.numbered hs
  obtain ⟨e, he, ha, hes⟩ := h.answered hg hr
  obtain ⟨b', hb', hbf', hbh', hbody⟩ := h.booking hf he
  -- the request was made for the call: both have its number
  have hbb : b' = b := hf.log.eq_of_seq hlt hb' hb.mem (by
    rw [hb.seq, ← hseq, ← hes, ← hbh', Booking.header])
  subst hbb
  refine ⟨e, hd, f.body, ⟨?_, ?_, (h.served he).1.accounts.read e he, ?_, f, ha, hr, hseq, rfl⟩, he, rfl⟩
  · rw [← hseq, ← hes]
    exact h.filter_seq hf hlt he
  · rw [← hbh', Booking.header, hb.target, hb.seq]
  · rw [hbody]
    exact hb.asked

end Ends

namespace Network

/-- **Every caller gets the answer to its own call.** If a call ends with a reply or
with an error that the peer told, the connection got exactly one request of its
number, with its name and its encoded argument; the reply is read from the body of
the answer to that request, and the error is that of the answer. No two calls share
a number. -/
theorem told_own_answer (s : Server σ) (o : Options) (es : List Event)
    (hlt : (follow s o es).log.booked.length < 2 ^ 64) {w : Wire}
    (hw : (follow s o es).network.wires[0]? = some w) {id : Nat} {x : Call}
    (hx : w.client.call? id = some x) {out : Except Fault Bytes} (ho : x.outcome = some out)
    (ht : Client.isTold out = true) :
    ∃ (e : Exchange σ) (h : Header) (body : Bytes),
      e.Serves o.codec (follow s o es).log (follow s o es).journal x h body ∧
      (∀ shape d, Client.readReply o.codec shape out = .ok d →
        h.error = "" ∧ o.codec.decode shape body = .ok d) ∧
      (∀ text, out = .error (.remote text) → h.error = text) ∧
      e.Decided s.registry o.terms ∧ ∀ y ∈ w.client.calls, y.seq = x.seq → y = x := by
  obtain ⟨s', v, hshow, hsound, hreg⟩ := agree s o es
  rw [hshow.log] at hlt ⊢
  rw [hshow.journal]
  rw [hshow.wires] at hw
  cases hw
  obtain ⟨hf, -⟩ := hreg hlt
  obtain ⟨hm, -⟩ := Client.mem_of_call? hx
  obtain ⟨e, h, body, hserves, he, rfl⟩ := hsound.serves hf hlt hm ho ht
  refine ⟨e, h, body, hserves, fun shape d hr => ?_, fun text he => ?_,
    (hsound.served he).1.accounts.decided e he, fun y hy hs => ?_⟩
  · rw [Header.outcome] at hr
    split at hr
    · cases hr
    · rename_i hne
      cases hb : o.codec.decode shape body with
      | error why => simp [Client.readReply, hb, Except.mapError] at hr
      | ok d' =>
        simp only [Client.readReply, hb, Except.mapError, Except.ok.injEq] at hr
        exact ⟨by simpa [Header.isError] using hne, by rw [hr]⟩
  · rw [Header.outcome] at he
    split at he
    · cases he
      rfl
    · cases he
  · obtain ⟨hne, -⟩ := (hf.calls x hm).told _ ho ht
    exact (hf.eq_of_seq hlt hm hy hne hs).symm

end Network

/-! ### One call from beginning to end -/

namespace Sample

/-- A call for the length of two letters: it is sent in two parts, the server takes
the request and answers it, and the client takes the answer. -/
def lenCall : List Network.Event :=
  [.client 0 (.begin 7 "Foo.Len" (.text "ab")), .client 0 (.register 7), .client 0 (.post 7),
    .client 0 (.write .take), .client 0 (.write (.write 39)), .client 0 (.write (.write 7)),
    .up 0 20, .up 0 123, .connection 0 0 .read, .connection 0 0 .read, .connection 0 0 .start,
    .connection 0 0 (.finish 0), .connection 0 0 (.post 0), .connection 0 0 (.write .take),
    .connection 0 0 (.write (.write 44)), .down 0 44, .client 0 .read]

/-- The call of this name ended with these bytes. -/
def endsWith (n : Network Receiver) (id : Nat) (body : Bytes) : Bool :=
  n.wires[0]?.any fun w => (w.client.call? id).any fun x => match x.outcome with
    | some (.ok bs) => bs == body
    | _ => false

theorem exists_call (n : Network Receiver) (id : Nat) (body : Bytes) (h : endsWith n id body = true) :
    ∃ w x, n.wires[0]? = some w ∧ w.client.call? id = some x ∧ x.outcome = some (.ok body) := by
  simp only [endsWith, Option.any_eq_true] at h
  obtain ⟨w, hw, x, hx, ho⟩ := h
  refine ⟨w, x, hw, hx, ?_⟩
  split at ho
  · rename_i bs hbs
    rw [hbs, eq_of_beq ho]
  · cases ho

end Sample

namespace Network

theorem told_own_answer_len :
    let a := follow Sample.lenServer .default Sample.lenCall
    ∃ w x, a.network.wires[0]? = some w ∧ w.client.call? 7 = some x ∧ x.outcome = some (.ok [2]) ∧
      ∃ e, a.journal.exchanges.filter (·.header.seq == x.seq) = [e] ∧ e.header = ⟨x.target, x.seq, ""⟩ ∧
        ∃ f, e.answer = some f ∧ Codec.decode .messagePack (.scalar (.int .usize)) f.body = .ok (.int 2) := by
  intro a
  obtain ⟨w, x, hw, hx, ho⟩ :=
    Sample.exists_call a.network 7 [2] (by decide +kernel)
  have hlt : a.log.booked.length < 2 ^ 64 := by decide +kernel
  have hread : Client.readReply .messagePack (.scalar (.int .usize)) (.ok [2]) = .ok (.int 2) :=
    rfl
  obtain ⟨e, h, body, hserves, hreply, -, -, -⟩ :=
    told_own_answer Sample.lenServer .default Sample.lenCall hlt hw hx ho rfl
  obtain ⟨f, hf, -, -, hbody⟩ := hserves.answer
  exact ⟨w, x, hw, hx, ho, e, hserves.only, hserves.header, f, hf, hbody ▸ (hreply _ _ hread).2⟩

end Network
end Callwire
