/-
# A call that cannot be sent

A call whose arguments cannot be encoded fails when it is begun. That a header or a body is
too large is found out later: the call has its turn then, has a number, and stands in the
table of pending calls, until it is taken out again and fails. Much can happen in between.
If the client is shut down, the call has left the table and failed with all others; and if
a frame with its number comes, although nothing was sent, the call has left the table with
what that frame says. In no case is anything of it handed over, and from then on the client
does what it would do if the call had never been made. All that is left is the number,
which nobody has.

Key definitions: `Frame.Oversized`, `Client.Held`, `Client.NoTrace`, `Client.EndsAlone`.
Key theorems: `Frame.exists_oversized`, `Client.Held.step`, `Client.Held.foldl`,
`Client.Held.withdraw`, `Client.Ended.alone`, `Client.Held.ends`,
`Client.unsendable_leaves_no_trace`.
-/
import Callwire.Proofs.Client.Beside
import Callwire.Proofs.Client.Ownership
import Callwire.Proofs.Client.Queueing
import Callwire.Proofs.Client.Shutdown

namespace Callwire

/-- Lengths that are refused are too large, and the fault says which one. -/
theorem Lengths.ofParts_eq_error {header body limit : Nat} {why : FramingFault} (hpos : 0 < header)
    (hlimit : limit < 2 ^ 32) (h : ofParts header body limit = .error why) :
    (maxHeaderSize < header ∧ why = .headerTooLarge header) ∨
      (limit < body ∧ why = .bodyTooLarge body limit) := by
  have hm : maxHeaderSize < 2 ^ 32 := by decide
  unfold ofParts at h
  split at h
  · exact .inl ⟨by omega, (Except.error.inj h).symm⟩
  · split at h
    · exact .inr ⟨by omega, (Except.error.inj h).symm⟩
    · dsimp only at h
      unfold check at h
      rw [if_neg (by exact Nat.pos_iff_ne_zero.mp hpos)] at h
      by_cases hh : maxHeaderSize < header
      · rw [if_pos (by exact hh)] at h
        exact .inl ⟨hh, (Except.error.inj h).symm⟩
      · rw [if_neg (by exact hh)] at h
        by_cases hb : limit < body
        · rw [if_pos (by exact hb)] at h
          exact .inr ⟨hb, (Except.error.inj h).symm⟩
        · rw [if_neg (by exact hb)] at h
          cases h

/-- A part of a frame is too large, and the fault says which one. -/
def Frame.Oversized (codec : Codec) (h : Header) (body : Bytes) (why : Fault) : Prop :=
  (maxHeaderSize < (h.bytes codec).length ∧
      why = .framing (.headerTooLarge (h.bytes codec).length)) ∨
    (maxBodySize < body.length ∧ why = .framing (.bodyTooLarge body.length maxBodySize))

/-- **A frame that is too large is not built**, and the fault says so. -/
theorem Frame.exists_oversized {codec : Codec} {h : Header} {body : Bytes}
    (hlarge : ¬ h.HasRoom codec ∨ maxBodySize < body.length) :
    ∃ why, ofHeader codec h body = .error why ∧ Oversized codec h body why := by
  have hpos : 0 < (h.bytes codec).length := List.length_pos_iff.mpr (h.bytes_ne_nil codec)
  cases hl : Lengths.ofParts (h.bytes codec).length body.length maxBodySize with
  | ok l =>
    have hf : ofHeader codec h body = .ok ⟨h.bytes codec, body⟩ := by
      rw [ofHeader_eq, build, hl]
      rfl
    obtain ⟨hroom, hbody, -⟩ := ofHeader_eq_ok_iff.mp hf
    rcases hlarge with hlarge | hlarge
    · exact absurd hroom hlarge
    · omega
  | error why =>
    refine ⟨.framing why, ?_, ?_⟩
    · rw [ofHeader_eq, build, hl]
      rfl
    · exact (Lengths.ofParts_eq_error hpos (by decide) hl).imp (.imp_right (congrArg _))
        (.imp_right (congrArg _))

namespace Client

variable {c d d' : Client} {e : Event} {id : Nat} {seq : UInt64} {x : Call} {why : Fault}
  {out : Except Fault Bytes} {hs : History}

/-! ### Getting a number -/

/-- The client if nobody gets the next number. -/
def skip (c : Client) : Client := { c with nextSeq := c.nextSeq + 1 }

/-- Without the call only its number is missing. -/
theorem without_enter_own {target : String} {body : Bytes}
    (hc : ¬ (c.outbox.released ∨ c.closing ∨ c.shutdown)) :
    (c.enter id target body).without id = (c.without id).skip := by
  rcases enter_cases c id target body with ⟨hc', -⟩ | ⟨-, he⟩
  · exact absurd hc' hc
  · have hcalls : ((c.update id fun x => { x with
        seq := c.nextSeq
        phase := .sending (Frame.ofHeader c.options.codec ⟨target, c.nextSeq, ""⟩ body) }).without id).calls =
        (c.without id).calls := by
      rw [without_update fun _ => by rfl, update_without]
    have hpending : (c.pending ++ [(c.nextSeq, id)]).filter (·.2 != id) = c.pending.filter (·.2 != id) := by
      simp [List.filter_append]
    rw [he]
    exact congrArg₂ (fun calls pending =>
      { c with nextSeq := c.nextSeq + 1, calls := calls, pending := pending }) hcalls hpending

/-! ### While it has its turn -/

theorem History.Answered.told {codec : Codec} {p : UInt64 × Nat} (h : hs.Answered codec p out) :
    out ∈ hs.told p.1 ∧ isTold out = true := by
  obtain ⟨later, f, hd, past, rfl, -, -, rfl, -⟩ := h
  refine ⟨History.mem_told_iff.mpr ⟨p.2, ?_⟩, isTold_outcome hd f.body⟩
  exact List.mem_append_right _ List.mem_cons_self

/-- What an event that has to do with no turn makes of a call: it stays, or it gets the
peer's word as its outcome, or it fails with all others. -/
theorem Step.call_of_no_turn (hstep : Step c e d) (hx : c.call? id = some x)
    (ht : e.isTurn = false) (he : e ≠ .abandon id) :
    ∃ y, d.call? id = some y ∧ y.seq = x.seq ∧ y.phase = x.phase ∧
      (y.outcome = x.outcome ∨ (∃ out, y.outcome = some out ∧ isTold out = true) ∨
        (y.outcome = some (.error .shutdown) ∧ d.shutdown = true)) := by
  have hstay : d.call? id = c.call? id → ∃ y, d.call? id = some y ∧ y.seq = x.seq ∧ y.phase = x.phase ∧
      (y.outcome = x.outcome ∨ (∃ out, y.outcome = some out ∧ isTold out = true) ∨
        (y.outcome = some (.error .shutdown) ∧ d.shutdown = true)) :=
    fun h => ⟨x, h.trans hx, rfl, rfl, .inl rfl⟩
  have hterm : d.calls = c.calls.map c.terminated → d.shutdown = true →
      ∃ y, d.call? id = some y ∧ y.seq = x.seq ∧ y.phase = x.phase ∧
        (y.outcome = x.outcome ∨ (∃ out, y.outcome = some out ∧ isTold out = true) ∨
          (y.outcome = some (.error .shutdown) ∧ d.shutdown = true)) := by
    intro hd hshut
    have hy : d.call? id = some (c.terminated x) := by
      rw [call?_map id_terminated hd, hx, Option.map_some]
    refine ⟨c.terminated x, hy, ?_, phase_terminated x, ?_⟩
    · rw [terminated]
      split <;> rfl
    · rw [terminated]
      split
      · exact .inr (.inr ⟨rfl, hshut⟩)
      · exact .inl rfl
  cases hstep with
  | @begin i target args hn =>
    have hi : i ≠ id := by
      rintro rfl
      cases hn.symm.trans hx
    exact hstay (call?_begin_ne hi target args)
  | @abandon i y hy =>
    have hi : y.id ≠ id := by
      rintro rfl
      exact he (by rw [(mem_of_call? hy).2])
    exact hstay (call?_abandon_ne hi)
  | close | receive _ | hangUp | lose | write _ => exact hstay rfl
  | register _ _ _ | post _ _ _ | unsent _ _ _ | release _ _ _ => cases ht
  | @deliver f b h _ _ _ =>
    by_cases hl : c.pending.lookup h.seq = some id
    · have hd : { c with buffer := b }.deliver h f.body =
          ({ c with buffer := b }.forget h.seq).complete id (h.outcome f.body) := by
        rw [Client.deliver, show Client.pending { c with buffer := b } = c.pending from rfl, hl]
        rfl
      rw [hd]
      exact ⟨_, call?_update (g := fun y => { y with outcome := some (h.outcome f.body) }) (fun _ => rfl) rfl hx,
        rfl, rfl, .inr (.inl ⟨_, rfl, isTold_outcome h f.body⟩)⟩
    · refine hstay (call?_deliver_ne (c := { c with buffer := b }) (fun i hi => ?_) f.body)
      rintro rfl
      exact hl hi
  | endReading _ _ | stop _ _ | watch _ => exact hterm rfl rfl

/-- A call has its turn and a number, but no frame: no other call is being sent. It is
pending, or an answer of its number came, or it failed with all others. -/
structure Held (id : Nat) (seq : UInt64) (why : Fault) (d : Client) (hs : History) : Prop where
  settled : ∃ l, l.booked.length < 2 ^ 64 ∧ Faithful d l ∧ Settled d l hs
  ordered : Ordered d
  call : ∃ x, d.call? id = some x ∧ x.seq = seq ∧ x.phase = .sending (.error why) ∧
    ∀ out, x.outcome = some out → isTold out = false → out = .error .shutdown ∧ d.shutdown = true
  alone : ∀ y ∈ d.calls, ∀ frame, y.phase = .sending frame → y.id = id

theorem Held.step_eq_none (h : Held id seq why d hs) (hb : e.isBeside id = true) (ht : e.isTurn = true) :
    d.step e = none := by
  obtain ⟨x, hx, -, hp, -⟩ := h.call
  have hsending : d.isSending ≠ false := fun hn => not_sending hn (mem_of_call? hx).1 hp
  rw [Option.eq_none_iff_forall_ne_some]
  intro d' hs'
  cases Step.of_step hs' with
  | register _ _ hn => exact hsending hn
  | release _ _ hn => exact hsending hn
  | @post i y _ _ hy hyp _ | @unsent i y _ _ hy hyp _ =>
    obtain ⟨hm, hid⟩ := mem_of_call? hy
    have hi : i ≠ id := by simpa [Event.isBeside] using hb
    exact hi (hid.symm.trans (h.alone y hm _ hyp))
  | _ => cases ht

theorem Event.ne_abandon (hb : e.isBeside id = true) : e ≠ .abandon id := by
  rintro rfl
  simp [Event.isBeside] at hb

/-- **A call that has its turn keeps it, and its number**, whatever happens beside it. -/
theorem Held.step (hstep : Step d e d') (h : Held id seq why d hs) (hb : e.isBeside id = true)
    (ht : e.isTurn = false) : Held id seq why d' (d.record e d' hs) := by
  obtain ⟨l, hlt, hf, hset⟩ := h.settled
  obtain ⟨x, hx, hseq, hp, hovertaken⟩ := h.call
  have hnone : d.entering e = [] := entering_eq_nil fun i hi => by
    subst hi
    cases ht
  have hlt' : (l.note d e).booked.length < 2 ^ 64 := by
    rw [length_booked, hnone]
    simpa using hlt
  refine ⟨⟨_, hlt', hf.step hstep hlt', hset.step hstep hf h.ordered hlt'⟩, h.ordered.step hstep, ?_, ?_⟩
  · obtain ⟨y, hy, hyseq, hyp, hout⟩ := hstep.call_of_no_turn hx ht (Event.ne_abandon hb)
    refine ⟨y, hy, hyseq.trans hseq, hyp.trans hp, fun out ho htold => ?_⟩
    rcases hout with hsame | ⟨out', ho', htold'⟩ | ⟨ho', hshut⟩
    · obtain ⟨hsd, hshut⟩ := hovertaken out (hsame ▸ ho) htold
      exact ⟨hsd, shutdown_step hstep hshut⟩
    · cases ho.symm.trans ho'
      cases htold.symm.trans htold'
    · cases ho.symm.trans ho'
      exact ⟨rfl, hshut⟩
  · intro y hy frame hyp
    rcases sending_origin hstep hf h.ordered hlt hy hyp with ⟨z, hz, hzid, hzp⟩ | ⟨he, -⟩
    · exact hzid ▸ h.alone z hz frame hzp
    · rw [hnone] at he
      cases he

theorem Held.own {p : UInt64 × Nat} (h : Held id seq why d hs) (hp : p ∈ d.pending) : p.1 = seq ↔ p.2 = id := by
  obtain ⟨l, hlt, hf, -⟩ := h.settled
  obtain ⟨x, hx, hseq, -⟩ := h.call
  exact hseq ▸ hf.id_eq_iff h.ordered hlt hx hp

/-- **What happens while a call has its turn does the same without it.** What has to do with
turns does not happen. -/
theorem Held.foldl {es : List Event} (h : Held id seq why d hs) (hes : ∀ e ∈ es, e.isBeside id = true) :
    (es.foldl apply d).without id = (es.filter (!·.isTurn)).foldl apply (d.without id) ∧
      Held id seq why (es.foldl apply d) (historyFrom d hs es) := by
  induction es generalizing d hs with
  | nil => exact ⟨rfl, h⟩
  | cons e es ih =>
    rw [List.forall_mem_cons] at hes
    obtain ⟨hb, hes⟩ := hes
    rw [List.foldl_cons, historyFrom, apply]
    cases ht : e.isTurn with
    | true =>
      rw [h.step_eq_none hb ht, List.filter_cons_of_neg (by simp [ht])]
      exact ih h hes
    | false =>
      have hspares : d.Spares id e := by
        refine fun p hp hid => ⟨fun i hi => ?_, fun q hq hqp => ?_⟩
        · subst hi
          cases ht
        · exact (h.own hq).mp (hqp.trans ((h.own hp).mpr hid))
      have hone : (d.apply e).without id = (d.without id).apply e :=
        apply_without hb (fun ht' => Bool.noConfusion (ht.symm.trans ht')) hspares
      rw [List.filter_cons_of_pos (by simp [ht]), List.foldl_cons, ← hone, apply]
      cases hs' : d.step e with
      | none => exact ih h hes
      | some d' => exact ih (h.step (.of_step hs') hb ht) hes

/-! ### Afterwards -/

/-- A call has its outcome and is not pending. -/
structure Ended (id : Nat) (out : Except Fault Bytes) (d : Client) : Prop where
  ordered : Ordered d
  vacant : d.Vacant id
  call : ∃ x, d.call? id = some x ∧ x.phase = .sent ∧ x.outcome = some out

theorem Held.step_post (h : Held id seq why d hs) : d.step (.post id) = some (d.withdraw id seq why) := by
  obtain ⟨⟨i, target, s, phase, o⟩, hx, rfl, hp, -⟩ := h.call
  obtain rfl : phase = .sending (.error why) := hp
  simp only [Client.step, hx]

/-- **A call that gives its number up fails**, unless it has left the table already. -/
theorem Held.withdraw (h : Held id seq why d hs) :
    ∃ out, Ended id out (d.withdraw id seq why) ∧
      ((out = .error (if d.shutdown then .shutdown else why) ∧
          ∀ told, ¬ hs.Answered d.options.codec (seq, id) told) ∨
        hs.Answered d.options.codec (seq, id) out) := by
  obtain ⟨l, hlt, hf, hset⟩ := h.settled
  obtain ⟨x, hx, hseq, hp, hovertaken⟩ := h.call
  obtain ⟨hm, hid⟩ := mem_of_call? hx
  have hne : x.seq ≠ 0 := by
    obtain ⟨-, b, hb, -⟩ := (hf.calls x hm).sending _ hp
    exact hb.seq ▸ hf.log.ne_zero hlt hb.mem
  have hord : Ordered (d.withdraw id seq why) := h.ordered.step (.of_step h.step_post)
  have hsent : (d.update id fun y => { y with phase := .sent }).call? id = some { x with phase := .sent } :=
    call?_update (g := fun y => { y with phase := .sent }) (fun _ => rfl) rfl hx
  have htold : hs.told seq = x.outcome.toList := hseq ▸ hset.told_eq hf h.ordered hlt hm hne
  cases hout : x.outcome with
  | none =>
    -- it is pending, and so the client is not shut down
    have hmem : (seq, id) ∈ d.pending := hseq ▸ hid ▸ hf.awaited x hm hne hout
    have hlive : d.shutdown = false := by
      rw [← Bool.not_eq_true]
      intro hshut
      rw [h.ordered.shut hshut] at hmem
      cases hmem
    have hlookup : (d.pending.lookup seq).isSome = true := by
      rw [Option.isSome_iff_ne_none]
      exact fun hn => absurd (List.lookup_eq_none_iff.mp hn _ hmem) (by simp)
    rw [Client.withdraw, if_pos hlookup] at hord ⊢
    refine ⟨.error why, ⟨hord, fun p hp hpid => ?_, { x with phase := .sent, outcome := some (.error why) }, ?_,
      rfl, rfl⟩, .inl ⟨by rw [hlive]; rfl, fun told ha => ?_⟩⟩
    · obtain ⟨hp, hps⟩ := List.mem_filter.mp hp
      exact bne_iff_ne.mp hps ((h.own hp).mpr hpid)
    · exact call?_update (g := fun y => { y with outcome := some (.error why) }) (fun _ => rfl) rfl hsent
    · have hmem := ha.told.1
      rw [htold, hout] at hmem
      cases hmem
  | some out =>
    have hvacant : d.Vacant id := by
      rintro p hp rfl
      cases hout.symm.trans (h.ordered.owner hp hx).2.1
    have hlookup : ¬ (d.pending.lookup seq).isSome = true := by
      rw [Option.not_isSome_iff_eq_none, List.lookup_eq_none_iff]
      intro p hp
      simpa using fun hps : seq = p.1 => hvacant p hp ((h.own hp).mp hps.symm)
    rw [Client.withdraw, if_neg hlookup] at hord ⊢
    refine ⟨out, ⟨hord, hvacant, { x with phase := .sent }, hsent, rfl, hout⟩, ?_⟩
    rw [hout] at htold
    cases hpeer : isTold out with
    | false =>
      obtain ⟨rfl, hshut⟩ := hovertaken out hout hpeer
      refine .inl ⟨by rw [hshut]; rfl, fun told ha => ?_⟩
      obtain ⟨hmem, hpeer'⟩ := ha.told
      rw [htold, Option.toList_some, List.mem_singleton] at hmem
      subst hmem
      cases hpeer.symm.trans hpeer'
    | true =>
      have hmem : out ∈ hs.told seq := by
        rw [htold]
        exact List.mem_singleton_self out
      obtain ⟨i, hleft⟩ := History.mem_told_iff.mp hmem
      have hentered : (seq, i) ∈ hs.entered := hset.accounts.subset (List.mem_append_left _ (History.mem_left hleft))
      have hown : (seq, id) ∈ hs.entered := hseq ▸ hid ▸ hset.entered_call hf hm hne
      obtain rfl : i = id := congrArg Prod.snd
        (List.inj_on_of_nodup_map (hset.nodup_entered hf hlt) hentered hown rfl)
      exact .inr (hset.answered seq i out hleft hpeer)

/-- Nothing of a call is in the client `d`, which otherwise is the client `c`, but the call
itself: the table, the other calls, whether the client takes calls, and what is in the outbox
and on the stream. -/
structure NoTrace (id : Nat) (d c : Client) : Prop where
  pending : d.pending = c.pending
  others : ∀ i, i ≠ id → d.call? i = c.call? i
  available : d.isAvailable = c.isAvailable
  outbox : d.outbox = c.outbox
  rest : d.without id = c

/-- The call has its outcome for good, and whatever happens from now on does what it does in
the client `c`, where the call was never made. -/
def EndsAlone (id : Nat) (out : Except Fault Bytes) (d c : Client) : Prop :=
  ∀ after : List Event, (∀ e ∈ after, e.isBeside id = true) →
    (after.foldl apply d).outcome? id = some out ∧ NoTrace id (after.foldl apply d) (after.foldl apply c)

theorem Vacant.noTrace (h : d.Vacant id) (hc : d.without id = c) : NoTrace id d c := by
  subst hc
  exact ⟨h.pending.symm, fun i hi => (call?_without hi).symm, rfl, rfl, rfl⟩

/-- **A call that has its outcome and is not pending leaves no trace.** -/
theorem Ended.alone (h : Ended id out d) (hc : d.without id = c) : EndsAlone id out d c := by
  intro after hafter
  obtain ⟨x, hx, hp, ho⟩ := h.call
  have hsending : ∀ y, d.call? id = some y → ∀ f, y.phase ≠ .sending f := by
    intro y hy f hf
    cases hx.symm.trans hy
    cases hp.symm.trans hf
  obtain ⟨hwithout, hcall, hvacant⟩ := h.vacant.foldl h.ordered hsending hafter
  refine ⟨?_, hvacant.noTrace (hc ▸ hwithout)⟩
  rw [outcome?, hcall, hx, Option.bind_some, ho]

/-- **A call that has its turn can give its number up at any time**, and leaves no trace. -/
theorem Held.ends (h : Held id seq why d hs) (hc : d.without id = c) :
    (d.step (.post id)).isSome = true ∧
      ∃ out, EndsAlone id out (d.apply (.post id)) c ∧
        ((out = .error (if c.shutdown then .shutdown else why) ∧
            ∀ told, ¬ hs.Answered d.options.codec (seq, id) told) ∨
          hs.Answered d.options.codec (seq, id) out) := by
  subst hc
  have hpost := h.step_post
  obtain ⟨out, hended, hout⟩ := h.withdraw
  refine ⟨by rw [hpost]; rfl, out, ?_, hout⟩
  rw [apply, hpost]
  exact hended.alone (without_withdraw_own (fun p hp => (h.own hp).mp) why)

/-! ### Every run -/

theorem historyFrom_append (c : Client) (hs : History) (es es' : List Event) :
    historyFrom c hs (es ++ es') = historyFrom (es.foldl apply c) (historyFrom c hs es) es' := by
  induction es generalizing c hs with
  | nil => rfl
  | cons e es ih =>
    rw [List.cons_append, historyFrom, historyFrom, List.foldl_cons, apply]
    cases c.step e <;> exact ih _ _

theorem history_append (o : Options) (es es' : List Event) :
    history o (es ++ es') = historyFrom (run o es) (history o es) es' :=
  historyFrom_append _ _ _ _

theorem Ordered.apply_begin (ho : Ordered c) (hn : c.call? id = none) (target : String) (args : Datum) :
    (c.apply (.begin id target args)).without id = c ∧
      (c.apply (.begin id target args)).call? id = some (opening c.options.codec id target args) ∧
      (c.apply (.begin id target args)).Vacant id := by
  have hvacant : c.Vacant id := fun p hp => ho.name_ne hn hp
  have hbegin : c.apply (.begin id target args) =
      { c with calls := c.calls ++ [opening c.options.codec id target args] } := by
    rw [apply, Client.step, hn]
    rfl
  have hwithout : Client.without { c with calls := c.calls ++ [opening c.options.codec id target args] } id =
      c.without id := by
    simp [without, List.filter_append, id_opening]
  rw [hbegin]
  exact ⟨hwithout.trans (hvacant.without_eq_self hn), call?_begin hn _ _ _, hvacant⟩

variable {o : Options} {es before : List Event} {target : String} {args : Datum} {body : Bytes}

/-- **A call that was begun and had no turn yet leaves no trace**, whatever happened since. -/
theorem begun_alone (hnew : (run o es).call? id = none) (hbefore : ∀ e ∈ before, e.isBeside id = true) :
    (run o (es ++ .begin id target args :: before)).without id = run o (es ++ before) ∧
      (run o (es ++ .begin id target args :: before)).call? id = some (opening o.codec id target args) ∧
      (run o (es ++ .begin id target args :: before)).Vacant id := by
  obtain ⟨hwithout, hcall, hvacant⟩ := (ordered_run o es).apply_begin hnew target args
  have hord : Ordered ((run o es).apply (.begin id target args)) := (ordered_run o es).foldl [_]
  have hsending : ∀ x, ((run o es).apply (.begin id target args)).call? id = some x →
      ∀ f, x.phase ≠ .sending f := by
    intro x hx f hf
    cases hcall.symm.trans hx
    rw [opening] at hf
    split at hf <;> cases hf
  obtain ⟨hsame, hstays, hfree⟩ := hvacant.foldl hord hsending hbefore
  rw [run_append, List.foldl_cons, run_append, ← codec_run o es]
  rw [hwithout] at hsame
  exact ⟨hsame, hstays.trans hcall, hfree⟩

/-- A call whose turn comes when the client takes no more calls fails, and leaves no entry. -/
theorem Ordered.turned_away (ho : Ordered d) (hv : d.Vacant id) (hx : d.call? id = some x)
    (hp : x.phase = .waiting body) (hc : d.outbox.released ∨ d.closing ∨ d.shutdown) :
    Ended id (.error .shutdown) (d.enter id x.target body) ∧
      (d.enter id x.target body).without id = d.without id := by
  have hord : Ordered (d.enter id x.target body) := ho.register hx hp
  rcases enter_cases d id x.target body with ⟨-, he⟩ | ⟨hn, -⟩
  · rw [he] at hord ⊢
    refine ⟨⟨hord, hv, turnedAway x, call?_update (g := turnedAway) (fun _ => rfl) rfl hx, rfl, rfl⟩, ?_⟩
    exact (without_update fun _ => by rfl).trans (update_without _)
  · exact absurd hc hn

/-- A call that gets a number without a frame has its turn. -/
theorem held_register (hx : (run o es).call? id = some x) (hp : x.phase = .waiting body)
    (hn : (run o es).isSending = false)
    (hc : ¬ ((run o es).outbox.released ∨ (run o es).closing ∨ (run o es).shutdown))
    (hframe : Frame.ofHeader (run o es).options.codec ⟨x.target, (run o es).nextSeq, ""⟩ body = .error why)
    (hlt : (history o es).entered.length + 1 < 2 ^ 64) :
    Held id (run o es).nextSeq why (run o (es ++ [.register id])) (history o (es ++ [.register id])) := by
  obtain ⟨hm, hid⟩ := mem_of_call? hx
  have hregister : (run o es).step (.register id) = some ((run o es).enter id x.target body) := by
    obtain ⟨i, target, s, phase, out⟩ := x
    obtain rfl : phase = .waiting body := hp
    simp only [step, hx, hn]
    rfl
  have hrun : run o (es ++ [.register id]) = (run o es).enter id x.target body := by
    rw [run_append, List.foldl_cons, List.foldl_nil, apply, hregister]
    rfl
  have hentered : (history o (es ++ [.register id])).entered.length < 2 ^ 64 := by
    rw [history_append, historyFrom, hregister]
    simp only [historyFrom, entered_record, entering_register hx hp, if_neg hc, List.singleton_append,
      List.length_cons]
    exact hlt
  obtain ⟨l, hlt', hf, hset⟩ := settled_run o _ hentered
  refine ⟨⟨l, hlt', hf, hset⟩, ordered_run o _, ?_, ?_⟩
  all_goals
    rcases enter_cases (run o es) id x.target body with ⟨hc', -⟩ | ⟨-, he⟩
    · exact absurd hc' hc
    rw [hrun, he, hframe]
  · refine ⟨_, call?_update (g := fun y => { y with seq := (run o es).nextSeq, phase := .sending (.error why) })
      (fun _ => rfl) rfl hx, rfl, rfl, fun out ho => ?_⟩
    cases ((ordered_run o es).waiting x hm body hp).2.symm.trans ho
  · intro y hy frame hyp
    rcases (mem_update (ordered_run o es).ids hx).mp hy with rfl | ⟨hy, -⟩
    · exact hid
    · exact absurd hyp (not_sending hn hy)

/-- **A call that cannot be sent leaves no trace.** A call is begun with any arguments, in a
client to which anything happened; meanwhile anything may happen but that the call is given
up. Compare this client with the one where the call was never made.

* If its arguments cannot be encoded, the call has failed and leaves no trace.
* If they can be, it has no outcome and leaves no trace until it has its turn, and that may be
  as soon as no other call has its turn.
* If the client then takes no more calls, the call fails as in a client that is shut down.
* If the header or the body is too large, the call gets the next number, and can give it up at
  any time. Then it has failed, with a fault that says what is too large, or with all others
  if the client was shut down; or else a frame with its number was taken before, and the
  outcome is what the first such frame says. The client is the one where the call was never
  made and nobody got this number, and where nothing happened that has to do with turns
  while the call had its turn.

Whatever the outcome is it is for good, and whatever happens later leaves the table, the
other calls, whether the client takes calls, the outbox and the stream as they are where the
call was never made. -/
theorem unsendable_leaves_no_trace (o : Options) (es before : List Event) (id : Nat) (target : String)
    (args : Datum) (hnew : (run o es).call? id = none) (hbefore : ∀ e ∈ before, e.isBeside id = true)
    (hlt : (history o (es ++ .begin id target args :: before)).entered.length + 1 < 2 ^ 64) :
    let c := run o (es ++ before)
    let past := es ++ .begin id target args :: before
    let d := run o past
    (∀ why, o.codec.encode args = .error why → EndsAlone id (.error (.codec why)) d c) ∧
    (∀ body, o.codec.encode args = .ok body →
      d.outcome? id = none ∧ NoTrace id d c ∧
      ((d.step (.register id)).isSome = true ↔ c.isSending = false) ∧
      (c.isSending = false → c.outbox.released ∨ c.closing ∨ c.shutdown →
        EndsAlone id (.error .shutdown) (d.apply (.register id)) c) ∧
      (c.isSending = false → ¬ (c.outbox.released ∨ c.closing ∨ c.shutdown) →
        ¬ Header.HasRoom o.codec ⟨target, c.nextSeq, ""⟩ ∨ maxBodySize < body.length →
        ∃ why, Frame.Oversized o.codec ⟨target, c.nextSeq, ""⟩ body why ∧
          ∀ meanwhile : List Event, (∀ e ∈ meanwhile, e.isBeside id = true) →
            let c' := (meanwhile.filter (!·.isTurn)).foldl apply c.skip
            let held := past ++ [.register id] ++ meanwhile
            ((run o held).step (.post id)).isSome = true ∧
            ∃ out, EndsAlone id out ((run o held).apply (.post id)) c' ∧
              ((out = .error (if c'.shutdown then .shutdown else why) ∧
                  ∀ told, ¬ (history o held).Answered o.codec (c.nextSeq, id) told) ∨
                (history o held).Answered o.codec (c.nextSeq, id) out))) := by
  intro c past d
  obtain ⟨hwithout, hcall, hvacant⟩ : d.without id = c ∧ d.call? id = some (opening o.codec id target args) ∧
    d.Vacant id := begun_alone hnew hbefore
  have ho : Ordered d := ordered_run o _
  refine ⟨fun why he => ?_, fun body he => ?_⟩
  · have hended : Ended id (.error (.codec why)) d := by
      rw [opening, he] at hcall
      exact ⟨ho, hvacant, _, hcall, rfl, rfl⟩
    exact hended.alone hwithout
  · rw [opening, he] at hcall
    have hsending : c.isSending = d.isSending := by
      rw [← hwithout]
      refine isSending_without (ho.unsent fun x hx f hf => ?_)
      cases hcall.symm.trans hx
      cases hf
    have hstep : d.step (.register id) = if d.isSending then none else some (d.enter id target body) := by
      rw [step, hcall]
    have hregister : c.isSending = false → d.apply (.register id) = d.enter id target body := by
      intro hs
      rw [apply, hstep, ← hsending, hs]
      rfl
    have hnext : c.nextSeq = d.nextSeq := by rw [← hwithout]; rfl
    have hclosed : (c.outbox.released ∨ c.closing ∨ c.shutdown) ↔
        (d.outbox.released ∨ d.closing ∨ d.shutdown) := by
      rw [← hwithout]
      rfl
    refine ⟨?_, hvacant.noTrace hwithout, ?_, fun hs hc => ?_, fun hs hc hlarge => ?_⟩
    · rw [outcome?, hcall]
      rfl
    · rw [hstep, hsending]
      cases d.isSending <;> simp
    · obtain ⟨hended, hsame⟩ := ho.turned_away hvacant hcall rfl (hclosed.mp hc)
      rw [hregister hs]
      exact hended.alone (hsame.trans hwithout)
    · obtain ⟨why, hframe, hwhy⟩ := Frame.exists_oversized hlarge
      rw [hnext, ← codec_run o past] at hframe
      have hc' : ¬ (d.outbox.released ∨ d.closing ∨ d.shutdown) := fun h => hc (hclosed.mpr h)
      have hregistered : run o (past ++ [.register id]) = d.enter id target body := by
        rw [run_append]
        exact hregister hs
      have hheld := held_register hcall rfl (hsending ▸ hs) hc' hframe hlt
      refine ⟨why, hwhy, fun meanwhile hmeanwhile => ?_⟩
      obtain ⟨hsame, hstill⟩ := hheld.foldl hmeanwhile
      rw [← history_append, ← run_append] at hstill
      rw [← run_append, hregistered, without_enter_own hc', hwithout] at hsame
      have hends := hstill.ends hsame
      rwa [codec_run, ← hnext] at hends

theorem not_hasRoom_lengthyName (seq : UInt64) :
    ¬ Header.HasRoom .messagePack ⟨Header.lengthyName 70000, seq, ""⟩ := by
  intro hroom
  have htexts := Header.length_texts_le ⟨Header.lengthyName 70000, seq, ""⟩
  have htarget : (Bytes.ofText (Header.lengthyName 70000)).length = 70000 := Header.length_lengthyName 70000
  have hmax : maxHeaderSize < 70000 := by decide
  simp only [Header.HasRoom] at hroom
  simp only at htexts
  omega

/-- One call is pending, and another is for a method whose name is too long for a header. It
fails, also if the peer ends the stream while the call has its turn. -/
theorem unsendable_leaves_no_trace_lengthy :
    let es : List Event := [.begin 1 "Foo.Len" (.text "ab"), .register 1, .post 1]
    let target := Header.lengthyName 70000
    let size := (Header.bytes .messagePack ⟨target, 2, ""⟩).length
    let turn : List Event := [.begin 2 target (.text "c"), .register 2]
    let ended : List Event := [.hangUp, .read]
    let d := (run .default (es ++ turn)).apply (.post 2)
    d.outcome? 2 = some (.error (.framing (.headerTooLarge size))) ∧
      d.pending = [(1, 1)] ∧ d.outbox = (run .default es).outbox ∧
      ((run .default (es ++ turn ++ ended)).apply (.post 2)).outcome? 2 = some (.error .shutdown) := by
  intro es target size turn ended d
  have hnext : (run .default (es ++ [])).nextSeq = 2 := by decide +kernel
  obtain ⟨-, hbody⟩ := unsendable_leaves_no_trace .default es [] 2 target (.text "c") (by decide +kernel)
    nofun (by decide +kernel)
  obtain ⟨-, -, -, -, hlarge⟩ := hbody [161, 99] rfl
  rw [hnext, List.append_assoc es] at hlarge
  obtain ⟨why, hwhy, hends⟩ := hlarge (by decide +kernel) (by decide +kernel)
    (.inl (not_hasRoom_lengthyName 2))
  have hw : why = .framing (.headerTooLarge size) := by
    rcases hwhy with ⟨-, hw⟩ | ⟨hb, -⟩
    · exact hw
    · exact absurd hb (by decide)
  subst hw
  obtain ⟨-, out, hend, hout⟩ := hends [] nofun
  obtain ⟨-, late, hlate, hlateout⟩ := hends ended (by decide)
  have htold : (history .default (es ++ turn ++ [])).told 2 = [] ∧
      (history .default (es ++ turn ++ ended)).told 2 = [.error .shutdown] := by decide +kernel
  have hfails : out = .error (.framing (.headerTooLarge size)) := by
    rcases hout with ⟨hout, -⟩ | ha
    · exact hout
    · exact absurd (htold.1 ▸ ha.told.1) List.not_mem_nil
  have hlatefails : late = .error .shutdown := by
    rcases hlateout with ⟨hout, -⟩ | ha
    · exact hout
    · exact List.mem_singleton.mp (htold.2 ▸ ha.told.1)
  obtain ⟨houtcome, htrace⟩ := hend [] nofun
  obtain ⟨hlateoutcome, -⟩ := hlate [] nofun
  rw [List.foldl_nil, List.append_nil, hfails] at houtcome
  rw [List.foldl_nil, List.foldl_nil, List.append_nil] at htrace
  rw [List.foldl_nil, hlatefails] at hlateoutcome
  exact ⟨houtcome, htrace.pending, htrace.outbox, hlateoutcome⟩

/-- **A call that cannot be sent may be answered all the same.** A frame comes with the number
of a call that has no frame, and is taken before the call gives its number up. The client
still takes calls, and the outcome is what the frame says. -/
theorem not_unsendable_fails :
    let target := Header.lengthyName 70000
    let answer : Frame := ⟨Header.bytes .messagePack ⟨"", 1, ""⟩, [192]⟩
    let begun : List Event := [.begin 1 target (.text "c")]
    let answered : List Event := [.receive answer.toBytes, .read]
    let d := (run .default (begun ++ [.register 1] ++ answered)).apply (.post 1)
    ¬ Header.HasRoom .messagePack ⟨target, 1, ""⟩ ∧ d.isAvailable = true ∧
      d.outcome? 1 = some (.ok [192]) ∧ ∀ why, d.outcome? 1 ≠ some (.error why) := by
  intro target answer begun answered d
  have hroom : ¬ Header.HasRoom .messagePack ⟨target, 1, ""⟩ := not_hasRoom_lengthyName 1
  obtain ⟨why, hframe, -⟩ : ∃ why, Frame.ofHeader .messagePack ⟨target, 1, ""⟩ [161, 99] = .error why ∧ _ :=
    Frame.exists_oversized (.inl hroom)
  have hx : (run .default begun).call? 1 = some ⟨1, target, 0, .waiting [161, 99], none⟩ := rfl
  have hnext : (run .default begun).nextSeq = 1 := by decide +kernel
  have hheld : Held 1 (run .default begun).nextSeq why (run .default (begun ++ [.register 1]))
      (history .default (begun ++ [.register 1])) :=
    held_register hx rfl (by decide +kernel) (by decide +kernel) (hnext ▸ hframe) (by decide +kernel)
  have hbeside : ∀ e ∈ answered, e.isBeside 1 = true := by decide
  obtain ⟨-, hstill⟩ := hheld.foldl hbeside
  rw [← run_append, hnext] at hstill
  have hstep := hstill.step_post
  have hpending : (run .default (begun ++ [.register 1] ++ answered)).pending = [] := by decide +kernel
  have hout : (run .default (begun ++ [.register 1] ++ answered)).outcome? 1 = some (.ok [192]) := by
    decide +kernel
  have havailable : (run .default (begun ++ [.register 1] ++ answered)).isAvailable = true := by decide +kernel
  have hd : d = (run .default (begun ++ [.register 1] ++ answered)).update 1
      fun x => { x with phase := .sent } := by
    rw [show d = ((run .default (begun ++ [.register 1] ++ answered)).step (.post 1)).getD _ from rfl, hstep,
      withdraw, hpending]
    rfl
  clear_value d
  generalize run .default (begun ++ [.register 1] ++ answered) = c at hd hout havailable
  obtain ⟨x, hx, ho⟩ := Option.bind_eq_some_iff.mp hout
  have hdout : d.outcome? 1 = some (.ok [192]) := by
    rw [hd, outcome?, call?_update (g := fun x => { x with phase := .sent }) (fun _ => rfl) rfl hx]
    exact ho
  refine ⟨hroom, ?_, hdout, fun why => ?_⟩
  · rw [hd]
    exact havailable
  · simp [hdout]

end Client
end Callwire
