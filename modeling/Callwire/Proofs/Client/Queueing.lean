/-
# Frames are queued in the order in which calls get their numbers

A call has its turn until its frame is queued, or it is given up, or fails. So no call gets
a number while another one waits for room, and the frames that are queued come in the order
of the numbers. Each of them is that of the call which got the number. A call that is given
up before its frame is queued has nothing on the stream, neither then nor later.

Key definitions: `Client.posting`, `Client.Ledger`, `Client.ledger`, `Client.Ledger.InTurn`,
`Client.Registered`.
Key theorems: `Client.sending_origin`, `Client.Ledger.Sound.add`, `Client.registered_of_mem`,
`Client.posts_of_given_up`, `Client.queued_in_turn`.
-/
import Callwire.Proofs.Client.Settlement

namespace Callwire

open Outbox (bytesOf)

/-- The frame is that of the booking, and handed over by its name. -/
def Booking.Carried (codec : Codec) (b : Booking) (p : Nat × Frame) : Prop :=
  b.id = p.1 ∧ b.frame? codec = .ok p.2

namespace Client

variable {c c' : Client} {e : Event} {x y : Call} {id : Nat} {f : Frame} {frame : Except Fault Frame}
  {p : Nat × Frame}

/-! ### The ledger -/

/-- The frame that an event hands over, and the name of the call it is for. -/
def posting (c : Client) : Event → List (Nat × Frame)
  | .post id => (({} : Log).note c (.post id)).sent.map fun f => (id, f)
  | _ => []

/-- A client, its log, and the frames that it has handed over, each with the name of its
call. -/
structure Ledger where
  client : Client
  log : Log := {}
  posts : List (Nat × Frame) := []

namespace Ledger

/-- The ledger after an event that makes `c'` of the client. -/
def add (a : Ledger) (e : Event) (c' : Client) : Ledger :=
  ⟨c', a.log.note a.client e, a.posts ++ a.client.posting e⟩

/-- The ledger after an event. One that cannot happen is not noted. -/
def observe (a : Ledger) (e : Event) : Ledger :=
  match a.client.step e with
  | some c' => a.add e c'
  | none => a

/-- **What holds before some events, and after every one of them, holds after all.** -/
theorem foldl_keeps {P : Ledger → Prop} {es : List Event} {a : Ledger}
    (hstep : ∀ a e c', e ∈ es → Step a.client e c' → P a → P (a.add e c')) (ha : P a) :
    P (es.foldl observe a) := by
  induction es generalizing a with
  | nil => exact ha
  | cons e es ih =>
    rw [List.foldl_cons]
    refine ih (fun a e' c' he => hstep a e' c' (List.mem_cons_of_mem _ he)) ?_
    unfold observe
    cases hs : a.client.step e with
    | none => exact ha
    | some c' => exact hstep a e c' List.mem_cons_self (.of_step hs) ha

end Ledger

/-- The ledger of a client after some events. -/
def ledger (o : Options) (es : List Event) : Ledger := es.foldl Ledger.observe { client := start o }

theorem ledger_append (o : Options) (es es' : List Event) :
    ledger o (es ++ es') = es'.foldl Ledger.observe (ledger o es) :=
  List.foldl_append

theorem client_ledger (o : Options) (es : List Event) : (ledger o es).client = run o es := by
  have hone : ∀ (a : Ledger) (e : Event), (a.observe e).client = a.client.apply e := by
    intro a e
    unfold Ledger.observe apply
    cases a.client.step e <;> rfl
  have hall : ∀ (es : List Event) (a : Ledger), (es.foldl Ledger.observe a).client = es.foldl apply a.client := by
    intro es
    induction es with
    | nil => exact fun _ => rfl
    | cons e es ih =>
      intro a
      rw [List.foldl_cons, List.foldl_cons, ih, hone]
  exact hall es _

/-- A frame is handed over for a call that is being sent, if there is room. -/
theorem posting_cases (hp : p ∈ c.posting e) :
    e = .post p.1 ∧ c.posting e = [p] ∧ ∃ x o, c.call? p.1 = some x ∧ x.phase = .sending (.ok p.2) ∧
      c.outbox.send p.2 = .queued o := by
  cases e with
  | post id =>
    simp only [posting, Log.note] at hp ⊢
    split at hp
    · rename_i id' target seq f out hx
      split at hp
      · rename_i o ho
        obtain rfl : p = (id, f) := List.mem_singleton.mp hp
        exact ⟨rfl, by simp, _, o, hx, rfl, ho⟩
      · cases hp
    · cases hp
  | _ => cases hp

theorem posting_post {o : Outbox} (hx : c.call? id = some x) (hp : x.phase = .sending (.ok f))
    (ho : c.outbox.send f = .queued o) : c.posting (.post id) = [(id, f)] := by
  rw [posting, Log.note_post hx hp, ho]
  rfl

theorem posting_withheld {why : Fault} (hx : c.call? id = some x) (hp : x.phase = .sending frame)
    (hw : c.Withheld frame why) : c.posting (.post id) = [] := by
  rw [posting, Log.note_withheld hx hp hw]
  rfl

/-! ### One call at a time -/

/-- A call that is being sent was so before, or it has just got its number. -/
theorem sending_origin {l : Log} (hs : Step c e c') (hf : Faithful c l) (ho : Ordered c)
    (hlt : l.booked.length < 2 ^ 64) (hy : y ∈ c'.calls) (hp : y.phase = .sending frame) :
    (∃ x ∈ c.calls, x.id = y.id ∧ x.phase = .sending frame) ∨
      (c.entering e = [(c.nextSeq, y.id)] ∧ y.seq = c.nextSeq) := by
  rcases hf.origin hs ho hlt hy with ⟨-, target, args, hy'⟩ | ⟨x, hx, ht⟩
  · rw [hy'] at hp
    unfold opening at hp
    split at hp <;> cases hp
  · obtain ⟨hm, hid⟩ := mem_of_call? hx
    cases ht with
    | stay => exact .inl ⟨y, hm, rfl, hp⟩
    | sent _ | away _ => cases hp
    | book _ he => exact .inr ⟨he, rfl⟩
    | settle _ hph _ =>
      rcases hph with hph | hph
      · exact .inl ⟨x, hm, rfl, hph.symm.trans hp⟩
      · cases hph.symm.trans hp

theorem not_sending (hn : c.isSending = false) (hx : x ∈ c.calls) : x.phase ≠ .sending frame := by
  intro hp
  have hany := List.any_eq_false.mp hn x hx
  simp [hp] at hany

namespace Ledger

variable {a : Ledger} {bs : List Booking}

/-- The frame, if there is one, is that of the call which got a number last, and the other
calls `bs` got theirs before. -/
def Latest (codec : Codec) (l : Log) (bs : List Booking) (id : Nat) (frame : Except Fault Frame) : Prop :=
  ∃ b past, l.booked = b :: past ∧ bs.Sublist past.reverse ∧ b.id = id ∧ b.frame? codec = frame

/-- The frames that were handed over are those of some of the calls that got a number, in
the same order; and a call that is being sent was the last to get one, and none of these. -/
structure InTurn (a : Ledger) (bs : List Booking) : Prop where
  sent : a.posts.map (·.2) = a.log.sent
  order : bs.Sublist a.log.booked.reverse
  frames : bs.Forall₂ (Booking.Carried a.client.options.codec) a.posts
  sending : ∀ x ∈ a.client.calls, ∀ frame, x.phase = .sending frame →
    Latest a.client.options.codec a.log bs x.id frame

/-- What holds of a ledger at all times, the last as long as numbers do not come again. -/
structure Sound (a : Ledger) : Prop where
  ordered : Ordered a.client
  faithful : a.log.booked.length < 2 ^ 64 → Faithful a.client a.log
  inTurn : a.log.booked.length < 2 ^ 64 → ∃ bs, a.InTurn bs

section Step

variable (hs : Step a.client e c') (h : a.InTurn bs) (hf : Faithful a.client a.log)
  (ho : Ordered a.client) (hlt : (a.log.note a.client e).booked.length < 2 ^ 64)

include hs h hf ho hlt

theorem InTurn.stay (hpost : a.client.posting e = []) (hsent : (a.log.note a.client e).sent = a.log.sent)
    (henter : a.client.entering e = []) : (a.add e c').InTurn bs := by
  have hlt' : a.log.booked.length < 2 ^ 64 := Nat.lt_of_le_of_lt (length_booked_note _ e _) hlt
  have hbooked : (a.log.note a.client e).booked = a.log.booked := by
    rw [booked_note, List.map_eq_nil_iff.mp henter, List.nil_append]
  refine ⟨?_, ?_, ?_, fun y hy frame hp => ?_⟩
  · show (a.posts ++ a.client.posting e).map (·.2) = (a.log.note a.client e).sent
    rw [hpost, List.append_nil, hsent]
    exact h.sent
  · show bs.Sublist (a.log.note a.client e).booked.reverse
    rw [hbooked]
    exact h.order
  · show List.Forall₂ _ bs (a.posts ++ a.client.posting e)
    rw [hpost, List.append_nil]
    show List.Forall₂ (Booking.Carried c'.options.codec) bs a.posts
    rw [options_step hs]
    exact h.frames
  · show Latest c'.options.codec (a.log.note a.client e) bs y.id frame
    rw [Latest, hbooked, options_step hs]
    rcases sending_origin hs hf ho hlt' hy hp with ⟨x, hx, hid, hxp⟩ | ⟨he, -⟩
    · rw [← hid]
      exact h.sending x hx frame hxp
    · rw [henter] at he
      cases he

/-- The call that has its turn gets a number, or is turned away. -/
theorem InTurn.register {body : Bytes} (he : e = .register id) (hx : a.client.call? id = some x)
    (hp : x.phase = .waiting body) (hn : a.client.isSending = false) : (a.add e c').InTurn bs := by
  subst he
  have hpost : a.client.posting (.register id) = [] := rfl
  by_cases hc : a.client.outbox.released ∨ a.client.closing ∨ a.client.shutdown
  · have hnote : a.log.note a.client (.register id) = a.log := by
      rw [Log.note_register hx hp, if_pos hc]
    refine h.stay hs hf ho hlt hpost (by rw [hnote]) ?_
    rw [entering_register hx hp, if_pos hc]
  · let b : Booking := ⟨id, a.client.nextSeq, x.target, body⟩
    have hnote : a.log.note a.client (.register id) = { a.log with booked := b :: a.log.booked } := by
      rw [Log.note_register hx hp, if_neg hc]
    have hlt' : a.log.booked.length < 2 ^ 64 := Nat.lt_of_le_of_lt (length_booked_note _ _ _) hlt
    have hf' : Faithful c' (a.log.note a.client (.register id)) := hf.step hs hlt
    refine ⟨?_, ?_, ?_, fun y hy frame hyp => ?_⟩
    · show (a.posts ++ a.client.posting (.register id)).map (·.2) = (a.log.note a.client (.register id)).sent
      rw [hpost, hnote, List.append_nil]
      exact h.sent
    · show bs.Sublist (a.log.note a.client (.register id)).booked.reverse
      rw [hnote, List.reverse_cons]
      exact h.order.trans (List.sublist_append_left _ _)
    · show List.Forall₂ (Booking.Carried c'.options.codec) bs (a.posts ++ a.client.posting (.register id))
      rw [hpost, List.append_nil, options_step hs]
      exact h.frames
    · show Latest c'.options.codec (a.log.note a.client (.register id)) bs y.id frame
      obtain ⟨-, b', hb', hframe⟩ := (hf'.calls y hy).sending frame hyp
      rcases sending_origin hs hf ho hlt' hy hyp with ⟨z, hz, -, hzp⟩ | ⟨-, hseq⟩
      · exact absurd hzp (not_sending hn hz)
      · have hb : b ∈ (a.log.note a.client (.register id)).booked := by
          rw [hnote]
          exact List.mem_cons_self
        have hbb : b' = b := hf'.log.eq_of_seq hlt hb'.mem hb (hb'.seq.trans hseq)
        exact ⟨b', a.log.booked, by rw [hnote, ← hbb], h.order, hb'.id, hframe⟩

/-- The frame of the call that is being sent is handed over. -/
theorem InTurn.post {o : Outbox} (he : e = .post id) (hx : a.client.call? id = some x)
    (hp : x.phase = .sending (.ok f)) (hq : a.client.outbox.send f = .queued o)
    (hc' : c' = { a.client.update id (fun y => { y with phase := .sent }) with outbox := o }) :
    ∃ b, (a.add e c').InTurn (bs ++ [b]) := by
  subst he
  have hlt' : a.log.booked.length < 2 ^ 64 := Nat.lt_of_le_of_lt (length_booked_note _ _ _) hlt
  have hnote : a.log.note a.client (.post id) = { a.log with sent := a.log.sent ++ [f] } := by
    rw [Log.note_post hx hp, hq]
  have hpost : a.client.posting (.post id) = [(id, f)] := posting_post hx hp hq
  obtain ⟨hm, hid⟩ := mem_of_call? hx
  obtain ⟨b, past, hbooked, hsub, hbid, hframe⟩ := h.sending x hm (.ok f) hp
  refine ⟨b, ?_, ?_, ?_, fun y hy g hyp => ?_⟩
  · show (a.posts ++ a.client.posting (.post id)).map (·.2) = (a.log.note a.client (.post id)).sent
    rw [hpost, hnote, List.map_append, h.sent]
    rfl
  · show (bs ++ [b]).Sublist (a.log.note a.client (.post id)).booked.reverse
    have hsame : (a.log.note a.client (.post id)).booked = b :: past := by rw [hnote, ← hbooked]
    rw [hsame, List.reverse_cons]
    exact hsub.append (List.Sublist.refl _)
  · show List.Forall₂ (Booking.Carried c'.options.codec) (bs ++ [b])
      (a.posts ++ a.client.posting (.post id))
    rw [hpost, options_step hs]
    exact List.rel_append h.frames (.cons ⟨hbid.trans hid, hframe⟩ .nil)
  · exfalso
    rcases sending_origin hs hf ho hlt' hy hyp with ⟨z, hz, hzid, hzp⟩ | ⟨henter, -⟩
    · obtain ⟨b', past', hbooked', -, hbid', -⟩ := h.sending z hz g hzp
      have hbb : b = b' := (List.cons.inj (hbooked.symm.trans hbooked')).1
      have hyid : y.id = id := by
        calc y.id = z.id := hzid.symm
          _ = b'.id := hbid'.symm
          _ = b.id := by rw [hbb]
          _ = x.id := hbid
          _ = id := hid
      have hcall : c'.call? id = some { x with phase := .sent } := by
        rw [hc']
        exact call?_update (g := fun y => { y with phase := .sent }) (fun _ => rfl) rfl hx
      have hy' : c'.call? y.id = some y := call?_of_mem (ho.step hs).ids hy
      rw [hyid, hcall, Option.some.injEq] at hy'
      rw [← hy'] at hyp
      cases hyp
    · have hnone : a.client.entering (.post id) = [] := entering_eq_nil (by simp)
      rw [hnone] at henter
      cases henter

end Step

/-- **What holds of a ledger holds after every event.** -/
theorem Sound.add (h : a.Sound) (hs : Step a.client e c') : (a.add e c').Sound := by
  refine ⟨h.ordered.step hs, fun hlt => ?_, fun hlt => ?_⟩
  · have hlt' : a.log.booked.length < 2 ^ 64 := Nat.lt_of_le_of_lt (length_booked_note _ _ _) hlt
    exact (h.faithful hlt').step hs hlt
  · have hlt' : a.log.booked.length < 2 ^ 64 := Nat.lt_of_le_of_lt (length_booked_note _ _ _) hlt
    have hf := h.faithful hlt'
    have ho := h.ordered
    obtain ⟨bs, hbs⟩ := h.inTurn hlt'
    have hstay : a.client.posting e = [] → (a.log.note a.client e).sent = a.log.sent →
        a.client.entering e = [] → ∃ bs, (a.add e c').InTurn bs :=
      fun hpost hsent henter => ⟨bs, hbs.stay hs hf ho hlt hpost hsent henter⟩
    have hread : (a.log.note a.client .read).sent = a.log.sent := by
      rw [Log.note]
      split <;> rfl
    have hs' := hs
    cases hs with
    | register hx hp hn => exact ⟨bs, hbs.register hs' hf ho hlt rfl hx hp hn⟩
    | post hx hp hq =>
      obtain ⟨b, hb⟩ := hbs.post hs' hf ho hlt rfl hx hp hq rfl
      exact ⟨bs ++ [b], hb⟩
    | unsent hx hp hw =>
      refine hstay (posting_withheld hx hp hw) ?_ (entering_eq_nil (by simp))
      rw [Log.note_withheld hx hp hw]
    | deliver _ _ _ | endReading _ _ => exact hstay rfl hread (entering_eq_nil (by simp))
    | _ => exact hstay rfl rfl (entering_eq_nil (by simp))

theorem Sound.foldl (h : a.Sound) (es : List Event) : (es.foldl observe a).Sound :=
  foldl_keeps (fun _ _ _ _ hs h => h.add hs) h

end Ledger

theorem sound_ledger (o : Options) (es : List Event) : (ledger o es).Sound := by
  refine Ledger.Sound.foldl ⟨ordered_start o, fun _ => faithful_start o, fun _ => ⟨[], ?_⟩⟩ es
  exact ⟨rfl, List.Sublist.slnil, .nil, fun _ hx => nomatch hx⟩

theorem Ledger.length_booked_foldl (a : Ledger) (es : List Event) :
    a.log.booked.length ≤ (es.foldl observe a).log.booked.length := by
  refine foldl_keeps (P := fun d => a.log.booked.length ≤ d.log.booked.length) ?_ (Nat.le_refl _)
  intro d e c' _ _ hle
  exact Nat.le_trans hle (length_booked_note d.client e d.log)

/-! ### Who gets a number -/

theorem pairwise_numbers {n : Nat} (hn : n < 2 ^ 64) : (numbers n).Pairwise (· > ·) := by
  induction n with
  | zero => exact List.Pairwise.nil
  | succ n ih =>
    refine List.pairwise_cons.mpr ⟨fun s hs => ?_, ih (by omega)⟩
    obtain ⟨k, -, hle, rfl⟩ := mem_numbers hs
    show UInt64.ofNat k < UInt64.ofNat (n + 1)
    rw [UInt64.lt_iff_toNat_lt, UInt64.toNat_ofNat', UInt64.toNat_ofNat', Nat.mod_eq_of_lt (by omega),
      Nat.mod_eq_of_lt hn]
    omega

/-- No call gets a number, or the one that has its turn gets the next one. -/
theorem booked_cases (c : Client) (e : Event) (l : Log) :
    (l.note c e).booked = l.booked ∨ ∃ id x body, e = .register id ∧ c.call? id = some x ∧
      x.phase = .waiting body ∧ (l.note c e).booked = ⟨id, c.nextSeq, x.target, body⟩ :: l.booked := by
  by_cases he : c.entering e = []
  · left
    rw [booked_note, List.map_eq_nil_iff.mp he, List.nil_append]
  · obtain ⟨p, hp⟩ := List.exists_mem_of_ne_nil _ he
    obtain ⟨rfl, -, x, body, hx, hw⟩ := entering_cases hp
    rw [Log.note_register hx hw]
    split
    · exact .inl rfl
    · exact .inr ⟨p.2, x, body, rfl, hx, hw, rfl⟩

theorem Ledger.booked_observe (a : Ledger) (e : Event) :
    ∃ more, (a.observe e).log.booked = more ++ a.log.booked := by
  unfold observe
  cases a.client.step e with
  | none => exact ⟨[], rfl⟩
  | some c' => exact ⟨_, booked_note a.client e a.log⟩

/-- The number of the booking was given when the call had its turn, the numbers before it had
been given by then, and what goes with it is what the call was begun with. -/
def Registered (o : Options) (es : List Event) (b : Booking) : Prop :=
  ∃ es₁ es₂ later args, es = es₁ ++ .register b.id :: es₂ ∧
    (ledger o es).log.booked = later ++ b :: (ledger o es₁).log.booked ∧
    (run o es₁).nextSeq = b.seq ∧ (ledger o es₁).log.begun.lookup b.id = some (b.target, args) ∧
    o.codec.encode args = .ok b.body

theorem Registered.concat {o : Options} {es : List Event} {b : Booking} (h : Registered o es b) (e : Event) :
    Registered o (es ++ [e]) b := by
  obtain ⟨es₁, es₂, later, args, hes, hbooked, hrest⟩ := h
  obtain ⟨more, hmore⟩ := (ledger o es).booked_observe e
  refine ⟨es₁, es₂ ++ [e], more ++ later, args, ?_, ?_, hrest⟩
  · rw [hes, List.append_assoc, List.cons_append]
  · have hone : ledger o (es ++ [e]) = (ledger o es).observe e := ledger_append o es [e]
    rw [hone, hmore, hbooked, List.append_assoc]

/-- The call that has its turn gets its number now. -/
theorem registered_now {o : Options} {es : List Event} {body : Bytes}
    (hlt : (ledger o es).log.booked.length < 2 ^ 64) (hx : (ledger o es).client.call? id = some x)
    (hw : x.phase = .waiting body)
    (hnew : (ledger o (es ++ [.register id])).log.booked =
      ⟨id, (ledger o es).client.nextSeq, x.target, body⟩ :: (ledger o es).log.booked) :
    Registered o (es ++ [.register id]) ⟨id, (ledger o es).client.nextSeq, x.target, body⟩ := by
  have hf : Faithful (ledger o es).client (ledger o es).log := (sound_ledger o es).faithful hlt
  obtain ⟨hm, hid⟩ := mem_of_call? hx
  obtain ⟨-, -, args, hlookup, hencode⟩ := (hf.calls x hm).waiting body hw
  have hcodec : (ledger o es).client.options.codec = o.codec := by
    rw [client_ledger, codec_run]
  refine ⟨es, [], [], args, rfl, hnew, ?_, ?_, ?_⟩
  · rw [← client_ledger]
  · rw [← hid]
    exact hlookup
  · rw [← hcodec]
    exact hencode

/-- **A number is given by the registration of a call**, after all the numbers before it, and
with it goes what the caller of this call asked for. -/
theorem registered_of_mem {o : Options} {es : List Event} (hlt : (ledger o es).log.booked.length < 2 ^ 64)
    {b : Booking} (hb : b ∈ (ledger o es).log.booked) : Registered o es b := by
  induction es using List.reverseRecOn with
  | nil => cases hb
  | append_singleton es e ih =>
    have hone : ledger o (es ++ [e]) = (ledger o es).observe e := ledger_append o es [e]
    have hle : (ledger o es).log.booked.length ≤ (ledger o (es ++ [e])).log.booked.length := by
      rw [hone]
      exact (ledger o es).length_booked_foldl [e]
    have hlt' : (ledger o es).log.booked.length < 2 ^ 64 := Nat.lt_of_le_of_lt hle hlt
    cases hs : (ledger o es).client.step e with
    | none =>
      have hsame : ledger o (es ++ [e]) = ledger o es := by rw [hone, Ledger.observe, hs]
      rw [hsame] at hb
      exact (ih hlt' hb).concat e
    | some c' =>
      have hnote : (ledger o (es ++ [e])).log = (ledger o es).log.note (ledger o es).client e := by
        rw [hone, Ledger.observe, hs]
        rfl
      rcases booked_cases (ledger o es).client e (ledger o es).log with hsame | ⟨id, x, body, rfl, hx, hw, hnew⟩
      · rw [hnote, hsame] at hb
        exact (ih hlt' hb).concat e
      · rw [← hnote] at hnew
        rw [hnew] at hb
        rcases List.mem_cons.mp hb with rfl | hb
        · exact registered_now hlt' hx hw hnew
        · exact (ih hlt' hb).concat _

/-! ### Calls that are given up -/

theorem Turn.phase_ne_sent (ht : Turn c e x y) (hy : y.phase ≠ .sent) : x.phase ≠ .sent := by
  cases ht with
  | stay => exact hy
  | sent _ | away _ => exact absurd rfl hy
  | book hp _ =>
    rw [hp]
    exact nofun
  | settle _ hph _ =>
    rcases hph with rfl | rfl
    · exact hy
    · exact absurd rfl hy

theorem phase_of_posting (hs : Step c e c') (hp : p ∈ c.posting e) :
    ∃ z, c'.call? p.1 = some z ∧ z.phase = .sent := by
  obtain ⟨rfl, -, x, o, hx, -, ho⟩ := posting_cases hp
  cases hs with
  | post hx' hp' ho' =>
    exact ⟨_, call?_update (g := fun y => { y with phase := .sent }) (fun _ => rfl) rfl hx', rfl⟩
  | unsent hx' hp' hw' =>
    rw [posting_withheld hx' hp' hw'] at hp
    cases hp

/-- What was handed over by the name. -/
def Ledger.postsOf (a : Ledger) (id : Nat) : List (Nat × Frame) := a.posts.filter (·.1 == id)

theorem Ledger.postsOf_add {a : Ledger} (h : ∀ p ∈ a.client.posting e, p.1 ≠ id) :
    (a.add e c').postsOf id = a.postsOf id := by
  have hnone : (a.client.posting e).filter (·.1 == id) = [] :=
    List.filter_eq_nil_iff.mpr fun p hp => by simpa using h p hp
  show (a.posts ++ a.client.posting e).filter (·.1 == id) = a.posts.filter (·.1 == id)
  rw [List.filter_append, hnone, List.append_nil]

/-- As long as a call is not given up, nothing is handed over for it until it is done with
sending. -/
theorem Ledger.Sound.postsOf_live {a : Ledger} (h : a.Sound) (hx : a.client.call? id = some x)
    {es : List Event} (hes : .abandon id ∉ es) (hlt : (es.foldl observe a).log.booked.length < 2 ^ 64) :
    ∃ y, (es.foldl observe a).client.call? id = some y ∧
      (y.phase ≠ .sent → (es.foldl observe a).postsOf id = a.postsOf id) := by
  let Live (d : Ledger) : Prop := d.Sound ∧ (d.log.booked.length < 2 ^ 64 →
    ∃ y, d.client.call? id = some y ∧ (y.phase ≠ .sent → d.postsOf id = a.postsOf id))
  suffices hlive : Live (es.foldl observe a) from hlive.2 hlt
  refine foldl_keeps (P := Live) ?_ ⟨h, fun _ => ⟨x, hx, fun _ => rfl⟩⟩
  rintro d e c' he hs ⟨hd, hlive⟩
  refine ⟨hd.add hs, fun hlt => ?_⟩
  have hlt' : d.log.booked.length < 2 ^ 64 := Nat.lt_of_le_of_lt (length_booked_note _ _ _) hlt
  obtain ⟨y, hy, hposts⟩ := hlive hlt'
  obtain ⟨hm, hid⟩ := mem_of_call? hy
  have hown : ∀ f, y.phase = .sending f → ∀ i, d.client.pending.lookup y.seq = some i → i = id := by
    intro f _ i hl
    exact ((hd.faithful hlt').own hlt' hm hl).trans hid
  have hne : e ≠ .abandon id := fun heq => hes (heq ▸ he)
  obtain ⟨z, hz, ht⟩ := hs.turn hd.ordered hy hown hne
  refine ⟨z, hz, fun hp => ?_⟩
  rw [postsOf_add, hposts (ht.phase_ne_sent hp)]
  rintro p hpost rfl
  obtain ⟨z', hz', hsent⟩ := phase_of_posting hs hpost
  rw [hz, Option.some.injEq] at hz'
  exact hp (hz' ▸ hsent)

/-- Nothing is handed over by a name that no call has. -/
theorem Ledger.postsOf_gone {a : Ledger} (ho : Ordered a.client) (hn : a.client.call? id = none)
    {es : List Event} (hes : ∀ target args, .begin id target args ∉ es) :
    (es.foldl observe a).postsOf id = a.postsOf id := by
  let Gone (d : Ledger) : Prop :=
    Ordered d.client ∧ d.client.call? id = none ∧ d.postsOf id = a.postsOf id
  suffices hgone : Gone (es.foldl observe a) from hgone.2.2
  refine foldl_keeps (P := Gone) ?_ ⟨ho, hn, rfl⟩
  rintro d e c' he hs ⟨hd, hnone, hposts⟩
  refine ⟨hd.step hs, hs.call?_eq_none hd hnone fun target args heq => ?_, ?_⟩
  · exact hes target args (heq ▸ he)
  · rw [postsOf_add, hposts]
    rintro p hpost rfl
    obtain ⟨-, -, x, o, hx, -⟩ := posting_cases hpost
    rw [hnone] at hx
    cases hx

theorem call?_abandon (hx : c.call? id = some x) : (c.abandon x).call? id = none := by
  obtain ⟨-, hid⟩ := mem_of_call? hx
  refine List.find?_eq_none.mpr fun y hy => ?_
  have hne := (List.mem_filter.mp hy).2
  rw [bne_iff_ne, hid] at hne
  simpa using hne

theorem call?_begin (hn : c.call? id = none) (codec : Codec) (target : String) (args : Datum) :
    { c with calls := c.calls ++ [opening codec id target args] }.call? id =
      some (opening codec id target args) := by
  show (c.calls ++ [opening codec id target args]).find? (·.id == id) = _
  have hnone : c.calls.find? (·.id == id) = none := hn
  rw [List.find?_append, hnone, Option.none_or]
  simp [id_opening]

namespace Ledger

theorem observe_begin {a : Ledger} (hn : a.client.call? id = none) (target : String) (args : Datum) :
    a.observe (.begin id target args) = a.add (.begin id target args)
      { a.client with
        calls := a.client.calls ++ [opening a.client.options.codec id target args] } := by
  rw [observe, step, hn]
  rfl

theorem observe_abandon {a : Ledger} (hx : a.client.call? id = some x) :
    a.observe (.abandon id) = a.add (.abandon id) (a.client.abandon x) := by
  rw [observe, step, hx]
  rfl

end Ledger

/-- **A call that is given up before its frame is queued has nothing on the stream**: from
when it was begun nothing is handed over by its name, until another call takes the name. -/
theorem posts_of_given_up {o : Options} {es₀ es₁ es₂ : List Event} {target : String} {args : Datum}
    (hlt : (ledger o (es₀ ++ .begin id target args :: es₁)).log.booked.length < 2 ^ 64)
    (hn : (run o es₀).call? id = none) (h₁ : .abandon id ∉ es₁) (h₂ : ∀ t d, .begin id t d ∉ es₂)
    (hx : (run o (es₀ ++ .begin id target args :: es₁)).call? id = some x) (hp : x.phase ≠ .sent) :
    (ledger o (es₀ ++ .begin id target args :: es₁ ++ .abandon id :: es₂)).postsOf id =
      (ledger o es₀).postsOf id := by
  rw [← client_ledger] at hn hx
  let begun : Ledger := (ledger o es₀).observe (.begin id target args)
  let live : Ledger := ledger o (es₀ ++ .begin id target args :: es₁)
  have hbegun : begun = _ := Ledger.observe_begin hn target args
  have hlive : live = es₁.foldl Ledger.observe begun := ledger_append o es₀ _
  have hcall : begun.client.call? id = some (opening (ledger o es₀).client.options.codec id target args) := by
    rw [hbegun]
    exact call?_begin hn _ _ _
  have hsound : begun.Sound := (sound_ledger o es₀).foldl [.begin id target args]
  obtain ⟨y, hy, hquiet⟩ := hsound.postsOf_live hcall h₁ (hlive ▸ hlt)
  rw [← hlive] at hy hquiet
  have hxy : x = y := Option.some.inj (hx.symm.trans hy)
  have hord : Ordered live.client := (sound_ledger o _).ordered
  calc (ledger o (es₀ ++ .begin id target args :: es₁ ++ .abandon id :: es₂)).postsOf id
    _ = (es₂.foldl Ledger.observe (live.observe (.abandon id))).postsOf id := by
      rw [ledger_append, List.foldl_cons]
    _ = (live.observe (.abandon id)).postsOf id := by
      rw [Ledger.observe_abandon hx]
      exact Ledger.postsOf_gone (hord.abandon hx) (call?_abandon hx) h₂
    _ = live.postsOf id := by
      rw [Ledger.observe_abandon hx]
      exact Ledger.postsOf_add (by simp [posting])
    _ = begun.postsOf id := hquiet (hxy ▸ hp)
    _ = (ledger o es₀).postsOf id := by
      rw [hbegun]
      exact Ledger.postsOf_add (by simp [posting])

/-! ### Every run -/

/-- What was handed over is all that is on its way, behind the line of options. -/
theorem carries_ledger (o : Options) (es : List Event) :
    (run o es).outbox.Carries [] ((start o).options.line ++ bytesOf (ledger o es).log.sent) := by
  let Carried (a : Ledger) : Prop :=
    a.client.outbox.Carries [] ((start o).options.line ++ bytesOf a.log.sent)
  suffices hcarried : Carried (ledger o es) by
    rw [← client_ledger]
    exact hcarried
  have hstart : Carried { client := start o } :=
    ⟨[], by simp [start, bytesOf], fun _ => rfl⟩
  exact Ledger.foldl_keeps (P := Carried) (fun _ _ _ _ hs hc => carries_step hs hc) hstart

/-- **Frames are queued in the order of their numbers.** Whatever the callers and the peer
of a client do, as long as fewer than `2^64` calls get a number:

* the frames that were handed over are those of some of the calls that got a number, in the
  order in which they did. Each has the name of the method, the number and the argument of
  its call and no error; the numbers are greater than zero and strictly increase;
* each number was given when the call had its turn, and the ones before it had been given by
  then. The name and the argument that go with it are those the call was begun with;
* what is written, offered next and queued are the options and the bytes of these frames,
  and all of them if no write has failed;
* from when a call was begun to when it was given up nothing was handed over for it if it was
  not done with sending, and nothing was later until its name was used again. -/
theorem queued_in_turn (o : Options) (es : List Event) (hlt : (ledger o es).log.booked.length < 2 ^ 64) :
    (∃ bs : List Booking, bs.Sublist (ledger o es).log.booked.reverse ∧
      bs.Forall₂ (fun b p => p.1 = b.id ∧ p.2.readHeader o.codec = .ok ⟨b.target, b.seq, ""⟩ ∧
        p.2.body = b.body) (ledger o es).posts ∧
      (bs.map (·.seq)).Pairwise (· < ·) ∧ ∀ b ∈ bs, 1 ≤ b.seq) ∧
    (∀ b ∈ (ledger o es).log.booked, Registered o es b) ∧
    (∃ rest, (run o es).outbox.wire ++ (run o es).outbox.batch.slices.flatten ++
        bytesOf (run o es).outbox.queue ++ rest =
          (start o).options.line ++ bytesOf ((ledger o es).posts.map (·.2)) ∧
      ((run o es).outbox.state ≠ .failed → rest = [])) ∧
    (∀ es₀ es₁ es₂ id target args x,
      es = es₀ ++ .begin id target args :: es₁ ++ .abandon id :: es₂ →
      (run o es₀).call? id = none → .abandon id ∉ es₁ → (∀ t d, .begin id t d ∉ es₂) →
      (run o (es₀ ++ .begin id target args :: es₁)).call? id = some x → x.phase ≠ .sent →
      (ledger o es).postsOf id = (ledger o es₀).postsOf id) := by
  have hsound := sound_ledger o es
  have hf : Faithful (ledger o es).client (ledger o es).log := hsound.faithful hlt
  obtain ⟨bs, hbs⟩ := hsound.inTurn hlt
  have hcodec : (ledger o es).client.options.codec = o.codec := by
    rw [client_ledger, codec_run]
  have hseqs : ((ledger o es).log.booked.reverse.map (·.seq)).Pairwise (· < ·) := by
    rw [List.map_reverse, List.pairwise_reverse, hf.log.numbers]
    exact pairwise_numbers hlt
  refine ⟨⟨bs, hbs.order, ?_, ?_, fun b hb => ?_⟩, fun b hb => registered_of_mem hlt hb, ?_, ?_⟩
  · refine hbs.frames.imp fun b p hp => ?_
    obtain ⟨hheader, hbody⟩ := readHeader_frame? hp.2
    rw [hcodec] at hheader
    exact ⟨hp.1.symm, hheader, hbody⟩
  · exact hseqs.sublist (hbs.order.map _)
  · have hm : b ∈ (ledger o es).log.booked := List.mem_reverse.mp (hbs.order.subset hb)
    have hne : b.seq ≠ 0 := hf.log.ne_zero hlt hm
    rw [UInt64.le_iff_toNat_le]
    exact Nat.one_le_iff_ne_zero.mpr fun hz => hne (UInt64.toNat_inj.mp hz)
  · obtain ⟨rest, hall, hrest⟩ := carries_ledger o es
    rw [hbs.sent]
    exact ⟨rest, hall, hrest⟩
  · rintro es₀ es₁ es₂ id target args x rfl hn h₁ h₂ hx hp
    refine posts_of_given_up ?_ hn h₁ h₂ hx hp
    rw [ledger_append] at hlt
    exact Nat.lt_of_le_of_lt (Ledger.length_booked_foldl _ _) hlt

/-- Two calls are begun. The first gets a number, waits for room and is given up; then the
second has its turn and its frame is handed over. -/
theorem queued_in_turn_len :
    let es : List Event := [.begin 1 "Foo.Len" (.text "ab"), .register 1, .begin 2 "Foo.Len" (.text "c")]
    let later : List Event := [.register 2, .post 2, .write .take]
    (ledger .default (es ++ .abandon 1 :: later)).postsOf 1 = [] ∧
      ∃ f, (ledger .default (es ++ .abandon 1 :: later)).posts = [(2, f)] ∧
        f.readHeader .messagePack = .ok ⟨"Foo.Len", 2, ""⟩ ∧ f.body = [161, 99] := by
  intro es later
  have hlt : (ledger .default (es ++ .abandon 1 :: later)).log.booked.length < 2 ^ 64 := by decide +kernel
  obtain ⟨⟨bs, horder, hframes, -⟩, -, -, hgone⟩ :=
    queued_in_turn .default (es ++ .abandon 1 :: later) hlt
  have hbooked : (ledger .default (es ++ .abandon 1 :: later)).log.booked.reverse =
      [⟨1, 1, "Foo.Len", [162, 97, 98]⟩, ⟨2, 2, "Foo.Len", [161, 99]⟩] := by decide +kernel
  have hnames : (ledger .default (es ++ .abandon 1 :: later)).posts.map (·.1) = [2] := by decide +kernel
  have hwaits : ((run .default es).call? 1).any fun x => !(x.phase matches .sent) := by decide +kernel
  obtain ⟨x, hx, hp⟩ := Option.any_eq_true _ _ |>.mp hwaits
  refine ⟨hgone [] [.register 1, .begin 2 "Foo.Len" (.text "c")] later 1 "Foo.Len" (.text "ab") x rfl rfl
    (by simp) (by simp [later]) hx (fun hs => by simp [hs] at hp), ?_⟩
  obtain ⟨p, ps, hposts, hid, hps⟩ := List.map_eq_cons_iff.mp hnames
  rw [List.map_eq_nil_iff.mp hps] at hposts
  rw [hposts] at hframes ⊢
  obtain ⟨b, cs, hb, hcs, rfl⟩ := List.forall₂_cons_right_iff.mp hframes
  rw [List.forall₂_nil_right_iff.mp hcs, hbooked] at horder
  have hm : b ∈ [⟨1, 1, "Foo.Len", [162, 97, 98]⟩, ⟨2, 2, "Foo.Len", [161, 99]⟩] :=
    horder.subset List.mem_cons_self
  obtain ⟨hbid, hheader, hbody⟩ := hb
  rw [hid] at hbid
  have hsecond : b = ⟨2, 2, "Foo.Len", [161, 99]⟩ := by
    rcases List.mem_cons.mp hm with rfl | hm
    · cases hbid
    · exact List.mem_singleton.mp hm
  rw [hsecond] at hheader hbody
  exact ⟨p.2, by rw [← hid], hheader, hbody⟩

end Client
end Callwire
