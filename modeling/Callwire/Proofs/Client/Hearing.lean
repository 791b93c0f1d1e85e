/-
# What a client sends and hears

The frames of calls go out in the order in which they were handed over, after the
line of options. The frames that come are those of the stream. A call whose number
came with a frame has an outcome. While the client is not shut down, a call that was
sent fails only if the peer says so.

Key definitions: `Client.Hears`, `Client.Heeded`.
Key theorems: `Client.carries_step`, `Client.Hears.step`, `Client.Heeded.step`.
-/
import Callwire.Proofs.Client.Calls

namespace Callwire

open Outbox (bytesOf)

namespace Client

variable {c c' : Client} {e : Event} {l : Log} {x y : Call} {f : Frame} {h : Header} {id : Nat}
  {target : String} {body : Bytes}

/-! ### What does not change -/

theorem options_enter : (c.enter id target body).options = c.options := by
  rcases enter_cases c id target body with ⟨-, he⟩ | ⟨-, he⟩ <;> rw [he]

theorem outbox_enter : (c.enter id target body).outbox = c.outbox := by
  rcases enter_cases c id target body with ⟨-, he⟩ | ⟨-, he⟩ <;> rw [he]

theorem buffer_enter : (c.enter id target body).buffer = c.buffer ∧
    (c.enter id target body).receiving = c.receiving := by
  rcases enter_cases c id target body with ⟨-, he⟩ | ⟨-, he⟩ <;> exact he ▸ ⟨rfl, rfl⟩

theorem options_withdraw {s : UInt64} {why : Fault} : (c.withdraw id s why).options = c.options := by
  rw [withdraw]
  split <;> rfl

theorem outbox_withdraw {s : UInt64} {why : Fault} : (c.withdraw id s why).outbox = c.outbox := by
  rw [withdraw]
  split <;> rfl

theorem buffer_withdraw {s : UInt64} {why : Fault} : (c.withdraw id s why).buffer = c.buffer ∧
    (c.withdraw id s why).receiving = c.receiving := by
  rw [withdraw]
  split <;> exact ⟨rfl, rfl⟩

theorem options_deliver : (c.deliver h body).options = c.options := by
  rw [deliver]
  split <;> rfl

theorem outbox_deliver : (c.deliver h body).outbox = c.outbox := by
  rw [deliver]
  split <;> rfl

theorem buffer_deliver : (c.deliver h body).buffer = c.buffer ∧
    (c.deliver h body).receiving = c.receiving := by
  rw [deliver]
  split <;> exact ⟨rfl, rfl⟩

theorem options_step (hs : Step c e c') : c'.options = c.options := by
  cases hs with
  | register hx hp _ => exact options_enter
  | unsent _ _ _ => exact options_withdraw
  | deliver hr hn hh => exact options_deliver
  | _ => rfl

/-! ### The streams -/

/-- **What was handed over is on its way after every event**, behind what was there
before. -/
theorem carries_step (hs : Step c e c') {gone pre : Bytes}
    (hc : c.outbox.Carries gone (pre ++ bytesOf l.sent)) :
    c'.outbox.Carries gone (pre ++ bytesOf (l.note c e).sent) := by
  have hread : (l.note c .read).sent = l.sent := by
    rw [Log.note]
    split <;> rfl
  cases hs with
  | begin _ | abandon _ | close | receive _ | hangUp | lose | stop _ _ | watch _ => exact hc
  | @register id x body hx hp _ =>
    have hn : (l.note c (.register id)).sent = l.sent := by
      rw [Log.note_register hx hp]
      split <;> rfl
    rw [outbox_enter, hn]
    exact hc
  | post hx hp ho =>
    rw [Log.note_post hx hp, ho, Frame.bytesOf_concat, ← List.append_assoc]
    exact hc.send ho
  | unsent hx hp hw =>
    rw [Log.note_withheld hx hp hw, outbox_withdraw]
    exact hc
  | deliver hr hn hh =>
    rw [outbox_deliver, hread]
    exact hc
  | endReading _ _ =>
    rw [hread]
    exact hc
  | release _ _ _ => exact hc
  | write ho => exact hc.step ho

/-- The bytes that an event brings. -/
def Event.bytes : Event → Bytes
  | .receive bs => bs
  | _ => []

theorem Event.bytes_eq_nil (he : e.isOwn = true) : e.bytes = [] := by
  cases e with
  | receive bs => cases he
  | _ => rfl

theorem heard_note : (l.note c e).heard = l.heard ++ e.bytes := by
  cases e with
  | receive bs => rfl
  | register id =>
    simp only [Log.note, Event.bytes, List.append_nil]
    split
    · split <;> rfl
    · rfl
  | post id =>
    simp only [Log.note, Event.bytes, List.append_nil]
    split
    · split <;> rfl
    · rfl
  | read =>
    simp only [Log.note, Event.bytes, List.append_nil]
    split <;> rfl
  | _ => simp [Log.note, Event.bytes]

/-- The frames that came were taken from the stream, and while the client reads the
others are in front. -/
structure Hears (c : Client) (l : Log) : Prop where
  checked : c.buffer.Checked
  limit : c.buffer.limit = maxBodySize
  fits : ∀ f ∈ l.got, f.Fits maxBodySize
  begins : bytesOf l.got <+: l.heard
  front : c.receiving = true → l.heard = bytesOf l.got ++ c.buffer.front

/-- The state of the client changes elsewhere. -/
theorem Hears.congr {l' : Log} (hh : Hears c l) (hb : c'.buffer = c.buffer)
    (hr : c'.receiving = true → c.receiving = true) (hgot : l'.got = l.got)
    (hheard : l'.heard = l.heard) : Hears c' l' := by
  refine ⟨hb ▸ hh.checked, hb ▸ hh.limit, hgot ▸ hh.fits, ?_, fun h => ?_⟩
  · rw [hgot, hheard]
    exact hh.begins
  · rw [hgot, hheard, hb]
    exact hh.front (hr h)

theorem Hears.frame (hh : Hears c l) (hr : c.receiving = true) {b : Frame.Buffer}
    (hn : c.buffer.next = (.ok (some f), b)) (hb : c'.buffer = b) :
    Hears c' { l with got := l.got ++ [f] } := by
  obtain ⟨hf, hfit, haw, hlim⟩ := Frame.Buffer.next_frame hn
  have hheard : l.heard = bytesOf (l.got ++ [f]) ++ b.front := by
    rw [hh.front hr, hf, Frame.bytesOf_concat, List.append_assoc]
  refine ⟨hb ▸ Frame.Buffer.checked_of_awaited_eq_none haw, by rw [hb, hlim, hh.limit], ?_, ?_,
    fun _ => hb ▸ hheard⟩
  · intro g hg
    rcases List.mem_append.mp hg with hg | hg
    · exact hh.fits g hg
    · rw [List.mem_singleton.mp hg]
      exact hh.limit ▸ hfit hh.checked
  · exact hheard ▸ List.prefix_append _ _

/-- **The frames that came are those of the stream after every event.** -/
theorem Hears.step (hs : Step c e c') (hh : Hears c l) : Hears c' (l.note c e) := by
  cases hs with
  | begin _ | abandon _ | close | hangUp | lose | release _ _ _ | write _ | watch _ => exact { hh with }
  | stop _ _ => exact hh.congr rfl (absurd · Bool.false_ne_true) rfl rfl
  | @receive bs he =>
    refine ⟨hh.checked.extend bs, hh.limit, hh.fits, hh.begins.trans (List.prefix_append _ _),
      fun hr => ?_⟩
    simp only [Log.note, Frame.Buffer.front_extend, hh.front hr, List.append_assoc]
  | register hx hp _ =>
    rw [Log.note_register hx hp]
    split
    · exact hh.congr buffer_enter.1 (fun hr => buffer_enter.2 ▸ hr) rfl rfl
    · exact hh.congr buffer_enter.1 (fun hr => buffer_enter.2 ▸ hr) rfl rfl
  | post hx hp ho =>
    rw [Log.note_post hx hp, ho]
    exact hh.congr rfl id rfl rfl
  | unsent hx hp hw =>
    rw [Log.note_withheld hx hp hw]
    exact hh.congr buffer_withdraw.1 (fun hr => buffer_withdraw.2 ▸ hr) rfl rfl
  | @deliver f b hd hr hn hread =>
    simp only [Log.note, hn]
    exact hh.frame hr hn buffer_deliver.1
  | @endReading b hr hn =>
    rcases hn with ⟨why, hn⟩ | ⟨hn, -⟩ | ⟨f, why, hn, -⟩
    · simp only [Log.note, hn]
      rw [(Frame.Buffer.next_error hn []).1]
      exact hh.congr rfl (absurd · Bool.false_ne_true) rfl rfl
    · obtain ⟨-, hlim, hc⟩ := Frame.Buffer.next_none hn
      simp only [Log.note, hn]
      exact ⟨hc hh.checked, hlim.trans hh.limit, hh.fits, hh.begins, (absurd · Bool.false_ne_true)⟩
    · simp only [Log.note, hn]
      exact hh.frame hr hn rfl

/-! ### Outcomes -/

/-- While the client is open, a call that is sent fails only by the peer's word; and a
call whose number came with a frame has an outcome. -/
structure Attended (codec : Codec) (shut : Bool) (l : Log) (x : Call) : Prop where
  loyal : ∀ out, x.outcome = some out → isTold out = false → shut = false →
    (∀ f, x.phase ≠ .sending f) ∧ ∀ f ∈ l.sent, ∀ h, f.readHeader codec = .ok h → h.seq ≠ x.seq
  settled : x.seq ≠ 0 → ∀ f ∈ l.got, ∀ h, f.readHeader codec = .ok h → h.seq = x.seq → x.outcome ≠ none

/-- All calls are attended to. -/
def Heeded (c : Client) (l : Log) : Prop := ∀ x ∈ c.calls, Attended c.options.codec c.shutdown l x

variable {codec : Codec} {shut : Bool} {out : Except Fault Bytes}

/-- A frame that was handed over has the number of a call. -/
theorem Log.Sound.booking (hl : l.Sound codec) (hf : f ∈ l.sent) (hr : f.readHeader codec = .ok h) :
    ∃ b ∈ l.booked, b.frame? codec = .ok f ∧ b.header = h := by
  obtain ⟨b, hb, hbf⟩ := hl.sent f hf
  exact ⟨b, hb, hbf, Except.ok.inj ((readHeader_frame? hbf).1.symm.trans hr)⟩

/-- A call that was not sent may fail. -/
theorem Attended.fail (hp : ∀ f, x.phase ≠ .sending f)
    (hs : ∀ f ∈ l.sent, ∀ h, f.readHeader codec = .ok h → h.seq ≠ x.seq) (ho : x.outcome ≠ none) :
    Attended codec shut l x :=
  ⟨fun _ _ _ _ => ⟨hp, hs⟩, fun _ _ _ _ _ _ => ho⟩

theorem Attended.told (ho : x.outcome = some out) (ht : isTold out = true) : Attended codec shut l x := by
  refine ⟨fun out' ho' hn _ => ?_, fun _ _ _ _ _ _ hn => ?_⟩
  · rw [ho] at ho'
    rw [← Option.some.inj ho', ht] at hn
    cases hn
  · rw [ho] at hn
    cases hn

theorem Attended.post (ha : Attended codec shut l x) (hp : x.phase = .sending (.ok f)) :
    Attended codec shut { l with sent := l.sent ++ [f] } { x with phase := .sent } :=
  ⟨fun out ho ht hs => absurd hp ((ha.loyal out ho ht hs).1 (.ok f)), ha.settled⟩

theorem Heeded.update {d : Client} {l' : Log} (hf : Faithful c l) (hx : c.call? id = some x)
    (g : Call → Call) (hcalls : d.calls = (c.update id g).calls) (hopt : d.options = c.options)
    (hself : Attended d.options.codec d.shutdown l' (g x))
    (hothers : ∀ y ∈ c.calls, y.id ≠ id → Attended c.options.codec d.shutdown l' y) : Heeded d l' := by
  intro y hy
  rw [hcalls] at hy
  rcases (mem_update hf.ids hx).mp hy with rfl | ⟨hy, hne⟩
  · exact hself
  · exact hopt ▸ hothers y hy hne

theorem Heeded.begin (hh : Heeded c l) (hf : Faithful c l) (hlt : l.booked.length < 2 ^ 64) (args : Datum) :
    Heeded { c with calls := c.calls ++ [opening c.options.codec id target args] }
      { l with begun := (id, target, args) :: l.begun } := by
  intro x hx
  rcases List.mem_append.mp hx with hx | hx
  · exact ⟨(hh x hx).loyal, (hh x hx).settled⟩
  · rw [List.mem_singleton.mp hx, opening]
    cases he : c.options.codec.encode args with
    | ok body => exact ⟨by simp, fun hs => absurd rfl hs⟩
    | error why =>
      refine .fail (by simp) (fun f hm h hr => ?_) (by simp)
      obtain ⟨b, hb, -, rfl⟩ := hf.log.booking hm hr
      exact hf.log.ne_zero hlt hb

/-- A call that gets a number was not answered: what came was for calls before. -/
theorem Heeded.register (hh : Heeded c l) (hf : Faithful c l) (hx : c.call? id = some x)
    (hp : x.phase = .waiting body) (hlt : (l.note c (.register id)).booked.length < 2 ^ 64)
    (hgot : ∀ f ∈ l.got, ∀ h, f.readHeader c.options.codec = .ok h → ∃ b ∈ l.booked, b.seq = h.seq) :
    Heeded (c.enter id x.target body) (l.note c (.register id)) := by
  obtain ⟨hm, hid⟩ := mem_of_call? hx
  obtain ⟨hseq, hout, -⟩ := (hf.calls x hm).waiting body hp
  have hlt' := Nat.lt_of_le_of_lt (length_booked_note c (.register id) l) hlt
  rw [Log.note_register hx hp] at hlt ⊢
  rcases enter_cases c id x.target body with ⟨hc, he⟩ | ⟨hc, he⟩
  · rw [he, if_pos hc]
    have hself : Attended c.options.codec c.shutdown l
        { x with phase := .sent, outcome := some (.error .shutdown) } := by
      refine .fail nofun (fun f hs h hr => ?_) nofun
      obtain ⟨b, hb, -, rfl⟩ := hf.log.booking hs hr
      rw [hseq]
      exact hf.log.ne_zero hlt' hb
    exact .update hf hx (fun y => { y with phase := .sent, outcome := some (.error .shutdown) }) rfl rfl
      hself fun y hy _ => hh y hy
  · rw [if_neg hc] at hlt ⊢
    let l' : Log := { l with booked := ⟨id, c.nextSeq, x.target, body⟩ :: l.booked }
    have hothers : ∀ y ∈ c.calls, y.id ≠ id → Attended c.options.codec c.shutdown l' y := by
      intro y hy _
      exact ⟨(hh y hy).loyal, (hh y hy).settled⟩
    rw [he]
    have hself : Attended c.options.codec c.shutdown l'
        { x with
          seq := c.nextSeq
          phase := .sending (Frame.ofHeader c.options.codec ⟨x.target, c.nextSeq, ""⟩ body) } := by
      refine ⟨fun out ho => absurd (hout.symm.trans ho) nofun, fun _ g hg h hr hs => ?_⟩
      obtain ⟨b, hb, hbs⟩ := hgot g hg h hr
      exact absurd (hbs.trans hs) (hf.ne_next hlt hb)
    exact .update hf hx (fun y => { y with seq := c.nextSeq, phase := .sending _ }) rfl rfl hself hothers

theorem Heeded.post {o : Outbox} (hh : Heeded c l) (hf : Faithful c l)
    (hlt : l.booked.length < 2 ^ 64) (hx : c.call? id = some x) (hp : x.phase = .sending (.ok f)) :
    Heeded { c.update id (fun y => { y with phase := .sent }) with outbox := o }
      { l with sent := l.sent ++ [f] } := by
  obtain ⟨hm, hid⟩ := mem_of_call? hx
  obtain ⟨-, b, hb, hbf⟩ := (hf.calls x hm).sending (.ok f) hp
  have hne0 : x.seq ≠ 0 := hb.seq ▸ hf.log.ne_zero hlt hb.mem
  have hothers : ∀ y ∈ c.calls, y.id ≠ id →
      Attended c.options.codec c.shutdown { l with sent := l.sent ++ [f] } y := by
    intro y hy hne
    refine ⟨fun out ho ht hs => ?_, (hh y hy).settled⟩
    obtain ⟨hns, hsent⟩ := (hh y hy).loyal out ho ht hs
    refine ⟨hns, fun g hg h hr he => ?_⟩
    rcases List.mem_append.mp hg with hg | hg
    · exact hsent g hg h hr he
    · rw [List.mem_singleton.mp hg, (readHeader_frame? hbf).1] at hr
      rw [← Except.ok.inj hr] at he
      have hyx : y.seq = x.seq := by rw [← he, ← hb.seq, Booking.header]
      have hxy : x = y := hf.eq_of_seq hlt hm hy hne0 hyx
      exact hne (hxy ▸ hid)
  exact .update hf hx (fun y => { y with phase := .sent }) rfl rfl ((hh x hm).post hp) hothers

theorem Heeded.withdraw {frame : Except Fault Frame} {why : Fault} (hh : Heeded c l) (hf : Faithful c l)
    (hlt : l.booked.length < 2 ^ 64) (hx : c.call? id = some x) (hp : x.phase = .sending frame) :
    Heeded (c.withdraw id x.seq why) l := by
  obtain ⟨hm, -⟩ := mem_of_call? hx
  obtain ⟨hnew, b, hb, hbf⟩ := (hf.calls x hm).sending frame hp
  rw [Client.withdraw]
  split
  · have hself : Attended c.options.codec c.shutdown l
        { x with phase := .sent, outcome := some (.error why) } := by
      refine .fail (fun _ hp => by cases hp) (fun g hg h hr he => ?_) (Option.some_ne_none _)
      obtain ⟨b', hb', hbf', rfl⟩ := hf.log.booking hg hr
      have hbb : b' = b := hf.log.eq_of_seq hlt hb' hb.mem (he.trans hb.seq.symm)
      rw [hbb, hbf] at hbf'
      exact hnew g hbf' hg
    exact .update hf hx (fun y => { y with phase := .sent, outcome := some (.error why) })
      (update_update fun _ => rfl) rfl hself fun y hy _ => hh y hy
  · have hself : Attended c.options.codec c.shutdown l { x with phase := .sent } :=
      ⟨fun out ho ht hs => absurd hp (((hh x hm).loyal out ho ht hs).1 frame), (hh x hm).settled⟩
    exact .update hf hx (fun y => { y with phase := .sent }) rfl rfl hself fun y hy _ => hh y hy

theorem Heeded.deliver (hh : Heeded c l) (hf : Faithful c l) (hlt : l.booked.length < 2 ^ 64)
    (hr : f.readHeader c.options.codec = .ok h) :
    Heeded (c.deliver h f.body) { l with got := l.got ++ [f] } := by
  -- a call of that number is settled by now, or it is pending and gets the outcome
  have hothers : ∀ y ∈ c.calls, (y.seq = h.seq → y.seq ≠ 0 → y.outcome ≠ none) →
      Attended c.options.codec c.shutdown { l with got := l.got ++ [f] } y := by
    refine fun y hy hdone => ⟨(hh y hy).loyal, fun hs g hg h' hr' he => ?_⟩
    rcases List.mem_append.mp hg with hg | hg
    · exact (hh y hy).settled hs g hg h' hr' he
    · rw [List.mem_singleton.mp hg, hr] at hr'
      exact hdone (by rw [← he, ← Except.ok.inj hr']) hs
  rw [Client.deliver]
  split
  · rename_i hl
    refine fun y hy => hothers y hy fun hs hne ho => ?_
    have hp := hf.awaited y hy hne ho
    exact absurd (List.lookup_eq_none_iff.mp hl _ hp) (by simp [hs])
  · rename_i id hl
    obtain ⟨p, q, hpq, -⟩ := List.lookup_eq_some_iff.mp hl
    obtain ⟨hne, x, hm, rfl, hseq⟩ : h.seq ≠ 0 ∧ ∃ x ∈ c.calls, x.id = id ∧ x.seq = h.seq :=
      hf.pending (h.seq, id) (by simp [hpq])
    have hrest : ∀ y ∈ c.calls, y.id ≠ x.id →
        Attended c.options.codec c.shutdown { l with got := l.got ++ [f] } y := by
      intro y hy hyx
      refine hothers y hy fun hs _ => ?_
      have hxy : x = y := hf.eq_of_seq hlt hm hy (hseq ▸ hne) (hs.trans hseq.symm)
      exact absurd (by rw [hxy]) hyx
    exact .update hf (call?_of_mem hf.ids hm) (fun y => { y with outcome := some (h.outcome f.body) }) rfl rfl
      (.told rfl (isTold_outcome h f.body)) hrest

theorem Heeded.terminate (hh : Heeded c l) : Heeded c.terminate l := by
  intro y hy
  obtain ⟨x, hx, rfl⟩ := List.mem_map.mp hy
  split
  · exact ⟨fun _ _ _ => nofun, fun _ _ _ _ _ _ => nofun⟩
  · exact ⟨fun _ _ _ => nofun, (hh x hx).settled⟩

/-- **All calls are attended to after every event**, if what comes was asked for. -/
theorem Heeded.step (hs : Step c e c') (hf : Faithful c l) (hlt : (l.note c e).booked.length < 2 ^ 64)
    (hgot : ∀ f ∈ l.got, ∀ h, f.readHeader c.options.codec = .ok h → ∃ b ∈ l.booked, b.seq = h.seq)
    (hh : Heeded c l) : Heeded c' (l.note c e) := by
  have hlt' : l.booked.length < 2 ^ 64 := Nat.lt_of_le_of_lt (length_booked_note c e l) hlt
  cases hs with
  | begin _ => exact hh.begin hf hlt' _
  | abandon _ => exact fun y hy => hh y (List.mem_filter.mp hy).1
  | close | hangUp | lose | release _ _ _ | write _ => exact hh
  | receive _ => exact fun y hy => ⟨(hh y hy).loyal, (hh y hy).settled⟩
  | register hx hp _ => exact hh.register hf hx hp hlt hgot
  | post hx hp ho =>
    rw [Log.note_post hx hp, ho]
    exact hh.post hf hlt' hx hp
  | unsent hx hp hw =>
    rw [Log.note_withheld hx hp hw]
    exact hh.withdraw hf hlt' hx hp
  | @deliver f b hd hr hn hread =>
    have hfb : Faithful { c with buffer := b } l := { hf with }
    have hhb : Heeded { c with buffer := b } l := hh
    simp only [Log.note, hn]
    exact hhb.deliver hfb hlt' hread
  | @endReading b hr hn =>
    rcases hn with ⟨why, hn⟩ | ⟨hn, -⟩ | ⟨f, why, hn, hw⟩
    · simp only [Log.note, hn]
      exact hh.terminate
    · simp only [Log.note, hn]
      exact hh.terminate
    · simp only [Log.note, hn]
      refine fun y hy => ⟨fun _ _ _ h => absurd h.symm Bool.false_ne_true, fun hs g hg h hr' he => ?_⟩
      rcases List.mem_append.mp hg with hg | hg
      · exact (hh.terminate y hy).settled hs g hg h hr' he
      · rw [List.mem_singleton.mp hg] at hr'
        cases hw.symm.trans hr'
  | stop _ _ | watch _ => exact hh.terminate

end Client
end Callwire
