/-
# Both ends of a wire agree

What the connection has heard are the first of the bytes that the client has said:
its options and the frames of its calls. What the client has heard are the first of
the bytes of the answers. So the connection goes by the client's codec, its requests
are calls of the client in the order in which they were sent, and every frame that
the client gets is the answer to one of them.

Key definitions: `Ends.Sound`, `Ends.Regular`.
Key theorems: `Ends.Sound.move`, `Ends.Regular.move`, `Ends.Sound.requests_prefix`,
`Ends.Sound.got_prefix`, `Network.agree`.
-/
import Callwire.Proofs.Network.Pair

namespace Callwire

open Outbox (bytesOf)

variable {σ : Type}

/-- What a server goes by after a line of these options. -/
def Options.terms (o : Options) : Terms := ⟨o.codec, o.received.handleTimeout⟩

namespace Ends

/-- What holds of both ends at all times, without regard to single calls. -/
structure Sound (reg : Registry σ) (k : Server.Config) (o : Options) (v : Ends σ) : Prop where
  options : v.client.options = { o with magic := Options.magicNumber }
  kept : Connection.Kept reg k v.connection v.journal
  hears : v.client.Hears v.log
  up : v.client.outbox.Carries v.journal.input (v.client.options.line ++ bytesOf v.log.sent)
  down : v.connection.outbox.Carries v.log.heard (bytesOf v.journal.posted)

variable {reg : Registry σ} {k : Server.Config} {o : Options} {v v' : Ends σ} {x : Exchange σ}
  {f : Frame}

/-- **Both ends agree after every move.** -/
theorem Sound.move (hm : v.Move reg v') (h : v.Sound reg k o) : v'.Sound reg k o := by
  cases hm with
  | rest => exact h
  | @call e c' he hc =>
    have hs := Client.Step.of_step hc
    have hopt := Client.options_step hs
    refine ⟨hopt.trans h.options, h.kept, h.hears.step hs, ?_, ?_⟩
    · simp only [hopt]
      exact Client.carries_step hs h.up
    · simp only [Client.heard_note, he, List.append_nil]
      exact h.down
  | @serve now r r' e k' hp he hk =>
    refine ⟨h.options, h.kept.step hk hp, h.hears, ?_, Connection.carries_step hk h.kept h.down⟩
    simp only [Connection.input_note, he, List.append_nil]
    exact h.up
  | @up m now r r' k' hp hk =>
    refine ⟨h.options, h.kept.step hk hp, { h.hears with }, ?_, Connection.carries_step hk h.kept h.down⟩
    simp only [Connection.input_note]
    exact h.up.collect m
  | @down m c' hc =>
    have hs := Client.Step.of_step hc
    have hopt := Client.options_step hs
    refine ⟨hopt.trans h.options, h.kept.wire _, h.hears.step hs, ?_, ?_⟩
    · simp only [hopt]
      exact Client.carries_step hs h.up
    · simp only [Client.heard_note]
      exact h.down.collect m

/-! ### What the connection reads -/

/-- A connection with a request goes by the client's codec, and its requests are on
the client's stream. -/
theorem Sound.served (h : v.Sound reg k o) (hx : x ∈ v.journal.exchanges) :
    Connection.Served reg k o.terms v.connection v.journal ∧
      bytesOf (Journal.requests v.journal.exchanges) <+: bytesOf v.log.sent := by
  cases hs : v.connection.terms? with
  | none =>
    rw [(h.kept.unserved hs).exchanges] at hx
    cases hx
  | some terms =>
    have hv := h.kept.served hs
    obtain ⟨o', rest, ⟨line, hin, hn, hl, hp⟩, rfl, hr⟩ := hv.heard
    obtain ⟨more, hmore⟩ := h.up.prefix_all
    rw [hin, h.options, Options.line, List.append_assoc, List.append_assoc] at hmore
    obtain ⟨rfl, hrest⟩ := Frame.Buffer.line_inj hn (Options.not_mem_text rfl) hmore
    rw [Options.stripReturn_text, Options.parse_text rfl] at hp
    cases hp
    exact ⟨hv, hr.begins.trans ⟨more, hrest⟩⟩

/-- **Requests are the calls that were sent, in order.** -/
theorem Sound.requests_prefix (h : v.Sound reg k o) (hf : v.client.Faithful v.log) :
    Journal.requests v.journal.exchanges <+: v.log.sent := by
  cases hj : v.journal.exchanges with
  | nil => exact List.nil_prefix
  | cons x xs =>
    obtain ⟨hv, hp⟩ := h.served (x := x) (by rw [hj]; exact List.mem_cons_self)
    rw [hj] at hp
    obtain ⟨o', rest, -, -, hr⟩ := hv.heard
    rw [hj] at hr
    refine Frame.prefix_of_bytesOf (fun f hf => (hr.fits f hf).worded) (fun f hs => ?_) hp
    obtain ⟨b, -, hb⟩ := hf.log.sent f hs
    exact (Frame.fits_ofHeader hb).worded

/-- Every request is a call that was taken. -/
theorem Sound.booking (h : v.Sound reg k o) (hf : v.client.Faithful v.log) (hx : x ∈ v.journal.exchanges) :
    ∃ b ∈ v.log.booked, b.frame? o.codec = .ok x.request ∧ b.header = x.header ∧
      x.request.body = b.body := by
  obtain ⟨hv, -⟩ := h.served hx
  have hopt : v.client.options.codec = o.codec := by rw [h.options]
  have hm : x.request ∈ v.log.sent := (h.requests_prefix hf).subset
    (List.mem_map.mpr ⟨x, List.mem_reverse.mpr hx, rfl⟩)
  have hr : x.request.readHeader v.client.options.codec = .ok x.header :=
    hopt ▸ hv.accounts.read x hx
  obtain ⟨b, hb, hbf, hbh⟩ := hf.log.booking hm hr
  exact ⟨b, hb, hopt ▸ hbf, hbh, (Client.readHeader_frame? hbf).2⟩

/-! ### What the client hears -/

/-- **The frames that come are the answers, in the order in which they were posted.** -/
theorem Sound.got_prefix (h : v.Sound reg k o) : v.log.got <+: v.journal.posted := by
  have hp : bytesOf v.log.got <+: bytesOf v.journal.posted := h.hears.begins.trans h.down.prefix_all
  refine Frame.prefix_of_bytesOf (fun f hf => (h.hears.fits f hf).worded) (fun f hf => ?_) hp
  cases hs : v.connection.terms? with
  | none =>
    rw [(h.kept.unserved hs).posted] at hf
    cases hf
  | some terms =>
    have hv := h.kept.served hs
    obtain ⟨x, hx, ha⟩ := hv.delivered.mem_posted hf
    exact (hv.accounts.fits hx ha).worded

/-- An exchange that has an answer was decided, and its answer says so. -/
theorem Sound.verdict (h : v.Sound reg k o) (hx : x ∈ v.journal.exchanges) (ha : x.answer = some f) :
    ∃ w, x.verdict = some w ∧ x.Grounds reg o.terms w ∧
      f.readHeader o.codec = .ok (Answer.header o.codec x.header (w.reply o.codec)) ∧
      f.body = Answer.body o.codec x.header (w.reply o.codec) := by
  have hd := (h.served hx).1.accounts.decided x hx
  cases hw : x.verdict with
  | none =>
    simp only [Exchange.Decided, hw, ha] at hd
    cases hd
  | some w =>
    simp only [Exchange.Decided, hw, ha] at hd
    exact ⟨w, rfl, hd.2, Answer.readHeader_frame? hd.1.symm⟩

/-- Every frame that comes is the answer to a request, and has its number. -/
theorem Sound.answered (h : v.Sound reg k o) (hf : f ∈ v.log.got) {hd : Header}
    (hr : f.readHeader o.codec = .ok hd) :
    ∃ x ∈ v.journal.exchanges, x.answer = some f ∧ x.header.seq = hd.seq := by
  have hp := h.got_prefix.subset hf
  cases hs : v.connection.terms? with
  | none =>
    rw [(h.kept.unserved hs).posted] at hp
    cases hp
  | some terms =>
    obtain ⟨x, hx, ha⟩ := (h.kept.served hs).delivered.mem_posted hp
    obtain ⟨w, -, -, hread, -⟩ := h.verdict hx ha
    refine ⟨x, hx, ha, ?_⟩
    rw [← Except.ok.inj (hread.symm.trans hr), Answer.seq_header]

/-- What holds of the client while numbers do not come again. -/
def Regular (v : Ends σ) : Prop :=
  v.log.booked.length < 2 ^ 64 → v.client.Faithful v.log ∧ v.client.Heeded v.log

/-- **Calls are regular after every move.** -/
theorem Regular.move (hm : v.Move reg v') (hs : v.Sound reg k o) (h : v.Regular) : v'.Regular := by
  have hclient : ∀ {e : Client.Event} {c' : Client}, v.client.step e = some c' →
      (v.log.note v.client e).booked.length < 2 ^ 64 →
      c'.Faithful (v.log.note v.client e) ∧ c'.Heeded (v.log.note v.client e) := by
    intro e c' hc hlt
    have hstep := Client.Step.of_step hc
    obtain ⟨hf, hh⟩ := h (Nat.lt_of_le_of_lt (Client.length_booked_note v.client e v.log) hlt)
    refine ⟨hf.step hstep hlt, hh.step hstep hf hlt fun f hg hd hr => ?_⟩
    rw [hs.options] at hr
    obtain ⟨x, hx, -, hseq⟩ := hs.answered hg hr
    obtain ⟨b, hb, -, hbh, -⟩ := hs.booking hf hx
    exact ⟨b, hb, by rw [← hseq, ← hbh, Booking.header]⟩
  cases hm with
  | rest | serve _ _ _ => exact h
  | call he hc => exact hclient hc
  | up hp hk => exact fun hlt => ⟨{ (h hlt).1 with }, (h hlt).2⟩
  | down hc => exact hclient hc

end Ends

namespace Network

/-- **In every run of a pair both ends agree and calls are regular.** -/
theorem agree (s : Server σ) (o : Options) (es : List Event) :
    ∃ s' v, (follow s o es).Shows s.registry s.connections.length s' v ∧
      v.Sound s.registry s.config o ∧ v.Regular := by
  refine follow_keeps s o es (P := fun v => v.Sound s.registry s.config o ∧ v.Regular) ⟨?_, fun _ => ⟨?_, ?_⟩⟩
    fun v v' hm ⟨hs, hr⟩ => ⟨hs.move hm, hr.move hm hs⟩
  · refine ⟨rfl, Server.kept_fresh _ _, ?_, ?_, ⟨[], rfl, fun _ => rfl⟩⟩
    · exact ⟨nofun, rfl, by simp, List.nil_prefix, fun _ => rfl⟩
    · exact ⟨[], by simp [Client.start, bytesOf], fun _ => rfl⟩
  · exact ⟨⟨rfl, by simp, List.nodup_nil⟩, rfl, List.nodup_nil, by simp [Client.start],
      by simp [Client.start], by simp [Client.start]⟩
  · simp [Client.Heeded, Client.start]

end Network
end Callwire
