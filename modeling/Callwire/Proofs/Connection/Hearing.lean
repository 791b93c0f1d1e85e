/-
# What a connection takes from its stream

The requests of a connection are the frames of its stream after the line of
options: all of them while it reads, and in the end those before the first that
cannot be taken. Where the reader stops there is nothing more to take, whatever
may still come.

Key definitions: `Options.Opens`, `Frame.readable`, `Connection.Reads`.
Key theorems: `Connection.readOptions_cases`, `Connection.Reads.step`.
-/
import Callwire.Proofs.Connection.Accounts

namespace Callwire

open Outbox (bytesOf)

variable {σ : Type}

/-- The bytes begin with a line of these options and go on with the rest. -/
def Options.Opens (input : Bytes) (o : Options) (rest : Bytes) : Prop :=
  ∃ line, input = line ++ 0x0a :: rest ∧ 0x0a ∉ line ∧ line.length ≤ lineLimit ∧
    parse (Frame.Buffer.stripReturn line) = .ok o

theorem Options.Opens.unique {input rest rest' : Bytes} {o o' : Options} (h : Opens input o rest)
    (h' : Opens input o' rest') : o = o' ∧ rest = rest' := by
  obtain ⟨line, rfl, hn, -, hp⟩ := h
  obtain ⟨line', he, hn', -, hp'⟩ := h'
  obtain ⟨rfl, rfl⟩ := Frame.Buffer.line_inj hn hn' he
  rw [hp] at hp'
  cases hp'
  exact ⟨rfl, rfl⟩

theorem Options.Opens.append {input rest : Bytes} {o : Options} (h : Opens input o rest) (bs : Bytes) :
    Opens (input ++ bs) o (rest ++ bs) := by
  obtain ⟨line, rfl, hn, hl, hp⟩ := h
  exact ⟨line, by simp, hn, hl, hp⟩

/-- The frames before the first whose header cannot be read. -/
def Frame.readable (codec : Codec) (fs : List Frame) : List Frame :=
  fs.takeWhile fun f => (f.readHeader codec).isOk

theorem Frame.readable_append {codec : Codec} {fs : List Frame}
    (h : ∀ f ∈ fs, ∃ hd, f.readHeader codec = .ok hd) (gs : List Frame) :
    readable codec (fs ++ gs) = fs ++ readable codec gs := by
  refine List.takeWhile_append_of_pos fun f hf => ?_
  obtain ⟨hd, hh⟩ := h f hf
  simp [hh, Except.isOk, Except.toBool]

namespace Connection

variable {now : Nat} {r r' reg : Registry σ} {c c' : Connection σ} {e : Event} {terms : Terms}
  {j : Journal σ}

/-! ### Before the first request -/

/-- A line of the head is taken, or the connection ends there. -/
theorem readHead_cases {hd : Tunnel.Head} (h : c.readHead hd = some c') :
    ∃ u w stage, ((∃ hd', stage = .head hd') ∨ stage = .options ∨ stage = .gone) ∧
      c' = { c with
        buffer := { c.buffer with unread := u }
        outbox := { c.outbox with wire := w }
        stage := stage } := by
  have hleave : ∀ u w, ∃ u' w' stage, ((∃ hd', stage = .head hd') ∨ stage = .options ∨ stage = .gone) ∧
      ({ c with buffer := { c.buffer with unread := u }, outbox := { c.outbox with wire := w } } :
        Connection σ).leave = { c with
          buffer := { c.buffer with unread := u' }
          outbox := { c.outbox with wire := w' }
          stage := stage } :=
    fun u w => ⟨u, w, .gone, .inr (.inr rfl), rfl⟩
  rw [readHead] at h
  split at h
  · cases h
    exact hleave c.buffer.unread c.outbox.wire
  · split at h
    · cases h
      exact hleave c.buffer.unread c.outbox.wire
    · cases h
  · rename_i line b hl
    obtain ⟨-, -, -, -, -, hb⟩ := Frame.Buffer.takeLine_line hl
    rw [hb] at h
    simp only at h
    split at h
    · rename_i hd' hfeed
      cases h
      exact ⟨_, _, .head hd', .inl ⟨hd', rfl⟩, rfl⟩
    · cases h
      exact hleave b.unread c.outbox.wire
    · rename_i first hfeed
      split at h
      · cases h
        exact hleave b.unread c.outbox.wire
      · split at h
        · cases h
          exact ⟨_, _, .options, .inr (.inl rfl), rfl⟩
        · cases h
          exact hleave b.unread _

/-- The line of options is taken, or it is wrong or will never come. -/
theorem readOptions_cases (h : c.readOptions = some c') :
    (∃ line b o, c.buffer.takeLine Options.lineLimit = (.ok (some line), b) ∧
      Options.parse line = .ok o ∧ c.isServable = true ∧
      c' = { c with buffer := b, stage := .serving ⟨o.codec, o.handleTimeout⟩ .reading }) ∨
    ((∃ b, b.limit = c.buffer.limit ∧ c' = { c with buffer := b, stage := .gone }) ∧
      ((∃ why b, c.buffer.takeLine Options.lineLimit = (.error why, b)) ∨
        (∃ b, c.buffer.takeLine Options.lineLimit = (.ok none, b) ∧ c.ended = true) ∨
        (∃ line b why, c.buffer.takeLine Options.lineLimit = (.ok (some line), b) ∧
          Options.parse line = .error why) ∨
        c.isServable = false)) := by
  rw [readOptions] at h
  split at h
  · rename_i why b hl
    cases h
    exact .inr ⟨⟨c.buffer, rfl, rfl⟩, .inl ⟨why, b, hl⟩⟩
  · rename_i b hl
    split at h
    · rename_i he
      cases h
      exact .inr ⟨⟨c.buffer, rfl, rfl⟩, .inr (.inl ⟨b, hl, he⟩)⟩
    · cases h
  · rename_i line b hl
    have hlim : b.limit = c.buffer.limit := by
      obtain ⟨-, -, -, -, -, hb⟩ := Frame.Buffer.takeLine_line hl
      rw [hb]
    simp only at h
    split at h
    · rename_i why hp
      cases h
      exact .inr ⟨⟨b, hlim, rfl⟩, .inr (.inr (.inl ⟨line, b, why, hl, hp⟩))⟩
    · rename_i o hp
      split at h
      · rename_i hserv
        cases h
        exact .inl ⟨line, b, o, hl, hp, hserv, rfl⟩
      · rename_i hserv
        cases h
        exact .inr ⟨⟨b, hlim, rfl⟩, .inr (.inr (.inr (by simpa [isServable] using hserv)))⟩

theorem opens_of_takeLine {b b' : Frame.Buffer} {line : Bytes} {o : Options}
    (h : b.takeLine Options.lineLimit = (.ok (some line), b')) (hp : Options.parse line = .ok o) :
    Options.Opens b.unread o b'.unread := by
  obtain ⟨pre, hu, hn, hl, rfl, -⟩ := Frame.Buffer.takeLine_line h
  exact ⟨pre, hu, hn, hl, hp⟩

/-! ### Requests -/

/-- The bytes that an event brings. -/
def Event.bytes : Event → Bytes
  | .receive bs => bs
  | _ => []

theorem Event.bytes_eq_nil (he : e.isOwn = true) : e.bytes = [] := by
  cases e with
  | receive bs => cases he
  | _ => rfl

theorem input_note : (j.note r c e c').input = j.input ++ e.bytes := by
  have hand : ∀ (o : Outbox) (f : Frame), (j.handOver o f).input = j.input := by
    intro o f
    rw [Journal.handOver]
    split <;> rfl
  cases e with
  | receive bs => rfl
  | read =>
    simp only [Journal.note, Event.bytes, List.append_nil]
    split
    · split <;> rfl
    · rfl
  | refuse =>
    simp only [Journal.note, Event.bytes, List.append_nil]
    split
    · exact hand _ _
    · rfl
  | post t =>
    simp only [Journal.note, Event.bytes, List.append_nil]
    split
    · exact hand _ _
    · rfl
  | finish t =>
    simp only [Journal.note, Event.bytes, List.append_nil]
    split <;> rfl
  | expire t =>
    simp only [Journal.note, Event.bytes, List.append_nil]
    split <;> rfl
  | _ => simp [Journal.note, Event.bytes]

/-- The frames `fs` were taken from the stream `rest`. While the connection reads,
the others are in front; once it has stopped there are no others. -/
structure Reads (codec : Codec) (c : Connection σ) (fs : List Frame) (rest : Bytes) : Prop where
  checked : c.buffer.Checked
  fits : ∀ f ∈ fs, f.Fits c.buffer.limit
  begins : bytesOf fs <+: rest
  front : c.intake ≠ .stopped → rest = bytesOf fs ++ c.buffer.front
  whole : c.intake = .stopped → ∀ more, (c.ended = true → more = []) →
    Frame.readable codec (Frame.parse c.buffer.limit (rest ++ more)).1 = fs

variable {fs : List Frame} {rest : Bytes} {codec : Codec}

theorem Reads.receive (h : c.Reads codec fs rest) (he : c.ended = false) (bs : Bytes) :
    { c with buffer := c.buffer.extend bs }.Reads codec fs (rest ++ bs) := by
  refine ⟨h.checked.extend bs, h.fits, h.begins.trans (List.prefix_append _ _), fun hi => ?_,
    fun hi more _ => ?_⟩
  · rw [Frame.Buffer.front_extend, h.front hi, List.append_assoc]
  · rw [List.append_assoc]
    exact h.whole hi (bs ++ more) (by simp [he])

theorem Reads.congr (h : c.Reads codec fs rest) {d : Connection σ} (hb : d.buffer = c.buffer)
    (hi : c.intake ≠ .stopped) (hi' : d.intake ≠ .stopped) : d.Reads codec fs rest :=
  ⟨hb ▸ h.checked, hb ▸ h.fits, h.begins, fun _ => hb ▸ h.front hi, fun hs => absurd hs hi'⟩

/-- A frame that is taken was the next one. -/
theorem Reads.frame (h : c.Reads codec fs rest) (hi : c.intake ≠ .stopped) {f : Frame}
    {b : Frame.Buffer} (hn : c.buffer.next = (.ok (some f), b)) {d : Connection σ}
    (hb : d.buffer = b) (hi' : d.intake ≠ .stopped) : d.Reads codec (fs ++ [f]) rest := by
  obtain ⟨hf, hfit, haw, hlim⟩ := Frame.Buffer.next_frame hn
  have hrest : rest = bytesOf (fs ++ [f]) ++ d.buffer.front := by
    rw [h.front hi, hf, hb, Frame.bytesOf_concat, List.append_assoc]
  refine ⟨hb ▸ Frame.Buffer.checked_of_awaited_eq_none haw, ?_, ?_, fun _ => hrest,
    fun hs => absurd hs hi'⟩
  · intro g hg
    rw [hb, hlim]
    rcases List.mem_append.mp hg with hg | hg
    · exact h.fits g hg
    · rw [List.mem_singleton.mp hg]
      exact hfit h.checked
  · rw [hrest]
    exact List.prefix_append _ _

/-- A frame whose header cannot be read is the end. -/
theorem Reads.unreadable (h : c.Reads codec fs rest) (hi : c.intake ≠ .stopped)
    (hall : ∀ f ∈ fs, ∃ hd, f.readHeader codec = .ok hd) {f : Frame} {b : Frame.Buffer}
    (hn : c.buffer.next = (.ok (some f), b)) {why : Fault} (hw : f.readHeader codec = .error why)
    {d : Connection σ} (hb : d.buffer = b) (hi' : d.intake = .stopped) : d.Reads codec fs rest := by
  obtain ⟨hf, hfit, haw, hlim⟩ := Frame.Buffer.next_frame hn
  refine ⟨hb ▸ Frame.Buffer.checked_of_awaited_eq_none haw, by rw [hb, hlim]; exact h.fits, h.begins,
    fun hs => absurd hi' hs, fun _ more _ => ?_⟩
  have hstop : ∀ gs, Frame.readable codec (f :: gs) = [] := by
    intro gs
    simp [Frame.readable, hw, Except.isOk, Except.toBool]
  rw [hb, hlim, h.front hi, List.append_assoc, Frame.parse_bytesOf h.fits, hf, List.append_assoc,
    Frame.parse_append (hfit h.checked), Frame.readable_append hall, hstop, List.append_nil]

/-- Lengths that break a limit are the end, and so is the end of the stream. -/
theorem Reads.stop (h : c.Reads codec fs rest) (hi : c.intake ≠ .stopped)
    (hall : ∀ f ∈ fs, ∃ hd, f.readHeader codec = .ok hd) {b : Frame.Buffer}
    (hn : (∃ e, c.buffer.next = (.error e, b)) ∨ (c.buffer.next = (.ok none, b) ∧ c.ended = true))
    {d : Connection σ} (hb : d.buffer = b) (he : d.ended = c.ended) (hi' : d.intake = .stopped) :
    d.Reads codec fs rest := by
  have hnil : Frame.readable codec [] = [] := rfl
  rcases hn with ⟨why, hn⟩ | ⟨hn, hend⟩
  · have hbuf := (Frame.Buffer.next_error hn []).1
    subst hbuf
    refine ⟨hb ▸ h.checked, hb ▸ h.fits, h.begins, fun hs => absurd hi' hs, fun _ more _ => ?_⟩
    rw [hb, h.front hi, List.append_assoc, Frame.parse_bytesOf h.fits,
      (Frame.Buffer.next_error hn more).2, Frame.readable_append hall, hnil, List.append_nil]
  · obtain ⟨hf, hlim, hc⟩ := Frame.Buffer.next_none hn
    refine ⟨hb ▸ hc h.checked, by rw [hb, hlim]; exact h.fits, h.begins, fun hs => absurd hi' hs,
      fun _ more hm => ?_⟩
    have hmore : more = [] := hm (he.trans hend)
    rw [hmore, List.append_nil, hb, hlim, h.front hi, Frame.parse_bytesOf h.fits,
      Frame.Buffer.parse_front hn h.checked, Frame.readable_append hall, hnil, List.append_nil]

theorem Accounts.readable {xs : List (Exchange σ)} (ha : Accounts reg terms c xs) :
    ∀ f ∈ Journal.requests xs, ∃ hd, f.readHeader terms.codec = .ok hd := by
  intro f hf
  obtain ⟨x, hx, rfl⟩ := List.mem_map.mp hf
  exact ⟨x.header, ha.read x (List.mem_reverse.mp hx)⟩

/-- **The requests are the frames of the stream after every event.** -/
theorem Reads.step (h : Step now r c e c' r') (hs : c.terms? = some terms) (hp : r.plan = reg.plan)
    (ha : Accounts reg terms c j.exchanges)
    (hr : c.Reads terms.codec (Journal.requests j.exchanges) rest) :
    c'.Reads terms.codec (Journal.requests (j.note r c e c').exchanges) (rest ++ e.bytes) := by
  cases h with
  | @receive bs he => exact hr.receive he bs
  | head hst _ | options hst _ => simp [terms?, hst] at hs
  | hangUp =>
    simp only [Event.bytes, List.append_nil]
    exact { hr with whole := fun hi more hm => hr.whole hi more fun _ => hm rfl }
  | lose | retire _ | release _ _ _ _ | write _ _ _ =>
    simp only [Event.bytes, List.append_nil]
    exact { hr with }
  | @frame terms' f b hst hn =>
    obtain ⟨rfl, hi⟩ := eq_terms hst hs
    have hi : c.intake ≠ .stopped := intake_ne_stopped hst (by simp)
    simp only [Event.bytes, List.append_nil]
    simp only [Journal.note, hst, hn]
    cases hh : f.readHeader terms'.codec with
    | error why =>
      refine hr.unreadable hi ha.readable hn hh rfl ?_
      simp [intake, dispatch, hh]
    | ok h =>
      obtain ⟨hxr, -, -, -, -, hcases⟩ := begin_cases (c := c) (b := b) hp hh
      have hreq : ∀ x : Exchange σ, x.request = f → Journal.requests (x :: j.exchanges) =
          Journal.requests j.exchanges ++ [f] := by
        intro x hx
        simp [Journal.requests, hx]
      rw [hreq _ hxr]
      refine hr.frame hi hn rfl ?_
      rcases hcases with ⟨job, hc, -, -⟩ | ⟨a, hc, -, -⟩ | ⟨hc, -, -⟩ <;> simp [hc]
  | @stop terms' b hst hn =>
    obtain ⟨rfl, -⟩ := eq_terms hst hs
    have hi : c.intake ≠ .stopped := intake_ne_stopped hst (by simp)
    have hnote : j.note r c .read { c with buffer := b, stage := .serving terms' .stopped } = j := by
      rcases hn with ⟨why, hn⟩ | ⟨hn, -⟩ <;> simp only [Journal.note, hst, hn]
    rw [hnote]
    simp only [Event.bytes, List.append_nil]
    exact hr.stop hi ha.readable hn rfl rfl rfl
  | refuse hst ho =>
    simp only [Journal.note, hst, exchanges_handOver, Event.bytes, List.append_nil]
    exact hr.congr rfl (intake_ne_stopped hst (by simp)) (by simp [intake])
  | drop hst ho =>
    simp only [Journal.note, hst, exchanges_handOver, Event.bytes, List.append_nil]
    exact hr.congr rfl (intake_ne_stopped hst (by simp)) (by simp [intake])
  | start hst hpos =>
    simp only [Journal.note, Journal.requests_enter, Event.bytes, List.append_nil]
    exact hr.congr rfl (intake_ne_stopped hst (by simp)) (by simp [intake])
  | @finish terms' i t call hst hc hdue =>
    simp only [Journal.note, hc, Journal.requests_settle, Event.bytes, List.append_nil]
    cases Answer.frame? terms'.codec call.header ((r.act call.job).1.toReply terms'.codec) <;>
      exact { hr with }
  | @expire terms' i t call hst hc =>
    rw [note_expire hst]
    simp only [Journal.requests_settle, Event.bytes, List.append_nil]
    cases Answer.failure? terms'.codec call.header (.handleTimeout terms'.budget) <;>
      exact { hr with }
  | post hl ho =>
    simp only [Journal.note, hl, exchanges_handOver, Event.bytes, List.append_nil]
    exact { hr with }
  | discard hl ho =>
    simp only [Journal.note, hl, exchanges_handOver, Event.bytes, List.append_nil]
    exact { hr with }

end Connection
end Callwire
