/-
# What a client does, case by case

Every event that can happen to a client is one of the cases of `Step`, each with
what must hold for it and what comes of it. The log of a client keeps what its
state forgets: the calls that callers began, those that got a number, the frames
that were handed to the outbox, and the bytes and frames that came back.

Key definitions: `Client.Step`, `Booking`, `Client.Log`, `Log.note`.
Key theorems: `Client.Step.of_step`.
-/
import Callwire.Client
import Callwire.Proofs.Answers
import Callwire.Proofs.Outbox

namespace Callwire

/-- A call that got a number: who calls what, and the encoded argument. -/
structure Booking where
  id : Nat
  seq : UInt64
  target : String
  body : Bytes
deriving DecidableEq, Repr

/-- What happened to a client: what its callers asked for and what got a number,
last first, the frames that were handed to the outbox in this order, and the bytes
and the frames that came. -/
structure Client.Log where
  begun : List (Nat × String × Datum) := []
  booked : List Booking := []
  sent : List Frame := []
  heard : Bytes := []
  got : List Frame := []

namespace Client

/-- A call that was just begun. -/
def opening (codec : Codec) (id : Nat) (target : String) (args : Datum) : Call :=
  match codec.encode args with
  | .ok body => { id := id, target := target, phase := .waiting body }
  | .error why =>
    { id := id, target := target, phase := .sent, outcome := some (.error (.codec why)) }

/-- Nothing is sent of a call that has a number, and why: it has no frame, or the outbox
takes none. -/
def Withheld (c : Client) (frame : Except Fault Frame) (why : Fault) : Prop :=
  frame = .error why ∨ ∃ f, frame = .ok f ∧ c.outbox.send f = .refused ∧ why = .shutdown

/-- What an event does to a client, case by case. -/
inductive Step (c : Client) : Event → Client → Prop where
  | begin {id : Nat} {target : String} {args : Datum} (hn : c.call? id = none) :
      Step c (.begin id target args)
        { c with calls := c.calls ++ [opening c.options.codec id target args] }
  | abandon {id : Nat} {x : Call} (hx : c.call? id = some x) : Step c (.abandon id) (c.abandon x)
  | close : Step c .close { c with closing := true }
  | receive {bs : Bytes} (he : c.ended = false) :
      Step c (.receive bs) { c with buffer := c.buffer.extend bs }
  | hangUp : Step c .hangUp { c with ended := true }
  | lose : Step c .lose { c with lost := true }
  | register {id : Nat} {x : Call} {body : Bytes} (hx : c.call? id = some x)
      (hp : x.phase = .waiting body) (hs : c.isSending = false) :
      Step c (.register id) (c.enter id x.target body)
  | post {id : Nat} {x : Call} {f : Frame} {o : Outbox} (hx : c.call? id = some x)
      (hp : x.phase = .sending (.ok f)) (ho : c.outbox.send f = .queued o) :
      Step c (.post id) { c.update id (fun y => { y with phase := .sent }) with outbox := o }
  | unsent {id : Nat} {x : Call} {frame : Except Fault Frame} {why : Fault}
      (hx : c.call? id = some x) (hp : x.phase = .sending frame) (hw : c.Withheld frame why) :
      Step c (.post id) (c.withdraw id x.seq why)
  | deliver {f : Frame} {b : Frame.Buffer} {h : Header} (hr : c.receiving = true)
      (hn : c.buffer.next = (.ok (some f), b)) (hh : f.readHeader c.options.codec = .ok h) :
      Step c .read ({ c with buffer := b }.deliver h f.body)
  | endReading {b : Frame.Buffer} (hr : c.receiving = true)
      (hn : (∃ why, c.buffer.next = (.error why, b)) ∨
        (c.buffer.next = (.ok none, b) ∧ c.ended = true) ∨
        ∃ f why, c.buffer.next = (.ok (some f), b) ∧ f.readHeader c.options.codec = .error why) :
      Step c .read { c with buffer := b }.endReading
  | stop (hc : c.closing = true) (hr : c.receiving = true) : Step c .stop c.endReading
  | release (hc : c.closing = true) (hs : c.shutdown = true) (hn : c.isSending = false) :
      Step c .release { c with outbox := { c.outbox with released := true } }
  | watch (hf : c.outbox.state = .failed) : Step c .watch c.terminate
  | write {e : Outbox.Event} {o : Outbox} (ho : c.outbox.step e = some o) :
      Step c (.write e) { c with outbox := o }

variable {c c' : Client} {e : Event}

theorem Step.of_post {id : Nat} (h : c.step (.post id) = some c') : Step c (.post id) c' := by
  simp only [step] at h
  split at h
  · rename_i id' target seq why out hx
    cases h
    exact .unsent hx rfl (.inl rfl)
  · rename_i id' target seq f out hx
    split at h
    · rename_i o ho
      cases h
      exact .post hx rfl ho
    · cases h
    · rename_i ho
      cases h
      exact .unsent hx rfl (.inr ⟨f, rfl, ho, rfl⟩)
  · cases h

theorem Step.of_read (h : c.step .read = some c') : Step c .read c' := by
  simp only [step, readFrame] at h
  split at h
  · rename_i hr
    split at h
    · rename_i why b hn
      cases h
      exact .endReading hr (.inl ⟨why, hn⟩)
    · rename_i b hn
      split at h
      · rename_i he
        cases h
        exact .endReading hr (.inr (.inl ⟨hn, he⟩))
      · cases h
    · rename_i f b hn
      split at h
      · rename_i why hh
        cases h
        exact .endReading hr (.inr (.inr ⟨f, why, hn, hh⟩))
      · rename_i hd hh
        cases h
        exact .deliver hr hn hh
  · cases h

/-- **There are no other cases.** -/
theorem Step.of_step (h : c.step e = some c') : Step c e c' := by
  cases e with
  | begin id target args =>
    simp only [step] at h
    split at h
    · cases h
    · rename_i hn
      cases h
      exact .begin (by simpa using hn)
  | abandon id =>
    obtain ⟨x, hx, hc⟩ := Option.map_eq_some_iff.mp h
    cases hc
    exact .abandon hx
  | close =>
    cases h
    exact .close
  | receive bs =>
    simp only [step] at h
    split at h
    · cases h
    · rename_i he
      cases h
      exact .receive (by simpa using he)
  | hangUp =>
    cases h
    exact .hangUp
  | lose =>
    cases h
    exact .lose
  | register id =>
    simp only [step] at h
    split at h
    · rename_i id' target seq body out hx
      split at h
      · cases h
      · rename_i hs
        cases h
        exact .register hx rfl (by simpa using hs)
    · cases h
  | post id => exact .of_post h
  | read => exact .of_read h
  | stop =>
    simp only [step] at h
    split at h
    · rename_i hc
      cases h
      exact .stop hc.1 hc.2
    · cases h
  | release =>
    simp only [step] at h
    split at h
    · rename_i hc
      cases h
      exact .release hc.1 hc.2.1 (by simpa using hc.2.2.1)
    · cases h
  | watch =>
    simp only [step] at h
    split at h
    · rename_i hc
      cases h
      exact .watch hc.1
    · cases h
  | write w =>
    simp only [step] at h
    rw [Option.ite_none_right_eq_some] at h
    obtain ⟨o, ho, hm⟩ := Option.map_eq_some_iff.mp h.2
    cases hm
    exact .write ho

/-! ### The log -/

namespace Log

/-- What an event adds to the log of a client that is `c` before it. -/
def note (c : Client) (e : Event) (l : Log) : Log :=
  match e with
  | .begin id target args => { l with begun := (id, target, args) :: l.begun }
  | .receive bs => { l with heard := l.heard ++ bs }
  | .register id =>
    match c.call? id with
    | some ⟨_, target, _, .waiting body, _⟩ =>
      if c.outbox.released ∨ c.closing ∨ c.shutdown then l
      else { l with booked := ⟨id, c.nextSeq, target, body⟩ :: l.booked }
    | _ => l
  | .post id =>
    match c.call? id with
    | some ⟨_, _, _, .sending (.ok f), _⟩ =>
      match c.outbox.send f with
      | .queued _ => { l with sent := l.sent ++ [f] }
      | _ => l
    | _ => l
  | .read =>
    match c.buffer.next.1 with
    | .ok (some f) => { l with got := l.got ++ [f] }
    | _ => l
  | _ => l

variable {l : Log}

theorem note_register {id : Nat} {x : Call} {body : Bytes} (hx : c.call? id = some x)
    (hp : x.phase = .waiting body) :
    l.note c (.register id) =
      if c.outbox.released ∨ c.closing ∨ c.shutdown then l
      else { l with booked := ⟨id, c.nextSeq, x.target, body⟩ :: l.booked } := by
  obtain ⟨xid, target, seq, phase, out⟩ := x
  simp only at hp
  subst hp
  simp only [note, hx]

theorem note_post {id : Nat} {x : Call} {f : Frame} (hx : c.call? id = some x)
    (hp : x.phase = .sending (.ok f)) :
    l.note c (.post id) =
      match c.outbox.send f with
      | .queued _ => { l with sent := l.sent ++ [f] }
      | _ => l := by
  obtain ⟨xid, target, seq, phase, out⟩ := x
  simp only at hp
  subst hp
  simp only [note, hx]

theorem note_withheld {id : Nat} {x : Call} {frame : Except Fault Frame} {why : Fault}
    (hx : c.call? id = some x) (hp : x.phase = .sending frame) (hw : c.Withheld frame why) :
    l.note c (.post id) = l := by
  obtain ⟨xid, target, seq, phase, out⟩ := x
  simp only at hp
  subst hp
  obtain rfl | ⟨f, rfl, ho, -⟩ := hw
  · simp only [note, hx]
  · simp only [note, hx, ho]

end Log
end Client
end Callwire
