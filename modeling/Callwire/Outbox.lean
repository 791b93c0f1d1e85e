/-
# The queue of frames that are written

Whoever answers or calls hands whole frames to a queue; one writer takes them
from it, up to `Batch.most` at a time, and writes their bytes in order, as many
at once as the stream accepts. So frames never mix, whatever becomes of the
one who handed a frame over. The writer closes its side of the stream once
nobody can hand over more and all bytes are written. A write that fails ends
the writer: what waits is lost and nothing is taken any more.

Two failures are left out: that a stream cannot be flushed when all bytes of a
batch are written, and that it cannot be closed. Both end the writer between
two batches, with whole frames on the stream.

The machine is a total function of the queue and an event, or says that the
event cannot happen now.

Key definitions: `Outbox`, `Outbox.send`, `Outbox.Event`, `Outbox.step`,
`Outbox.ready?`.
-/
import Callwire.Parcel

namespace Callwire

/-- What has become of a writer. -/
inductive WriterState where
  | working
  | closed
  | failed
deriving DecidableEq, Repr

/-- Frames that wait, the batch that is being written, and the bytes written
that the other side has not taken. -/
structure Outbox where
  capacity : Nat := 1024
  queue : List Frame := []
  batch : Batch := .empty
  wire : Bytes := []
  released : Bool := false
  state : WriterState := .working
deriving DecidableEq, Repr

namespace Outbox

/-- What becomes of a frame that is handed over: it is queued, or nobody will
write it, or there is no room yet. -/
inductive Sent where
  | queued (o : Outbox)
  | refused
  | full

/-- Hands over a frame. -/
def send (o : Outbox) (f : Frame) : Sent :=
  if o.state ≠ .working then .refused
  else if o.queue.length < o.capacity then .queued { o with queue := o.queue ++ [f] }
  else .full

/-- What the writer does: it takes a frame into a batch of which nothing is
written yet, writes some bytes of the batch, fails to write, or closes its
side. A write that the stream takes nothing of has failed. -/
inductive Event where
  | take
  | write (n : Nat)
  | fail
  | close
deriving DecidableEq, Repr

/-- The bytes of frames, one after the other. -/
def bytesOf (fs : List Frame) : Bytes := fs.flatMap Frame.toBytes

/-- One thing that the writer does, if it can do it now. -/
def step (o : Outbox) : Event → Option Outbox
  | .take =>
    match o.queue with
    | [] => none
    | f :: queue =>
      if o.state = .working then
        (o.batch.add? (.ofFrame f)).map fun b => { o with batch := b, queue := queue }
      else none
  | .write n =>
    let offered := o.batch.left
    if o.state = .working ∧ 0 < n ∧ n ≤ offered.length then
      some { o with wire := o.wire ++ offered.take n, batch := o.batch.advance n }
    else none
  | .fail =>
    if o.state = .working ∧ o.batch.parcels ≠ [] then
      some { o with state := .failed, batch := .empty, queue := [] }
    else none
  | .close =>
    if o.state = .working ∧ o.released ∧ o.batch.parcels = [] ∧ o.queue = [] then
      some { o with state := .closed }
    else none

/-- What the writer does next when the stream accepts all bytes, or none: it
takes what waits as long as the batch has room. -/
def ready? (o : Outbox) (accepts : Bool) : Option Event :=
  if o.state ≠ .working then none
  else if o.batch.isOpen ∧ o.queue ≠ [] then some .take
  else if o.batch.parcels ≠ [] then some (if accepts then .write o.batch.left.length else .fail)
  else if o.released then some .close
  else none

/-- The bytes written, taken by the other side. -/
def collect (o : Outbox) : Bytes × Outbox := (o.wire, { o with wire := [] })

/-- What the writer does next can be done. -/
theorem step_isSome_of_ready? {o : Outbox} {accepts : Bool} {e : Event}
    (h : o.ready? accepts = some e) : (o.step e).isSome := by
  unfold ready? at h
  by_cases hs : o.state = .working
  · rw [if_neg (by simpa using hs)] at h
    by_cases hg : o.batch.isOpen = true ∧ o.queue ≠ []
    · rw [if_pos hg, Option.some.injEq] at h
      subst h
      obtain ⟨f, queue, hq⟩ := List.exists_cons_of_ne_nil hg.2
      simp [step, hs, hq, Batch.add?, hg.1]
    · rw [if_neg hg] at h
      by_cases hb : o.batch.parcels = []
      · rw [if_neg (by simpa using hb)] at h
        have hq : o.queue = [] := by
          exact Classical.byContradiction fun hq => hg ⟨Batch.isOpen_of_parcels_eq_nil hb, hq⟩
        by_cases hr : o.released
        · rw [if_pos hr, Option.some.injEq] at h
          subst h
          simp [step, hs, hb, hq, hr]
        · rw [if_neg hr] at h
          simp at h
      · rw [if_pos hb, Option.some.injEq] at h
        have hl : 0 < o.batch.left.length :=
          List.length_pos_iff.mpr fun hl => hb (Batch.left_eq_nil_iff.mp hl)
        cases accepts with
        | true =>
          subst h
          simp [step, hs, hl]
        | false =>
          subst h
          simp [step, hs, hb]
  · rw [if_pos hs] at h
    simp at h

end Outbox
end Callwire
