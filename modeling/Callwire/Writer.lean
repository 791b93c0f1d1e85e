/-
# A writer and the handles on it

Any number of handles lead to the queue of one writer. A handle can be copied and dropped,
and a frame can be sent by it: the one who sends waits as long as there is no room, and is
told that nobody will write the frame once the writer has ended. Dropping the last handle
releases the writer.

Key definitions: `Writer`, `Writer.Event`, `Writer.answer?`, `Writer.step`.
-/
import Callwire.Outbox

namespace Callwire

/-- A writer with its queue, and the number of handles on it. -/
structure Writer where
  outbox : Outbox
  handles : Nat := 1
deriving DecidableEq, Repr

namespace Writer

/-- What can happen: a handle is copied or dropped, someone sends a frame, or the writer
does something. -/
inductive Event where
  | clone
  | drop
  | send (f : Frame)
  | write (e : Outbox.Event)

/-- A writer that was just made, with one handle on it. -/
def start (capacity : Nat) : Writer := { outbox := { capacity := capacity } }

/-- What the one is told who sends a frame, or nothing while there is no room. -/
def answer? (w : Writer) (f : Frame) : Option (Except Fault Unit) :=
  match w.outbox.send f with
  | .queued _ => some (.ok ())
  | .refused => some (.error .shutdown)
  | .full => none

/-- What an event makes of a writer, if it can happen. -/
def step (w : Writer) : Event → Option Writer
  | .clone => if w.handles = 0 then none else some { w with handles := w.handles + 1 }
  | .drop =>
    match w.handles with
    | 0 => none
    | 1 => some { outbox := { w.outbox with released := true }, handles := 0 }
    | n + 2 => some { w with handles := n + 1 }
  | .send f =>
    if w.handles = 0 then none
    else match w.outbox.send f with
      | .queued o => some { w with outbox := o }
      | .refused => some w
      | .full => none
  | .write e => (w.outbox.step e).map fun o => { w with outbox := o }

/-- The writer after an event, or as it was if the event cannot happen. -/
def apply (w : Writer) (e : Event) : Writer := (w.step e).getD w

/-- A writer after some events. -/
def run (capacity : Nat) (es : List Event) : Writer := es.foldl apply (start capacity)

end Writer
end Callwire
