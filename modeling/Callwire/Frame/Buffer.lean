/-
# Bytes that wait to become frames

A buffer holds the bytes that have arrived and were not yet taken, and the
lengths of the frame that is being waited for once they are known. What it
gives depends on the bytes alone and not on how they were cut when they came.
Lengths that break a limit are not taken: the buffer stays as it is and says
so again each time it is asked. Lines, which come before the first frame, are
taken from the same bytes.

Key definitions: `Frame.Buffer`, `Buffer.extend`, `Buffer.next`, `Buffer.push`,
`Buffer.takeLine`, `Frame.parse`.
-/
import Callwire.Frame

namespace Callwire
namespace Frame

/-- Bytes that wait, the lengths already taken from their front, and the
greatest size of a body. -/
structure Buffer where
  unread : Bytes := []
  awaited : Option Lengths := none
  limit : Nat := maxBodySize
deriving DecidableEq, Repr, Inhabited

namespace Buffer

/-- Adds bytes at the end. -/
def extend (b : Buffer) (bs : Bytes) : Buffer := { b with unread := b.unread ++ bs }

/-- Takes the lengths of the next frame, if they are not known and are there. -/
def advance (b : Buffer) : Except FramingFault Buffer :=
  match b.awaited with
  | some _ => .ok b
  | none =>
    match Lengths.decode? b.unread with
    | none => .ok b
    | some l =>
      match l.check b.limit with
      | .error e => .error e
      | .ok () => .ok { b with unread := b.unread.drop Lengths.size, awaited := some l }

/-- Takes the parts of the frame that is waited for, if they are there. -/
def takeParts (b : Buffer) : Option Frame × Buffer :=
  match b.awaited with
  | none => (none, b)
  | some l =>
    match Bytes.split? (l.header + l.body) b.unread with
    | none => (none, b)
    | some (parts, rest) =>
      (some ⟨parts.take l.header, parts.drop l.header⟩,
        { b with unread := rest, awaited := none })

/-- Takes the next frame, if it is there. -/
def next (b : Buffer) : Except FramingFault (Option Frame) × Buffer :=
  match b.advance with
  | .error e => (.error e, b)
  | .ok b =>
    let r := b.takeParts
    (.ok r.1, r.2)

/-- How many bytes must come, at the least, before there is a next frame or a
fault. -/
def missing (b : Buffer) : Nat :=
  match b.awaited with
  | none => Lengths.size - b.unread.length
  | some l => l.header + l.body - b.unread.length

/-- Takes all frames that are there; `out` holds those so far, last first. At
most `fuel` are taken; every frame is a byte or more. -/
def drain : Nat → Buffer → List Frame → Except FramingFault (List Frame) × Buffer
  | 0, b, out => (.ok out.reverse, b)
  | fuel + 1, b, out =>
    match b.next with
    | (.error e, b) => (.error e, b)
    | (.ok none, b) => (.ok out.reverse, b)
    | (.ok (some f), b) => drain fuel b (f :: out)

/-- Adds bytes and takes all frames that are there. Lengths that break a limit
are reported instead of the frames before them. -/
def push (b : Buffer) (bs : Bytes) : Except FramingFault (List Frame) × Buffer :=
  let b := b.extend bs
  drain (b.unread.length + 1) b []

/-- A line without a carriage return at its end. -/
def stripReturn (line : Bytes) : Bytes :=
  if line.getLast? = some 0x0d then line.dropLast else line

/-- Takes a line of at most `limit` bytes, if its end is there. -/
def takeLine (b : Buffer) (limit : Nat) : Except ProtocolFault (Option Bytes) × Buffer :=
  match b.unread.findIdx? (· == 0x0a) with
  | some i =>
    if limit < i then (.error (.lineTooLong limit), b)
    else (.ok (some (stripReturn (b.unread.take i))), { b with unread := b.unread.drop (i + 1) })
  | none => if limit < b.unread.length then (.error (.lineTooLong limit), b) else (.ok none, b)

/-- Part of a frame is here. -/
def isMidFrame (b : Buffer) : Bool := b.awaited.isSome || !b.unread.isEmpty

end Buffer

/-- How the frames of a whole stream end: between two frames, within one, or at
lengths that break a limit. -/
inductive Ending where
  | clean
  | cutShort
  | violation (why : FramingFault)
deriving DecidableEq, Repr

/-- The frames of a whole stream and how they end, read from its front: the
lengths, then both parts, then the rest of the stream. -/
def parse (limit : Nat) (bs : Bytes) : List Frame × Ending :=
  match bs with
  | [] => ([], .clean)
  | b :: rest =>
    match Lengths.decode? (b :: rest) with
    | none => ([], .cutShort)
    | some l =>
      match l.check limit with
      | .error e => ([], .violation e)
      | .ok () =>
        let parts := (b :: rest).drop Lengths.size
        if parts.length < l.header + l.body then ([], .cutShort)
        else
          let r := parse limit (parts.drop (l.header + l.body))
          (⟨parts.take l.header, (parts.drop l.header).take l.body⟩ :: r.1, r.2)
termination_by bs.length
decreasing_by
  simp only [Lengths.size, List.length_drop, List.length_cons]
  omega

end Frame
end Callwire
