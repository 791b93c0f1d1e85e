/-
# Reading a stream of chunks

A stream is what will arrive: chunks of bytes, and places where it breaks.
After the last of them it has ended, and a chunk without bytes reads as an end
too. Each read takes one arrival; lines and frames come from one buffer, so
that nothing that arrived together is lost between them.

Key definitions: `Arrival`, `Stream`, `Stream.ofChunks`, `Stream.gather`,
`Stream.readLine`, `Stream.nextFrame`, `Stream.rest`.
-/
import Callwire.Frame.Buffer

namespace Callwire

/-- What one read of a stream gives. -/
inductive Arrival where
  | chunk (bs : Bytes)
  | fault (why : StreamFault)
deriving DecidableEq, Repr

/-- A stream: what waits in the buffer and what is still to arrive. -/
structure Stream where
  buffer : Frame.Buffer := {}
  arrivals : List Arrival := []
deriving DecidableEq, Repr, Inhabited

namespace Stream

/-- The most that one read gives. -/
def readSize : Nat := 65536

/-- Bytes in pieces of at most `readSize`. -/
def pieces (bs : Bytes) : List Arrival :=
  if (bs.drop readSize).isEmpty then [.chunk bs]
  else .chunk (bs.take readSize) :: pieces (bs.drop readSize)
termination_by bs.length
decreasing_by
  rename_i h
  simp only [readSize, List.isEmpty_iff, List.drop_eq_nil_iff] at h
  simp only [List.length_drop, readSize]
  omega

/-- A stream of arrivals, longer chunks read in pieces. -/
def ofArrivals (limit : Nat) (as : List Arrival) : Stream :=
  { buffer := { limit := limit }
    arrivals := as.flatMap fun
      | .chunk bs => pieces bs
      | .fault why => [.fault why] }

/-- A stream of chunks. -/
def ofChunks (limit : Nat) (chunks : List Bytes) : Stream :=
  ofArrivals limit (chunks.map .chunk)

/-- The bytes of the chunks at the front, one after the other, until there are
`need` or a chunk without bytes or a break comes; and the arrivals after them. -/
def gather : Nat → List Arrival → List Bytes → Bytes × List Arrival
  | need, .chunk (b :: bs) :: as, out =>
    let got := (b :: bs).length
    if got < need then gather (need - got) as ((b :: bs) :: out)
    else (((b :: bs) :: out).reverse.flatten, as)
  | _, as, out => (out.reverse.flatten, as)

theorem length_gather_le (need : Nat) (as : List Arrival) (out : List Bytes) :
    (gather need as out).2.length ≤ as.length := by
  induction as generalizing need out with
  | nil => simp [gather]
  | cons a as ih =>
    cases a with
    | fault why => simp [gather]
    | chunk bs =>
      cases bs with
      | nil => simp [gather]
      | cons b bs =>
        simp only [gather]
        split
        · exact Nat.le_succ_of_le (ih ..)
        · simp

theorem length_gather_lt (need : Nat) (b : UInt8) (bs : Bytes) (as : List Arrival) :
    (gather need (.chunk (b :: bs) :: as) []).2.length < as.length + 1 := by
  simp only [gather]
  split
  · exact Nat.lt_succ_of_le (length_gather_le ..)
  · simp

/-- Asks `take` for an answer, and again each time that as many bytes have arrived
as it needs before it can give one, until it does; `ended` says what the end of the
stream means. -/
def readUntil {α : Type} (take : Frame.Buffer → Except Fault (Option α) × Frame.Buffer)
    (need : Frame.Buffer → Nat) (ended : Frame.Buffer → Except Fault (Option α))
    (as : List Arrival) (b : Frame.Buffer) : Except Fault (Option α) × Stream :=
  match take b with
  | (.ok none, b) =>
    match as with
    | [] => (ended b, ⟨b, []⟩)
    | .fault why :: as => (.error (.stream why), ⟨b, as⟩)
    | .chunk [] :: as => (ended b, ⟨b, as⟩)
    | .chunk (x :: xs) :: as =>
      let g := gather (need b) (.chunk (x :: xs) :: as) []
      readUntil take need ended g.2 (b.extend g.1)
  | (r, b) => (r, ⟨b, as⟩)
termination_by as.length
decreasing_by exact length_gather_lt ..

/-- Reads a line of at most `limit` bytes, or nothing if the stream ends before. -/
def readLine (s : Stream) (limit : Nat) : Except Fault (Option Bytes) × Stream :=
  readUntil (fun b => let r := b.takeLine limit; (r.1.mapError .protocol, r.2))
    (fun _ => 1) (fun _ => .ok none) s.arrivals s.buffer

/-- Reads a frame, or nothing if the stream ends between two frames. -/
def nextFrame (s : Stream) : Except Fault (Option Frame) × Stream :=
  readUntil (fun b => let r := b.next; (r.1.mapError .framing, r.2)) Frame.Buffer.missing
    (fun b => if b.isMidFrame then .error (.framing .cutShort) else .ok none) s.arrivals s.buffer

/-- All bytes that are still to be read, up to the first break. -/
def rest (s : Stream) : Bytes :=
  s.buffer.unread ++ go s.arrivals
where
  go : List Arrival → Bytes
    | .chunk bs :: as => bs ++ go as
    | _ => []

end Stream
end Callwire
