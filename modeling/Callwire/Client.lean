/-
# Clients

One connection carries many calls at once. Calls take turns: the one whose
turn it is gets the next number, enters the table of pending calls under it,
and hands its frame to the outbox; then the next one may. A call whose frame
cannot be built, or that the outbox refuses, leaves the table and fails, unless
something else completed it before. An answer completes the pending call of its
number, and an answer to no pending call is dropped. A caller may give a call
up at any time, and then the call is pending no more.

A client that was closed, or whose stream ended or broke in either direction,
is shut down: all pending calls fail, and later ones fail before they get a
number. Closing still lets the frames go out that are in the outbox.

A client changes by events. Some come from its callers and its peer; the
others happen by themselves, in any order, whenever `step` allows them.

Key definitions: `Client`, `Call`, `Client.Event`, `Client.step`,
`Client.outcome?`, `Client.next?`.
-/
import Callwire.Clock
import Callwire.Options
import Callwire.Outbox

namespace Callwire

/-- How far the sending of a call is: it waits for its turn; it has a number,
and a frame that waits for room in the outbox or the reason that there is none;
or its caller has a handle on it. -/
inductive Call.Phase where
  | waiting (body : Bytes)
  | sending (frame : Except Fault Frame)
  | sent
deriving Repr

/-- A call, and its outcome once it has one. A call that was never pending has
the number zero. -/
structure Call where
  id : Nat
  target : String
  seq : UInt64 := 0
  phase : Call.Phase
  outcome : Option (Except Fault Bytes) := none

/-- A client of one connection. -/
structure Client where
  options : Options
  nextSeq : UInt64 := 1
  calls : List Call := []
  pending : List (UInt64 × Nat) := []
  closing : Bool := false
  shutdown : Bool := false
  buffer : Frame.Buffer := {}
  ended : Bool := false
  lost : Bool := false
  receiving : Bool := true
  outbox : Outbox := {}

namespace Client

/-- What can happen to a client. A caller begins a call, gives one up, or
closes the client; the peer sends bytes, ends its side, or takes no more bytes;
the rest happens by itself. That a client is thrown away without being closed is
left out: nobody can call any more, and the handles that are left fail as those
of a closed client do. -/
inductive Event where
  | begin (id : Nat) (target : String) (args : Datum)
  | abandon (id : Nat)
  | close
  | receive (bs : Bytes)
  | hangUp
  | lose
  | register (id : Nat)
  | post (id : Nat)
  | read
  | stop
  | release
  | watch
  | write (e : Outbox.Event)

/-- The event is not the peer's doing. -/
def Event.isOwn : Event → Bool
  | .receive _ | .hangUp | .lose => false
  | _ => true

/-- The event is the doing of a caller. -/
def Event.isCallers : Event → Bool
  | .begin .. | .abandon _ | .close => true
  | _ => false

/-- A client that has said what it asks for. The magic number is always the
right one. -/
def start (o : Options) : Client :=
  let o := { o with magic := Options.magicNumber }
  { options := o, outbox := { wire := o.line } }

/-- The client still takes calls. -/
def isAvailable (c : Client) : Bool := !c.closing && !c.shutdown

/-- The call of a name that a caller gave it. -/
def call? (c : Client) (id : Nat) : Option Call := c.calls.find? (·.id == id)

/-- The outcome of a call, once it has one. -/
def outcome? (c : Client) (id : Nat) : Option (Except Fault Bytes) :=
  (c.call? id).bind (·.outcome)

/-- The client with one of its calls changed. -/
def update (c : Client) (id : Nat) (f : Call → Call) : Client :=
  { c with calls := c.calls.map fun x => if x.id = id then f x else x }

/-- Gives a call its outcome. -/
def complete (c : Client) (id : Nat) (o : Except Fault Bytes) : Client :=
  c.update id fun x => { x with outcome := some o }

/-- The client without a number among its pending calls. -/
def forget (c : Client) (seq : UInt64) : Client :=
  { c with pending := c.pending.filter (·.1 != seq) }

/-- Shuts the client down: all pending calls fail. -/
def terminate (c : Client) : Client :=
  let failed := c.pending.map (·.2)
  { c with
    shutdown := true
    pending := []
    calls := c.calls.map fun x =>
      if failed.contains x.id then { x with outcome := some (.error .shutdown) } else x }

/-- A call has its turn and waits for room. -/
def isSending (c : Client) : Bool :=
  c.calls.any fun x => match x.phase with
    | .sending _ => true
    | _ => false

/-- The call whose turn it is becomes pending, if the client still takes calls,
whether its frame can be built or not. -/
def enter (c : Client) (id : Nat) (target : String) (body : Bytes) : Client :=
  if c.outbox.released ∨ c.closing ∨ c.shutdown then
    (c.complete id (.error .shutdown)).update id fun x => { x with phase := .sent }
  else
    let seq := c.nextSeq
    let frame := Frame.ofHeader c.options.codec ⟨target, seq, ""⟩ body
    { c with nextSeq := seq + 1, pending := c.pending ++ [(seq, id)] }.update id fun x =>
      { x with seq := seq, phase := .sending frame }

/-- Nothing is sent of a call that has a number: it fails, if it is pending still.
Its number is not used again. -/
def withdraw (c : Client) (id : Nat) (seq : UInt64) (why : Fault) : Client :=
  let d := c.update id fun x => { x with phase := .sent }
  if (c.pending.lookup seq).isSome then (d.forget seq).complete id (.error why) else d

/-- An answer completes the call of its number. -/
def deliver (c : Client) (h : Header) (body : Bytes) : Client :=
  match c.pending.lookup h.seq with
  | none => c
  | some id =>
    (c.forget h.seq).complete id (if h.isError then .error (.remote h.error) else .ok body)

/-- No more is read. -/
def endReading (c : Client) : Client := { c.terminate with receiving := false }

/-- Takes an answer, or finds that no more will come. -/
def readFrame (c : Client) : Option Client :=
  match c.buffer.next with
  | (.error _, b) => some { c with buffer := b }.endReading
  | (.ok none, b) => if c.ended then some { c with buffer := b }.endReading else none
  | (.ok (some f), b) =>
    let c := { c with buffer := b }
    match f.readHeader c.options.codec with
    | .error _ => some c.endReading
    | .ok h => some (c.deliver h f.body)

/-- Gives a call up, whatever it waits for. -/
def abandon (c : Client) (x : Call) : Client :=
  { c.forget x.seq with calls := c.calls.filter (·.id != x.id) }

/-- What an event makes of a client, if it can happen. -/
def step (c : Client) : Event → Option Client
  | .begin id target args =>
    if (c.call? id).isSome then none
    else
      let call : Call := match c.options.codec.encode args with
        | .ok body => { id := id, target := target, phase := .waiting body }
        | .error why =>
          { id := id, target := target, phase := .sent, outcome := some (.error (.codec why)) }
      some { c with calls := c.calls ++ [call] }
  | .abandon id => (c.call? id).map c.abandon
  | .close => some { c with closing := true }
  | .receive bs => if c.ended then none else some { c with buffer := c.buffer.extend bs }
  | .hangUp => some { c with ended := true }
  | .lose => some { c with lost := true }
  | .register id =>
    match c.call? id with
    | some ⟨_, target, _, .waiting body, _⟩ =>
      if c.isSending then none else some (c.enter id target body)
    | _ => none
  | .post id =>
    match c.call? id with
    | some ⟨_, _, seq, .sending (.error why), _⟩ => some (c.withdraw id seq why)
    | some ⟨_, _, seq, .sending (.ok f), _⟩ =>
      match c.outbox.send f with
      | .queued o => some { c.update id (fun x => { x with phase := .sent }) with outbox := o }
      | .full => none
      | .refused => some (c.withdraw id seq .shutdown)
    | _ => none
  | .read => if c.receiving then c.readFrame else none
  | .stop => if c.closing ∧ c.receiving then some c.endReading else none
  | .release =>
    if c.closing ∧ c.shutdown ∧ ¬ c.isSending ∧ ¬ c.outbox.released then
      some { c with outbox := { c.outbox with released := true } }
    else none
  | .watch => if c.outbox.state = .failed ∧ ¬ c.shutdown then some c.terminate else none
  | .write e =>
    let possible := match e with
      | .write _ => !c.lost
      | .fail => c.lost
      | _ => true
    if possible then (c.outbox.step e).map fun o => { c with outbox := o } else none

/-- The client after an event, or as it was if the event cannot happen. -/
def apply (c : Client) (e : Event) : Client := (c.step e).getD c

/-- What the one who closes the client is told: only the first one succeeds. -/
def closeResult (c : Client) : Except Fault Unit :=
  if c.closing then .error .shutdown else .ok ()

/-- The events that may happen by themselves, those of calls first, in the
order in which they began. -/
def candidates (c : Client) : List Event :=
  (c.calls.filterMap fun x => match x.phase with
    | .waiting _ => some (.register x.id)
    | .sending _ => some (.post x.id)
    | .sent => none) ++
  [.read, .stop, .release, .watch] ++ (c.outbox.ready? (!c.lost)).toList.map .write

/-- The client after the first thing that can happen by itself. -/
def next? (c : Client) : Option Client := c.candidates.findSome? c.step

/-- More than the client can do before something arrives. -/
def work (c : Client) : Nat :=
  c.buffer.unread.length + 4 * c.calls.length + 2 * c.outbox.queue.length + 16

/-- The client under a clock. It has no timers. -/
def clockwork : Clockwork Client where
  next? := next?
  timer? _ := none
  moveTo _ c := c
  fuel := work

/-- What a caller reads from the outcome of a call. -/
def readReply (codec : Codec) (shape : Shape) : Except Fault Bytes → Except Fault Datum
  | .error why => .error why
  | .ok body => (codec.decode shape body).mapError .body

end Client
end Callwire
