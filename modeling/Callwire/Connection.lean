/-
# One connection of a server

A connection begins with the head of a tunnel, if it has one, and the options
of its peer. Then it takes one request after the other. A request that names
no method or whose argument cannot be read is answered at once. Any other
counts as a call and waits for a permit; with it, its handler starts, and the
next request is taken. A call that has its outcome, or has none when its
budget is over, hands its answer to the outbox and gives its permit back. A
handler that is too late goes on without a permit: it still acts on its
receiver, and nobody is told.

When the peer ends, or breaks the form of the stream, no more is read. The
calls that have a permit are still answered, and then the connection closes.
A connection whose beginning is wrong closes without an answer, and so does
one whose bounds no queue or no count of permits can have.

A connection changes by events. Some come from its peer; the others happen by
themselves, in any order, whenever `step` allows them.

Key definitions: `Connection`, `Intake`, `Connection.Event`, `Connection.step`,
`Connection.next?`, `Connection.timer?`.
-/
import Callwire.Answer
import Callwire.Options
import Callwire.Outbox
import Callwire.Service.Registry
import Callwire.Tunnel

namespace Callwire

/-- What the options settle for all calls of a connection. -/
structure Terms where
  codec : Codec
  budget : Duration
deriving DecidableEq, Repr

/-- A call whose handler runs: when it will act, and when its answer is due at
the latest. Times are nanoseconds. -/
structure Running (σ : Type) where
  ticket : Nat
  header : Header
  job : Invocation σ
  due : Nat
  deadline : Option Nat

/-- What the reader of requests does: it reads, or hands over the answer to a
request that it rejected, or waits for a permit, or has stopped. -/
inductive Intake (σ : Type) where
  | reading
  | refusing (f : Frame)
  | parked (h : Header) (job : Invocation σ)
  | stopped

/-- How far a connection is. -/
inductive Stage (σ : Type) where
  | head (h : Tunnel.Head)
  | options
  | serving (terms : Terms) (intake : Intake σ)
  | gone

/-- A connection of a server. -/
structure Connection (σ : Type) where
  buffer : Frame.Buffer
  ended : Bool := false
  lost : Bool := false
  stage : Stage σ
  tickets : Nat := 0
  permits : Nat
  running : List (Running σ) := []
  answered : List (Nat × Frame) := []
  detached : List (Running σ) := []
  outbox : Outbox

namespace Connection

variable {σ : Type}

/-- What can happen to a connection. The peer sends bytes, ends its side, or
takes no more bytes; the rest happens by itself. -/
inductive Event where
  | receive (bs : Bytes)
  | hangUp
  | lose
  | read
  | refuse
  | start
  | finish (ticket : Nat)
  | expire (ticket : Nat)
  | retire (ticket : Nat)
  | post (ticket : Nat)
  | release
  | write (e : Outbox.Event)
deriving DecidableEq, Repr

/-- The event is not the peer's doing. -/
def Event.isOwn : Event → Bool
  | .receive _ | .hangUp | .lose => false
  | _ => true

/-- A connection that was just made. -/
def fresh (limit permits capacity : Nat) (tunnelled : Bool) : Connection σ where
  buffer := { limit := limit }
  stage := if tunnelled then .head .empty else .options
  permits := max 1 permits
  outbox := { capacity := capacity }

/-- The running call of a ticket. -/
def call? (t : Nat) (cs : List (Running σ)) : Option (Running σ) := cs.find? (·.ticket == t)

/-- The calls without the one of a ticket. -/
def without (t : Nat) (cs : List (Running σ)) : List (Running σ) := cs.filter (·.ticket != t)

/-- The connection ends here. -/
def leave (c : Connection σ) : Connection σ := { c with stage := .gone }

/-- Takes a line of the tunnel's head. -/
def readHead (c : Connection σ) (h : Tunnel.Head) : Option (Connection σ) :=
  match c.buffer.takeLine Tunnel.lineLimit with
  | (.error _, _) => some c.leave
  | (.ok none, _) => if c.ended then some c.leave else none
  | (.ok (some line), b) =>
    let c := { c with buffer := b }
    match h.feed (Text.ofBytesLossy line) with
    | .more h => some { c with stage := .head h }
    | .tooMany => some c.leave
    | .complete first =>
      if c.lost then some c.leave
      else
        let v := Tunnel.verdict first
        let c := { c with outbox := { c.outbox with wire := c.outbox.wire ++ v.1 } }
        match v.2 with
        | .ok () => some { c with stage := .options }
        | .error _ => some c.leave

/-- The most permits there can be, and the most frames a queue can hold. -/
def mostPermits : Nat := 0x1fffffffffffffff

/-- The queue of answers holds a frame at least, and neither it nor the permits
are more than there can be. -/
def isServable (c : Connection σ) : Bool :=
  0 < c.outbox.capacity && c.outbox.capacity ≤ mostPermits && c.permits ≤ mostPermits

/-- Takes the line of options. -/
def readOptions (c : Connection σ) : Option (Connection σ) :=
  match c.buffer.takeLine Options.lineLimit with
  | (.error _, _) => some c.leave
  | (.ok none, _) => if c.ended then some c.leave else none
  | (.ok (some line), b) =>
    let c := { c with buffer := b }
    match Options.parse line with
    | .error _ => some c.leave
    | .ok o =>
      if c.isServable then some { c with stage := .serving ⟨o.codec, o.handleTimeout⟩ .reading }
      else some c.leave

/-- What becomes of a frame: the reader's next place, and the services with the
call counted. -/
def dispatch (terms : Terms) (r : Registry σ) (f : Frame) : Intake σ × Registry σ :=
  match f.readHeader terms.codec with
  | .error _ => (.stopped, r)
  | .ok h =>
    match r.invoke terms.codec h.target f.body with
    | .ok (job, r) => (.parked h job, r)
    | .error why =>
      match Answer.failure? terms.codec h why with
      | some f => (.refusing f, r)
      | none => (.reading, r)

/-- Takes a request. -/
def readFrame (c : Connection σ) (terms : Terms) (r : Registry σ) :
    Option (Connection σ × Registry σ) :=
  match c.buffer.next with
  | (.error _, b) => some ({ c with buffer := b, stage := .serving terms .stopped }, r)
  | (.ok none, b) =>
    if c.ended then some ({ c with buffer := b, stage := .serving terms .stopped }, r) else none
  | (.ok (some f), b) =>
    let d := dispatch terms r f
    some ({ c with buffer := b, stage := .serving terms d.1 }, d.2)

/-- The call has its answer. One that cannot be framed is done. -/
def settleAnswer (c : Connection σ) (ticket : Nat) : Option Frame → Connection σ
  | some f => { c with answered := c.answered ++ [(ticket, f)] }
  | none => { c with permits := c.permits + 1 }

/-- What an event makes of a connection at a time, if it can happen. -/
def step (now : Nat) (r : Registry σ) (c : Connection σ) :
    Event → Option (Connection σ × Registry σ)
  | .receive bs => if c.ended then none else some ({ c with buffer := c.buffer.extend bs }, r)
  | .hangUp => some ({ c with ended := true }, r)
  | .lose => some ({ c with lost := true }, r)
  | .read =>
    match c.stage with
    | .head h => (c.readHead h).map (·, r)
    | .options => c.readOptions.map (·, r)
    | .serving terms .reading => c.readFrame terms r
    | _ => none
  | .refuse =>
    match c.stage with
    | .serving terms (.refusing f) =>
      match c.outbox.send f with
      | .queued o => some ({ c with stage := .serving terms .reading, outbox := o }, r)
      | .refused => some ({ c with stage := .serving terms .reading }, r)
      | .full => none
    | _ => none
  | .start =>
    match c.stage with
    | .serving terms (.parked h job) =>
      if c.permits = 0 then none
      else
        let deadline := if terms.budget = .zero then none else some (now + terms.budget.nanos)
        let call : Running σ := ⟨c.tickets, h, job, now + job.behaviour.wait.nanos, deadline⟩
        some ({ c with
          stage := .serving terms .reading
          tickets := c.tickets + 1
          permits := c.permits - 1
          running := c.running ++ [call] }, r)
    | _ => none
  | .finish t =>
    match c.stage, call? t c.running with
    | .serving terms _, some call =>
      if now < call.due then none
      else
        let a := r.act call.job
        let f := Answer.frame? terms.codec call.header (a.1.toReply terms.codec)
        some ({ c with running := without t c.running }.settleAnswer t f, a.2)
    | _, _ => none
  | .expire t =>
    match c.stage, call? t c.running with
    | .serving terms _, some call =>
      match call.deadline with
      | none => none
      | some d =>
        if now < d then none
        else
          let f := Answer.failure? terms.codec call.header (.handleTimeout terms.budget)
          some ({ c with
            running := without t c.running
            detached := c.detached ++ [call] }.settleAnswer t f, r)
    | _, _ => none
  | .retire t =>
    match call? t c.detached with
    | some call =>
      if now < call.due then none
      else some ({ c with detached := without t c.detached }, (r.act call.job).2)
    | none => none
  | .post t =>
    match c.answered.lookup t with
    | none => none
    | some f =>
      let d := { c with
        answered := c.answered.filter (·.1 != t)
        permits := c.permits + 1 }
      match c.outbox.send f with
      | .queued o => some ({ d with outbox := o }, r)
      | .refused => some (d, r)
      | .full => none
  | .release =>
    match c.stage with
    | .serving _ .stopped =>
      if c.running.isEmpty ∧ c.answered.isEmpty ∧ ¬ c.outbox.released then
        some ({ c with outbox := { c.outbox with released := true } }, r)
      else none
    | _ => none
  | .write e =>
    match c.stage with
    | .serving _ _ =>
      let possible := match e with
        | .write _ => !c.lost
        | .fail => c.lost
        | _ => true
      if possible then (c.outbox.step e).map fun o => ({ c with outbox := o }, r) else none
    | _ => none

/-- The server is done with the connection; handlers that were too late may
still run. -/
def isFinished (c : Connection σ) : Bool :=
  match c.stage with
  | .gone => true
  | _ => c.outbox.released && c.outbox.state ≠ .working

/-- The server has ended its side. -/
def isClosed (c : Connection σ) : Bool :=
  match c.stage with
  | .gone => true
  | _ => c.outbox.state = .closed

/-- The events that may happen by themselves at a time, those of the reader
first. -/
def candidates (now : Nat) (c : Connection σ) : List Event :=
  [.read, .refuse, .start] ++
    (c.running.filter (·.due ≤ now)).map (.finish ·.ticket) ++
    (c.running.filter fun x => x.deadline.any (· ≤ now)).map (.expire ·.ticket) ++
    (c.detached.filter (·.due ≤ now)).map (.retire ·.ticket) ++
    c.answered.map (.post ·.1) ++
    [.release] ++ (c.outbox.ready? (!c.lost)).toList.map .write

/-- The connection after the first thing that can happen by itself. -/
def next? (now : Nat) (r : Registry σ) (c : Connection σ) :
    Option (Connection σ × Registry σ) :=
  (c.candidates now).findSome? (c.step now r)

/-- The times at which a handler acts or a budget is over. -/
def timers (c : Connection σ) : List Nat :=
  c.running.map (·.due) ++ c.running.filterMap (·.deadline) ++ c.detached.map (·.due)

/-- The earliest of those times after now. -/
def timer? (now : Nat) (c : Connection σ) : Option Nat := (c.timers.filter (now < ·)).min?

/-- More than the connection can do before something arrives: a request is nine
bytes or more, and less than nine things happen because of it. -/
def work (c : Connection σ) : Nat :=
  c.buffer.unread.length + 8 * (c.running.length + c.answered.length + c.detached.length) +
    4 * c.outbox.queue.length + 32

end Connection
end Callwire
