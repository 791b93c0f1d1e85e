/-
# A connection through a tunnel

A connection that comes through a tunnel does, once the head is read, what one does that
comes without: the request came before all else to the one, the answer was written before
all else by it, and nothing else is different, on the connection or beside it. While the
head is read the other one waits, so a run through a tunnel is a run without, in which the
same bytes come after the request and the reads of the head are left out.

Key definitions: `Connection.preceded`, `Connection.Through`, `Connection.Entering`,
`Connection.Onward`, `Server.followThrough`, `Server.Paired`, `Server.Entered`, `Server.Answerable`.
Key theorems: `Connection.step_preceded`, `Connection.Entering.step`, `Server.Paired.through`,
`Server.exists_through`, `Server.entered_of_quiet`, `Server.through_entry`.
-/
import Callwire.Proofs.Tunnel

namespace Callwire

variable {σ : Type}

/-! ### Bytes before all others -/

/-- The outbox with bytes written before all others. -/
def Outbox.preceded (bs : Bytes) (o : Outbox) : Outbox := { o with wire := bs ++ o.wire }

theorem Outbox.step_preceded (bs : Bytes) (o : Outbox) (e : Outbox.Event) :
    (o.preceded bs).step e = (o.step e).map (preceded bs) := by
  cases e with
  | take =>
    simp only [step, preceded]
    cases o.queue with
    | nil => rfl
    | cons f queue =>
      simp only [apply_ite (Option.map _), Option.map_map, Option.map_none]
      rfl
  | write n =>
    simp only [step, preceded, apply_ite (Option.map _), Option.map_some, Option.map_none, List.append_assoc]
  | fail | close =>
    simp only [step, preceded, apply_ite (Option.map _), Option.map_some, Option.map_none]
    rfl

theorem Outbox.send_preceded (bs : Bytes) (o : Outbox) (f : Frame) :
    (o.preceded bs).send f =
      match o.send f with
      | .queued o => .queued (o.preceded bs)
      | .refused => .refused
      | .full => .full := by
  by_cases hw : o.state = .working
  · by_cases hq : o.queue.length < o.capacity <;> simp [send, preceded, hw, hq]
  · simp [send, preceded, hw]

/-- The connection with bytes written before all others. -/
def Connection.preceded (bs : Bytes) (c : Connection σ) : Connection σ :=
  { c with outbox := c.outbox.preceded bs }

/-- The journal with bytes that came before all others. -/
def Journal.preceded (bs : Bytes) (j : Journal σ) : Journal σ := { j with input := bs ++ j.input }

namespace Connection

variable {now : Nat} {r r' : Registry σ} {c c' d d' : Connection σ} {e : Event}

theorem settleAnswer_preceded (bs : Bytes) (c : Connection σ) (t : Nat) (f : Option Frame) :
    (c.preceded bs).settleAnswer t f = (c.settleAnswer t f).preceded bs := by
  cases f <;> rfl

theorem readHead_preceded (bs : Bytes) (c : Connection σ) (h : Tunnel.Head) :
    (c.preceded bs).readHead h = (c.readHead h).map (preceded bs) := by
  obtain ⟨buffer, ended, lost, stage, tickets, permits, running, answered, detached, outbox⟩ := c
  simp only [readHead, preceded, Outbox.preceded]
  rcases buffer.takeLine Tunnel.lineLimit with ⟨_ | _ | line, b⟩
  · rfl
  · cases ended <;> rfl
  · dsimp only
    rcases h.feed (Text.ofBytesLossy line) with h | first | _
    · rfl
    · cases lost with
      | true => rfl
      | false =>
        simp only [Bool.false_eq_true, if_false, List.append_assoc]
        cases (Tunnel.verdict first).2 <;> rfl
    · rfl

theorem readOptions_preceded (bs : Bytes) (c : Connection σ) :
    (c.preceded bs).readOptions = c.readOptions.map (preceded bs) := by
  have hbuffer : (c.preceded bs).buffer = c.buffer ∧ (c.preceded bs).ended = c.ended := ⟨rfl, rfl⟩
  simp only [readOptions, hbuffer]
  rcases c.buffer.takeLine Options.lineLimit with ⟨_ | _ | line, b⟩
  · rfl
  · simp only [apply_ite (Option.map _)]
    rfl
  · dsimp only
    cases Options.parse line with
    | error why => rfl
    | ok o =>
      have hs : ({ c.preceded bs with buffer := b } : Connection σ).isServable =
          ({ c with buffer := b } : Connection σ).isServable := rfl
      show (if ({ c.preceded bs with buffer := b } : Connection σ).isServable = true then _ else _) =
        (if ({ c with buffer := b } : Connection σ).isServable = true then _ else _ : Option _).map
          (preceded bs)
      rw [hs]
      split <;> rfl

theorem readFrame_preceded (bs : Bytes) (c : Connection σ) (terms : Terms) (r : Registry σ) :
    (c.preceded bs).readFrame terms r = (c.readFrame terms r).map fun p => (p.1.preceded bs, p.2) := by
  simp only [readFrame, preceded]
  rcases c.buffer.next with ⟨_ | _ | f, b⟩
  · rfl
  · simp only [apply_ite (Option.map _)]
    rfl
  · rfl

/-- **What was written before all else makes no difference.** -/
theorem step_preceded (bs : Bytes) (now : Nat) (r : Registry σ) (c : Connection σ) (e : Event) :
    (c.preceded bs).step now r e = (c.step now r e).map fun p => (p.1.preceded bs, p.2) := by
  have hstage : (c.preceded bs).stage = c.stage := rfl
  cases e with
  | receive more =>
    simp only [step, preceded, apply_ite (Option.map _)]
    rfl
  | hangUp | lose => rfl
  | read =>
    simp only [step, hstage, readHead_preceded, readOptions_preceded, readFrame_preceded]
    rcases c.stage with h | _ | ⟨terms, _ | f | ⟨h, job⟩ | _⟩ | _
    · simp only [Option.map_map]
      rfl
    · simp only [Option.map_map]
      rfl
    all_goals rfl
  | refuse =>
    simp only [step, hstage]
    rcases c.stage with h | _ | ⟨terms, _ | f | ⟨h, job⟩ | _⟩ | _
    case serving.refusing =>
      have hsend : (c.preceded bs).outbox.send f = _ := c.outbox.send_preceded bs f
      simp only [hsend]
      cases c.outbox.send f <;> rfl
    all_goals rfl
  | start =>
    simp only [step, hstage]
    rcases c.stage with h | _ | ⟨terms, _ | f | ⟨h, job⟩ | _⟩ | _
    case serving.parked =>
      simp only [preceded, apply_ite (Option.map _)]
      rfl
    all_goals rfl
  | finish t =>
    simp only [step, hstage]
    rcases c.stage with h | _ | ⟨terms, i⟩ | _
    case serving =>
      have hcall : call? t (c.preceded bs).running = call? t c.running := rfl
      rw [hcall]
      cases call? t c.running with
      | none => rfl
      | some call =>
        simp only [apply_ite (Option.map _), Option.map_some, ← settleAnswer_preceded]
        rfl
    all_goals rfl
  | expire t =>
    simp only [step, hstage]
    rcases c.stage with h | _ | ⟨terms, i⟩ | _
    case serving =>
      have hcall : call? t (c.preceded bs).running = call? t c.running := rfl
      rw [hcall]
      cases call? t c.running with
      | none => rfl
      | some call =>
        simp only
        cases call.deadline with
        | none => rfl
        | some d =>
          simp only [apply_ite (Option.map _), Option.map_some, ← settleAnswer_preceded]
          rfl
    all_goals rfl
  | retire t =>
    have hcall : call? t (c.preceded bs).detached = call? t c.detached := rfl
    simp only [step, hcall]
    cases call? t c.detached with
    | none => rfl
    | some call =>
      simp only [apply_ite (Option.map _)]
      rfl
  | post t =>
    have hlook : (c.preceded bs).answered.lookup t = c.answered.lookup t := rfl
    simp only [step, hlook]
    cases c.answered.lookup t with
    | none => rfl
    | some f =>
      have hsend : (c.preceded bs).outbox.send f = _ := c.outbox.send_preceded bs f
      simp only [hsend]
      cases c.outbox.send f <;> rfl
  | release =>
    simp only [step, hstage]
    rcases c.stage with h | _ | ⟨terms, _ | f | ⟨h, job⟩ | _⟩ | _
    case serving.stopped =>
      simp only [preceded, Outbox.preceded, apply_ite (Option.map _)]
      rfl
    all_goals rfl
  | write w =>
    simp only [step, hstage]
    rcases c.stage with h | _ | ⟨terms, i⟩ | _
    case serving =>
      have hstep : (c.preceded bs).outbox.step w = _ := c.outbox.step_preceded bs w
      simp only [hstep, apply_ite (Option.map _), Option.map_map, Option.map_none]
      rfl
    all_goals rfl

end Connection

theorem Journal.note_preceded (bs is : Bytes) (r : Registry σ) (c c' : Connection σ) (e : Connection.Event)
    (j : Journal σ) :
    (j.preceded is).note r (c.preceded bs) e (c'.preceded bs) = (j.note r c e c').preceded is := by
  have hand : ∀ f, (j.preceded is).handOver (c.preceded bs).outbox f =
      (j.handOver c.outbox f).preceded is := by
    intro f
    have hsend : (c.preceded bs).outbox.send f = _ := c.outbox.send_preceded bs f
    simp only [handOver, hsend]
    cases c.outbox.send f <;> rfl
  have hstage : (c.preceded bs).stage = c.stage := rfl
  have hbuffer : (c.preceded bs).buffer = c.buffer := rfl
  cases e with
  | receive more => simp only [note, preceded, List.append_assoc]
  | read =>
    simp only [note, hstage, hbuffer]
    rcases c.stage with h | _ | ⟨terms, _ | f | ⟨h, job⟩ | _⟩ | _
    case serving.reading =>
      rcases c.buffer.next with ⟨_ | _ | f, b⟩
      · rfl
      · rfl
      · dsimp only
        cases f.readHeader terms.codec <;> rfl
    all_goals rfl
  | refuse =>
    simp only [note, hstage]
    rcases c.stage with h | _ | ⟨terms, _ | f | ⟨h, job⟩ | _⟩ | _
    case serving.refusing => exact hand f
    all_goals rfl
  | finish t =>
    have hcall : Connection.call? t (c.preceded bs).running = Connection.call? t c.running := rfl
    simp only [note, hcall]
    cases Connection.call? t c.running <;> rfl
  | expire t =>
    simp only [note, hstage]
    cases c.stage <;> rfl
  | post t =>
    have hlook : (c.preceded bs).answered.lookup t = c.answered.lookup t := rfl
    simp only [note, hlook]
    cases c.answered.lookup t with
    | none => rfl
    | some f => exact hand f
  | hangUp | lose | start | retire _ | release | write _ => rfl

namespace Server

variable {s : Server σ} {i : Nat} {p q : Server σ × Journal σ} {e : Event}

/-- What happens to a connection, and its journal then. -/
theorem observe_own {c : Connection σ} (hc : p.1.connections[i]? = some c) (ce : Connection.Event) :
    observe i p (.connection i ce) =
      match c.step p.1.now p.1.registry ce with
      | some q => (p.1.put i q, p.2.note p.1.registry c ce q.1)
      | none => p := by
  have hl := (List.getElem?_eq_some_iff.mp hc).1
  simp only [observe, step, hc, bind, Option.bind, pure]
  cases c.step p.1.now p.1.registry ce with
  | none => rfl
  | some q =>
    have hget : (p.1.put i q).connections[i]? = some q.1 := by rw [put, List.getElem?_set_self hl]
    simp only [record, hc, hget, if_true]

theorem observe_other {c : Connection σ} (hc : p.1.connections[i]? = some c) (he : e.isOf i = false) :
    (observe i p e).1.connections[i]? = some c ∧ (observe i p e).2 = p.2 := by
  rw [observe]
  cases hs : p.1.step e with
  | none => exact ⟨hc, rfl⟩
  | some s' =>
    obtain ⟨-, ⟨-, hc', hj⟩ | ⟨ce, c', -, rfl, -, -⟩⟩ := observe_cases (j := p.2) hs hc
    · exact ⟨hc', hj⟩
    · simp [Event.isOf] at he

theorem EqBeside.put_both {s s' : Server σ} (h : EqBeside i s s') (c d : Connection σ) (r : Registry σ) :
    EqBeside i (s.put i (c, r)) (s'.put i (d, r)) := by
  refine ⟨h.config, rfl, h.now, ?_, fun k hk => ?_⟩
  · rw [Server.put, Server.put, List.length_set, List.length_set, h.length]
  · rw [Server.put, Server.put, List.getElem?_set_ne hk.symm, List.getElem?_set_ne hk.symm,
      h.connections k hk]

/-- The servers are the same but for one connection, and there the connections are
related, and their journals. -/
structure Paired (i : Nat) (R : Connection σ → Journal σ → Connection σ → Journal σ → Prop)
    (p q : Server σ × Journal σ) : Prop where
  beside : EqBeside i p.1 q.1
  related : ∃ c d, p.1.connections[i]? = some c ∧ q.1.connections[i]? = some d ∧ R c p.2 d q.2

section Paired

variable {R R' : Connection σ → Journal σ → Connection σ → Journal σ → Prop} {c c' d d' : Connection σ}
  {r' : Registry σ} {ce de : Connection.Event}

theorem Paired.other (h : Paired i R p q) (he : e.isOf i = false) :
    Paired i R (observe i p e) (observe i q e) := by
  obtain ⟨c, d, hc, hd, hR⟩ := h.related
  obtain ⟨hc', hj⟩ := observe_other hc he
  obtain ⟨hd', hj'⟩ := observe_other hd he
  refine ⟨?_, c, d, hc', hd', ?_⟩
  · rw [fst_observe, fst_observe]
    exact h.beside.apply he
  · rw [hj, hj']
    exact hR

/-- Something happens to both connections. -/
theorem Paired.both (hb : EqBeside i p.1 q.1) (hc : p.1.connections[i]? = some c)
    (hd : q.1.connections[i]? = some d) (hcs : c.step p.1.now p.1.registry ce = some (c', r'))
    (hds : d.step p.1.now p.1.registry de = some (d', r'))
    (hR : R c' (p.2.note p.1.registry c ce c') d' (q.2.note p.1.registry d de d')) :
    Paired i R (observe i p (.connection i ce)) (observe i q (.connection i de)) := by
  have hlc := (List.getElem?_eq_some_iff.mp hc).1
  have hld := (List.getElem?_eq_some_iff.mp hd).1
  rw [observe_own hc, observe_own hd, ← hb.now, ← hb.registry, hcs, hds]
  exact ⟨hb.put_both _ _ _, c', d', List.getElem?_set_self hlc, List.getElem?_set_self hld, hR⟩

/-- Something happens to the first connection, and the second one waits. -/
theorem Paired.first (hb : EqBeside i p.1 q.1) (hc : p.1.connections[i]? = some c)
    (hd : q.1.connections[i]? = some d) (hcs : c.step p.1.now p.1.registry ce = some (c', p.1.registry))
    (hR : R c' (p.2.note p.1.registry c ce c') d q.2) :
    Paired i R (observe i p (.connection i ce)) q := by
  have hlc := (List.getElem?_eq_some_iff.mp hc).1
  rw [observe_own hc, hcs]
  exact ⟨(EqBeside.put _ _ _).trans hb, c', d, List.getElem?_set_self hlc, hd, hR⟩

end Paired

end Server

/-! ### Once the head is read -/

/-- The first connection has come through a tunnel and the second without; nothing else is
different. -/
def Connection.Through (c : Connection σ) (j : Journal σ) (d : Connection σ) (j' : Journal σ) : Prop :=
  c = d.preceded Tunnel.opened ∧ j = j'.preceded Tunnel.request

namespace Server

/-- **Whatever happens, it stays so.** -/
theorem Paired.through (h : Paired i Connection.Through p q) (e : Event) :
    Paired i Connection.Through (observe i p e) (observe i q e) := by
  by_cases he : e.isOf i = true
  · cases e with
    | arrive _ | tick _ => cases he
    | connection k ce =>
      obtain rfl : k = i := by simpa [Event.isOf] using he
      obtain ⟨c, d, hc, hd, rfl, hj⟩ := h.related
      have hstep := Connection.step_preceded Tunnel.opened p.1.now p.1.registry d ce
      cases hds : d.step p.1.now p.1.registry ce with
      | none =>
        rw [hds] at hstep
        rw [observe_own hc, observe_own hd, ← h.beside.now, ← h.beside.registry, hstep, hds]
        exact h
      | some x =>
        obtain ⟨d', r'⟩ := x
        rw [hds] at hstep
        refine .both h.beside hc hd hstep hds ⟨rfl, ?_⟩
        rw [hj]
        exact Journal.note_preceded _ _ _ _ _ _ _
  · exact h.other (by simpa using he)

end Server

/-! ### While the head is read -/

/-- How much of the request was taken when a head is at a place. -/
inductive Tunnel.Told : Tunnel.Head → Bytes → Prop where
  | nothing : Told .empty []
  | line : Told (.begun (Text.ofBytesLossy requestLine) headerLimit) (requestLine ++ [0x0a])

/-- The bytes begin with the request, so far as they have come. -/
def Tunnel.Requested (input : Bytes) : Prop := ∃ tail more, input ++ tail = request ++ more

/-- The next line of the request is there, or so few bytes that its end is not. -/
theorem Tunnel.Told.next {h : Tunnel.Head} {used u : Bytes} (ht : Told h used) (hr : Requested (used ++ u)) :
    (h = .empty ∧ ∃ u', u = requestLine ++ 0x0a :: u') ∨
      (h = .begun (Text.ofBytesLossy requestLine) headerLimit ∧ ∃ u', u = 0x0a :: u') ∨
      (0x0a ∉ u ∧ (used ++ u).length < request.length) := by
  obtain ⟨tail, more, hr⟩ := hr
  obtain ⟨hn, -, -, -⟩ := requestLine_spec
  cases ht with
  | nothing =>
    rw [request_append] at hr
    obtain hline | ⟨hfree, hlen⟩ := Bytes.line_cases hn hr
    · exact .inl ⟨rfl, hline⟩
    · refine .inr (.inr ⟨hfree, ?_⟩)
      rw [request_eq, List.nil_append, List.length_append]
      exact Nat.lt_of_le_of_lt hlen (Nat.lt_add_of_pos_right (by decide))
  | line =>
    rw [request_append, List.append_assoc, List.append_assoc, List.append_cancel_left_eq] at hr
    have hblank : u ++ tail = [] ++ 0x0a :: more := (List.cons.inj hr).2
    obtain hline | ⟨hfree, hlen⟩ := Bytes.line_cases List.not_mem_nil hblank
    · exact .inr (.inl ⟨rfl, hline⟩)
    · refine .inr (.inr ⟨hfree, ?_⟩)
      obtain rfl : u = [] := List.length_eq_zero_iff.mp (Nat.le_zero.mp hlen)
      rw [request_eq, List.append_nil, List.length_append, List.length_append]
      exact Nat.add_lt_add_left (by decide) _

namespace Connection

variable {now : Nat} {r : Registry σ} {k : Server.Config} {c c' d : Connection σ} {j j' : Journal σ}

/-- A connection of which nothing was taken as a call, at a place before that. -/
def early (k : Server.Config) (stage : Stage σ) (u : Bytes) (ended lost : Bool) : Connection σ :=
  { Connection.fresh k.maxBody k.maxCalls k.capacity true with
    buffer := { unread := u, limit := k.maxBody }
    stage := stage
    ended := ended
    lost := lost }

/-- The first connection reads the head and the second one waits; or the peer of both has
ended before there was a head, and they are gone. -/
inductive Entering (k : Server.Config) :
    Connection σ → Journal σ → Connection σ → Journal σ → Prop where
  | head {h : Tunnel.Head} {used : Bytes} (ht : Tunnel.Told h used) (u : Bytes) (ended : Bool) :
      Entering k (early k (.head h) u ended false) { input := used ++ u }
        (early k .options ((used ++ u).drop Tunnel.request.length) ended false)
        { input := (used ++ u).drop Tunnel.request.length }
  | shut {input u : Bytes} (hs : input.length < Tunnel.request.length) (lost : Bool) :
      Entering k (early k .gone u true lost) { input := input } (early k .gone [] true lost) {}

/-- The first connection has come through a tunnel and the second without: it still
enters, or nothing else is different. -/
def Onward (k : Server.Config) (c : Connection σ) (j : Journal σ) (d : Connection σ) (j' : Journal σ) :
    Prop :=
  Entering k c j d j' ∨ Through c j d j'

/-- Once a whole request has come and its head was read, nothing else is different. -/
theorem Onward.through (h : Onward k c j d j') (hs : ∀ hd, c.stage ≠ .head hd)
    (hl : Tunnel.request.length ≤ j.input.length) : Through c j d j' := by
  obtain hentering | hthrough := h
  · cases hentering with
    | head ht u ended => exact absurd rfl (hs _)
    | shut hshort lost => exact absurd hshort (Nat.not_lt.mpr hl)
  · exact hthrough

/-- Before a connection serves, only its peer and the reader of its head do something. -/
theorem early_step {stage : Stage σ} {u : Bytes} {ended lost : Bool} {e : Event}
    (hs : ∀ terms i, stage ≠ .serving terms i) :
    (early k stage u ended lost).step now r e =
      match e with
      | .receive bs => if ended then none else some (early k stage (u ++ bs) ended lost, r)
      | .hangUp => some (early k stage u true lost, r)
      | .lose => some (early k stage u ended true, r)
      | .read => (early k stage u ended lost).step now r .read
      | _ => none := by
  have hst : (early k stage u ended lost).stage = stage := rfl
  cases e with
  | receive bs | hangUp | lose | read | retire t | post t => rfl
  | refuse | start | finish t | expire t | release | write w =>
    rcases stage with h | _ | ⟨terms, i⟩ | _
    case serving => exact absurd rfl (hs terms i)
    all_goals rfl

/-- The line of the request is taken. -/
theorem read_requestLine (k : Server.Config) (u : Bytes) (ended : Bool) (now : Nat) (r : Registry σ) :
    (early k (.head .empty) (Tunnel.requestLine ++ 0x0a :: u) ended false).step now r .read =
      some (early k (.head (.begun (Text.ofBytesLossy Tunnel.requestLine) Tunnel.headerLimit)) u ended false,
        r) := by
  obtain ⟨hn, hl, hstrip, -⟩ := Tunnel.requestLine_spec
  have htake := Frame.Buffer.takeLine_of_line hn hl u k.maxBody
  rw [hstrip] at htake
  simp only [step, early, readHead, htake, Tunnel.Head.feed]
  rfl

theorem read_blank (k : Server.Config) (u : Bytes) (ended : Bool) (left now : Nat) (r : Registry σ) :
    (early k (.head (.begun (Text.ofBytesLossy Tunnel.requestLine) left)) (0x0a :: u) ended false).step now r
        .read =
      some ((early k .options u ended false).preceded Tunnel.opened, r) := by
  obtain ⟨-, -, -, hverdict⟩ := Tunnel.requestLine_spec
  have hblank : (Text.ofBytesLossy (Frame.Buffer.stripReturn [])).isEmpty = true := by decide +kernel
  have htake : ({ unread := 0x0a :: u, limit := k.maxBody } : Frame.Buffer).takeLine Tunnel.lineLimit = _ :=
    Frame.Buffer.takeLine_of_line List.not_mem_nil (Nat.zero_le _) u k.maxBody
  simp only [step, early, readHead, htake, Tunnel.Head.feed, hblank, if_true, hverdict]
  rfl

/-- While no line is there the reader waits, and it is gone where there is no more to come. -/
theorem read_free {u : Bytes} (hn : 0x0a ∉ u) (hl : u.length ≤ Tunnel.lineLimit) (k : Server.Config)
    (h : Tunnel.Head) (ended : Bool) (now : Nat) (r : Registry σ) :
    (early k (.head h) u ended false).step now r .read =
      if ended then some (early k .gone u ended false, r) else none := by
  have htake := Frame.Buffer.takeLine_of_free hn hl k.maxBody
  simp only [step, early, readHead, htake]
  cases ended <;> rfl

/-- What an event does to the first connection while it enters: nothing; or something for
which the second one waits; or something while the second one does its part. -/
inductive Advance (k : Server.Config) (now : Nat) (r : Registry σ) (e : Event) (c : Connection σ)
    (j : Journal σ) (d : Connection σ) (j' : Journal σ) : Prop where
  | idle (hc : c.step now r e = none)
  | first {c' : Connection σ} (hc : c.step now r e = some (c', r))
      (ho : Onward k c' (j.note r c e c') d j')
  | both {c' d' : Connection σ} (e' : Event) (hc : c.step now r e = some (c', r))
      (hd : d.step now r e' = some (d', r)) (ho : Onward k c' (j.note r c e c') d' (j'.note r d e' d'))

/-- The reader of the head takes a line of the request, or waits for one. -/
theorem advance_read {h : Tunnel.Head} {used u : Bytes} (ht : Tunnel.Told h used)
    (hr : Tunnel.Requested (used ++ u)) (ended : Bool) (now : Nat) (r : Registry σ) :
    Advance k now r .read (early k (.head h) u ended false) { input := used ++ u }
      (early k .options ((used ++ u).drop Tunnel.request.length) ended false)
      { input := (used ++ u).drop Tunnel.request.length } := by
  obtain ⟨rfl, u', rfl⟩ | ⟨rfl, u', rfl⟩ | ⟨hfree, hshort⟩ := ht.next hr
  · cases ht
    refine .first (read_requestLine k u' ended now r) (.inl ?_)
    have hnext := Entering.head (σ := σ) (k := k) .line u' ended
    rw [List.append_assoc] at hnext
    exact hnext
  · cases ht
    refine .first (read_blank k u' ended _ now r) (.inr ?_)
    have hinput : (Tunnel.requestLine ++ [0x0a]) ++ 0x0a :: u' = Tunnel.request ++ u' := by
      rw [Tunnel.request_append, List.append_assoc]
      rfl
    rw [hinput, List.drop_left]
    exact ⟨rfl, rfl⟩
  · have hlen : u.length ≤ Tunnel.lineLimit := by
      have hrequest : Tunnel.request.length ≤ Tunnel.lineLimit := by decide +kernel
      rw [List.length_append] at hshort
      omega
    have hread := read_free (σ := σ) hfree hlen k h ended now r
    cases ended with
    | false => exact .idle hread
    | true =>
      have hdrop : (used ++ u).drop Tunnel.request.length = [] := List.drop_eq_nil_of_le (by omega)
      rw [hdrop]
      exact .both .read hread rfl (.inl (.shut hshort false))

/-- **What happens to a connection that enters** leaves the two together. -/
theorem Entering.step (h : Entering k c j d j') (hr : Tunnel.Requested j.input) (e : Event)
    (hl : e = .lose → ∀ hd, c.stage ≠ .head hd) (now : Nat) (r : Registry σ) :
    Advance k now r e c j d j' := by
  have hhead : ∀ (h : Tunnel.Head) terms (i : Intake σ), Stage.head h ≠ .serving terms i := nofun
  have hgone : ∀ terms (i : Intake σ), Stage.gone ≠ .serving terms i := nofun
  have hopts : ∀ terms (i : Intake σ), Stage.options ≠ .serving terms i := nofun
  cases h with
  | @head hd used ht u ended =>
    cases e with
    | receive bs =>
      cases ended with
      | true => exact .idle (early_step (hhead hd))
      | false =>
        have hnext := Entering.head (σ := σ) (k := k) ht (u ++ bs) false
        have hdrop : (used ++ u ++ bs).drop Tunnel.request.length = _ := List.drop_append
        rw [← List.append_assoc, hdrop] at hnext
        exact .both (.receive (bs.drop (Tunnel.request.length - (used ++ u).length)))
          (early_step (hhead hd)) (early_step hopts) (.inl hnext)
    | hangUp =>
      exact .both .hangUp (early_step (hhead hd)) (early_step hopts) (.inl (.head ht u true))
    | lose => exact absurd rfl (hl rfl hd)
    | read => exact advance_read ht hr ended now r
    | _ => exact .idle (early_step (hhead hd))
  | shut hs lost =>
    cases e with
    | hangUp => exact .both .hangUp (early_step hgone) (early_step hgone) (.inl (.shut hs lost))
    | lose => exact .both .lose (early_step hgone) (early_step hgone) (.inl (.shut hs true))
    | _ => exact .idle (early_step hgone)

theorem Entering.not_quiet (h : Entering k c j d j') (hr : Tunnel.Requested j.input)
    (hl : Tunnel.request.length ≤ j.input.length) {hd : Tunnel.Head} (hs : c.stage = .head hd) :
    ¬ c.Quiet := by
  intro hq
  have hread := hq 0 {} .read rfl
  cases h with
  | head ht u ended =>
    obtain ⟨rfl, u', rfl⟩ | ⟨rfl, u', rfl⟩ | ⟨-, hshort⟩ := ht.next hr
    · rw [read_requestLine] at hread
      cases hread
    · cases ht
      rw [read_blank] at hread
      cases hread
    · exact absurd hshort (Nat.not_lt.mpr hl)
  | shut hshort lost => cases hs

end Connection

/-! ### Runs -/

namespace Server

variable {s : Server σ} {i : Nat} {p q : Server σ × Journal σ} {k : Config} {es ds : List Event} {e : Event}

/-- A server after some events, and the journal of a connection that comes through a
tunnel. -/
def followThrough (s : Server σ) (es : List Event) : Server σ × Journal σ :=
  es.foldl (observe s.connections.length) (s.arrive true, {})

/-- The head of that connection's tunnel was read. -/
def Entered (s : Server σ) (es : List Event) : Prop :=
  ∀ c, (s.followThrough es).1.connections[s.connections.length]? = some c → ∀ h, c.stage ≠ .head h

/-- Its peer takes what is written to it at least until then. -/
def Answerable (s : Server σ) (es : List Event) : Prop :=
  ∀ as bs, es = as ++ .connection s.connections.length .lose :: bs → s.Entered as

theorem followThrough_concat (s : Server σ) (es : List Event) (e : Event) :
    s.followThrough (es ++ [e]) = observe s.connections.length (s.followThrough es) e := by
  rw [followThrough, followThrough, List.foldl_append]
  rfl

theorem follow_append (s : Server σ) (es ds : List Event) :
    s.follow (es ++ ds) = ds.foldl (observe s.connections.length) (s.follow es) := by
  rw [follow, follow, List.foldl_append]

theorem paired_arrive (s : Server σ) :
    Paired s.connections.length (Connection.Entering s.config) (s.followThrough []) (s.follow []) := by
  refine ⟨⟨rfl, rfl, rfl, ?_, fun k hk => ?_⟩, _, _, List.getElem?_concat_length, List.getElem?_concat_length,
    .head .nothing [] false⟩
  · show (s.connections ++ _).length = (s.connections ++ _).length
    rw [List.length_append, List.length_append]
    rfl
  · show (s.connections ++ _)[k]? = (s.connections ++ _)[k]?
    rw [List.getElem?_append, List.getElem?_append]
    split
    · rfl
    · have hlong : ∀ c : Connection σ, [c].length ≤ k - s.connections.length := by
        intro c
        rw [List.length_singleton]
        omega
      rw [List.getElem?_eq_none (hlong _), List.getElem?_eq_none (hlong _)]

/-- **Whatever happens to the one, the other can follow.** -/
theorem Paired.onward (h : Paired i (Connection.Onward k) p q) (hr : Tunnel.Requested p.2.input) (e : Event)
    (hl : e = .connection i .lose → ∀ c, p.1.connections[i]? = some c → ∀ hd, c.stage ≠ .head hd) :
    ∃ ds : List Event, Paired i (Connection.Onward k) (observe i p e) (ds.foldl (observe i) q) := by
  obtain ⟨c, d, hc, hd, hentering | hthrough⟩ := h.related
  · by_cases he : e.isOf i = true
    · cases e with
      | arrive _ | tick _ => cases he
      | connection k ce =>
        obtain rfl : k = i := by simpa [Event.isOf] using he
        have hlose : ce = .lose → ∀ hd, c.stage ≠ .head hd := by
          rintro rfl
          exact hl rfl c hc
        cases hentering.step hr ce hlose p.1.now p.1.registry with
        | idle hnone =>
          refine ⟨[], ?_⟩
          rw [observe_own hc, hnone]
          exact h
        | first hcs ho => exact ⟨[], .first h.beside hc hd hcs ho⟩
        | both de hcs hds ho => exact ⟨[.connection k de], .both h.beside hc hd hcs hds ho⟩
    · exact ⟨[e], h.other (by simpa using he)⟩
  · have hpaired : Paired i Connection.Through p q := ⟨h.beside, c, d, hc, hd, hthrough⟩
    obtain ⟨hbeside, c', d', hc', hd', hthrough'⟩ := hpaired.through e
    exact ⟨[e], hbeside, c', d', hc', hd', .inr hthrough'⟩

/-- **A run through a tunnel is a run without**, so far as the head was read. -/
theorem exists_paired (s : Server σ) (es : List Event) (hr : Tunnel.Requested (s.followThrough es).2.input)
    (ha : s.Answerable es) :
    ∃ ds, Paired s.connections.length (Connection.Onward s.config) (s.followThrough es) (s.follow ds) := by
  induction es using List.reverseRecOn with
  | nil =>
    obtain ⟨hbeside, c, d, hc, hd, hentering⟩ := s.paired_arrive
    exact ⟨[], hbeside, c, d, hc, hd, .inl hentering⟩
  | append_singleton es e ih =>
    rw [followThrough_concat] at hr
    have hbefore : Tunnel.Requested (s.followThrough es).2.input := by
      obtain ⟨bs, hbs⟩ := input_observe s.connections.length (s.followThrough es) e
      obtain ⟨tail, more, h⟩ := hr
      rw [hbs, List.append_assoc] at h
      exact ⟨_, _, h⟩
    have hanswerable : s.Answerable es := by
      rintro as bs rfl
      exact ha as (bs ++ [e]) (by simp)
    obtain ⟨ds, hpaired⟩ := ih hbefore hanswerable
    have hlose : e = .connection s.connections.length .lose → s.Entered es := by
      rintro rfl
      exact ha es [] rfl
    obtain ⟨ds', hnext⟩ := hpaired.onward hbefore e hlose
    refine ⟨ds ++ ds', ?_⟩
    rw [followThrough_concat, follow_append]
    exact hnext

/-- **A connection through a tunnel is one without.** Once the head was read, there is a
run of a connection that comes without a tunnel, in which what comes is what came after
the request, and at its end nothing is different but the request and the answer to it. -/
theorem exists_through {more : Bytes} (hr : (s.followThrough es).2.input = Tunnel.request ++ more)
    (ha : s.Answerable es) (he : s.Entered es) :
    ∃ ds, (s.follow ds).2.input = more ∧
      Paired s.connections.length Connection.Through (s.followThrough es) (s.follow ds) := by
  obtain ⟨ds, hbeside, c, d, hc, hd, honward⟩ :=
    s.exists_paired es ⟨[], more, (List.append_nil _).trans hr⟩ ha
  have hlen : Tunnel.request.length ≤ (s.followThrough es).2.input.length := by
    rw [hr, List.length_append]
    omega
  have hthrough := honward.through (he c hc) hlen
  refine ⟨ds, ?_, hbeside, c, d, hc, hd, hthrough⟩
  rw [hthrough.2] at hr
  exact List.append_cancel_left hr

/-- **The head does not wait for more than the request**: a connection that can do nothing by
itself has read it. -/
theorem entered_of_quiet {more : Bytes} {c : Connection σ}
    (hr : (s.followThrough es).2.input = Tunnel.request ++ more) (ha : s.Answerable es)
    (hc : (s.followThrough es).1.connections[s.connections.length]? = some c) (hq : c.Quiet) :
    s.Entered es := by
  have hrequested : Tunnel.Requested (s.followThrough es).2.input := ⟨[], more, (List.append_nil _).trans hr⟩
  have hlen : Tunnel.request.length ≤ (s.followThrough es).2.input.length := by
    rw [hr, List.length_append]
    omega
  obtain ⟨ds, -, c₁, d, hc₁, hd, honward⟩ := s.exists_paired es hrequested ha
  obtain rfl : c = c₁ := Option.some.inj (hc.symm.trans hc₁)
  intro c₂ hc₂ h hst
  obtain rfl : c = c₂ := Option.some.inj (hc.symm.trans hc₂)
  obtain hentering | ⟨rfl, -⟩ := honward
  · exact hentering.not_quiet hrequested hlen hst hq
  · exact (kept_of_follow hd).1.head_ne h hst

/-- The request comes, and its two lines are read. -/
def entry (i : Nat) : List Event :=
  [.connection i (.receive Tunnel.request), .connection i .read, .connection i .read]

/-- The connection that came through the tunnel is as far as `c₀`, where `bs` have come, and
the other one waits. -/
def Ahead (k : Config) (c₀ : Connection σ) (bs : Bytes) (c : Connection σ) (j : Journal σ) (d : Connection σ)
    (j' : Journal σ) : Prop :=
  c = c₀ ∧ j = { input := bs } ∧ d = .early k .options [] false false ∧ j' = {}

theorem Paired.ahead {c c' : Connection σ} {bs bs' : Bytes}
    (h : Paired s.connections.length (Ahead s.config c bs) (s.followThrough es) (s.follow []))
    (ce : Connection.Event)
    (hstep : ∀ now r, c.step now r ce = some (c', r))
    (hnote : ∀ r, ({ input := bs } : Journal σ).note r c ce c' = { input := bs' }) :
    Paired s.connections.length (Ahead s.config c' bs')
      (s.followThrough (es ++ [.connection s.connections.length ce])) (s.follow []) := by
  obtain ⟨_, _, hc, hd, rfl, hj, rfl, hj'⟩ := h.related
  rw [followThrough_concat]
  refine .first h.beside hc hd (hstep _ _) ⟨rfl, ?_, rfl, hj'⟩
  rw [hj]
  exact hnote _

theorem paired_entry (s : Server σ) :
    Paired s.connections.length Connection.Through (s.followThrough (entry s.connections.length))
      (s.follow []) := by
  have hnone : ∀ (h : Tunnel.Head) terms (i : Intake σ), Stage.head h ≠ .serving terms i := nofun
  have harrive : Paired s.connections.length
      (Ahead s.config (.early s.config (.head .empty) [] false false) []) (s.followThrough [])
      (s.follow []) :=
    ⟨s.paired_arrive.beside, _, _, List.getElem?_concat_length, List.getElem?_concat_length,
      rfl, rfl, rfl, rfl⟩
  have hrequest : [] ++ Tunnel.request = Tunnel.requestLine ++ 0x0a :: [0x0a] := Tunnel.request_eq
  have hcame := harrive.ahead (.receive Tunnel.request)
    (fun _ _ => Connection.early_step (hnone _)) (fun _ => rfl)
  have hline := hcame.ahead .read
    (fun now r => by rw [hrequest]; exact Connection.read_requestLine s.config [0x0a] false now r)
    (fun _ => rfl)
  have hopen := hline.ahead .read
    (fun now r => Connection.read_blank s.config [] false _ now r) (fun _ => rfl)
  obtain ⟨hbeside, _, _, hc, hd, rfl, hj, rfl, hj'⟩ := hopen
  refine ⟨hbeside, _, _, hc, hd, rfl, ?_⟩
  rw [hj']
  exact hj

/-- **And a connection without a tunnel is one through a tunnel**: whatever happens to it
can happen to one whose request has come and was answered. -/
theorem through_entry (s : Server σ) (ds : List Event) :
    Paired s.connections.length Connection.Through
      (s.followThrough (entry s.connections.length ++ ds)) (s.follow ds) := by
  induction ds using List.reverseRecOn with
  | nil => exact s.paired_entry
  | append_singleton ds e ih =>
    rw [← List.append_assoc, followThrough_concat, follow_concat]
    exact ih.through e

end Server
end Callwire
