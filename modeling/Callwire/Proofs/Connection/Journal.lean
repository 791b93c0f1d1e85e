/-
# What happened on a connection

A connection forgets: a request that was taken and an answer that was handed
over are nowhere in its state. The journal of a connection keeps them. For each
request whose header was read it has an exchange: the request, the call that it
became, how it was decided, and the frame that answers it. It only writes down
what the connection is seen to do, and decides nothing.

Key definitions: `Verdict`, `Exchange`, `Journal`, `Journal.note`,
`Server.follow`.
Key theorems: `Journal.settle_split`, `Journal.answers_settle`.
-/
import Callwire.Proofs.Answers
import Callwire.Proofs.Connection.Steps

namespace Callwire

/-- How a request was decided: it names nothing or its argument cannot be read,
or its handler gave an outcome, or its budget was over before. -/
inductive Verdict where
  | refused (why : Fault)
  | returned (o : Outcome)
  | late (budget : Duration)

/-- The encoded reply to the request, or what its caller is told instead. -/
def Verdict.reply (codec : Codec) : Verdict → Except Fault Bytes
  | refused why => .error why
  | returned o => o.toReply codec
  | late budget => .error (.handleTimeout budget)

/-- A request whose header was read, and what has become of it so far. -/
structure Exchange (σ : Type) where
  request : Frame
  header : Header
  job : Option (Invocation σ) := none
  ticket : Option Nat := none
  verdict : Option Verdict := none
  answer : Option Frame := none

/-- What happened on a connection: the bytes that came, the exchanges, last
first, and the answers in the order in which they were handed to the outbox. -/
structure Journal (σ : Type) where
  input : Bytes := []
  exchanges : List (Exchange σ) := []
  posted : List Frame := []

namespace Exchange

variable {σ : Type}

/-- The answer that the reader of requests holds. -/
def refusal? (c : Connection σ) : Option Frame :=
  match c.stage with
  | .serving _ (.refusing a) => some a
  | _ => none

/-- The exchange of a request that was just read; `c` is the connection after. -/
def begin (terms : Terms) (r : Registry σ) (c : Connection σ) (f : Frame) (h : Header) : Exchange σ :=
  match r.invoke terms.codec h.target f.body with
  | .ok (job, _) => { request := f, header := h, job := some job }
  | .error why => { request := f, header := h, verdict := some (.refused why), answer := refusal? c }

/-- The last request gets its ticket. -/
def enter (t : Nat) : List (Exchange σ) → List (Exchange σ)
  | [] => []
  | x :: xs => { x with ticket := some t } :: xs

/-- The call of a ticket is decided. -/
def settle (t : Nat) (v : Verdict) (a : Option Frame) (xs : List (Exchange σ)) : List (Exchange σ) :=
  xs.map fun x => if x.ticket = some t then { x with verdict := some v, answer := a } else x

end Exchange

namespace Journal

variable {σ : Type}

/-- A frame is handed to the outbox, which may not take it any more. -/
def handOver (o : Outbox) (f : Frame) (j : Journal σ) : Journal σ :=
  match o.send f with
  | .queued _ => { j with posted := j.posted ++ [f] }
  | _ => j

/-- What an event adds to the journal; the connection is `c` before it and `c'`
after it. -/
def note (r : Registry σ) (c : Connection σ) (e : Connection.Event) (c' : Connection σ)
    (j : Journal σ) : Journal σ :=
  match e with
  | .receive bs => { j with input := j.input ++ bs }
  | .read =>
    match c.stage, c.buffer.next with
    | .serving terms .reading, (.ok (some f), _) =>
      match f.readHeader terms.codec with
      | .ok h => { j with exchanges := .begin terms r c' f h :: j.exchanges }
      | .error _ => j
    | _, _ => j
  | .start => { j with exchanges := Exchange.enter c.tickets j.exchanges }
  | .finish t =>
    match Connection.call? t c.running with
    | some call =>
      { j with exchanges :=
          Exchange.settle t (.returned (r.act call.job).1) (c'.answered.lookup t) j.exchanges }
    | none => j
  | .expire t =>
    match c.stage with
    | .serving terms _ =>
      { j with exchanges :=
          Exchange.settle t (.late terms.budget) (c'.answered.lookup t) j.exchanges }
    | _ => j
  | .refuse =>
    match c.stage with
    | .serving _ (.refusing f) => j.handOver c.outbox f
    | _ => j
  | .post t =>
    match c.answered.lookup t with
    | some f => j.handOver c.outbox f
    | none => j
  | _ => j

/-- The answers of all exchanges. -/
def answers (xs : List (Exchange σ)) : List Frame := xs.filterMap (·.answer)

/-- The tickets of all exchanges. -/
def tickets (xs : List (Exchange σ)) : List Nat := xs.filterMap (·.ticket)

/-- The requests of all exchanges, in the order in which they came. -/
def requests (xs : List (Exchange σ)) : List Frame := xs.reverse.map (·.request)

end Journal

namespace Server

variable {σ : Type}

/-- The journal of a connection after an event of its server. -/
def record (i : Nat) (s : Server σ) (e : Event) (s' : Server σ) (j : Journal σ) : Journal σ :=
  match e with
  | .connection k ce =>
    if k = i then
      match s.connections[i]?, s'.connections[i]? with
      | some c, some c' => j.note s.registry c ce c'
      | _, _ => j
    else j
  | _ => j

/-- A server and the journal of one of its connections after an event, if it can
happen. -/
def observe (i : Nat) (p : Server σ × Journal σ) (e : Event) : Server σ × Journal σ :=
  match p.1.step e with
  | some s => (s, record i p.1 e s p.2)
  | none => p

/-- A server after some events, and the journal of a connection that comes. Events
that cannot happen do nothing. -/
def follow (s : Server σ) (es : List Event) : Server σ × Journal σ :=
  es.foldl (observe s.connections.length) (s.arrive false, {})

theorem fst_observe (i : Nat) (p : Server σ × Journal σ) (e : Event) :
    (observe i p e).1 = p.1.apply e := by
  rw [observe, apply]
  cases p.1.step e <;> rfl

theorem fst_follow (s : Server σ) (es : List Event) :
    (follow s es).1 = es.foldl apply (s.arrive false) := by
  have h : ∀ p : Server σ × Journal σ,
      (es.foldl (observe s.connections.length) p).1 = es.foldl apply p.1 := by
    induction es with
    | nil => exact fun _ => rfl
    | cons e es ih => exact fun p => by rw [List.foldl_cons, List.foldl_cons, ih, fst_observe]
  exact h _

end Server

/-! ### Tickets -/

namespace Journal

variable {σ : Type} {xs : List (Exchange σ)} {x : Exchange σ} {t : Nat}

theorem mem_tickets (hx : x ∈ xs) (ht : x.ticket = some t) : t ∈ tickets xs :=
  List.mem_filterMap.mpr ⟨x, hx, ht⟩

theorem split_of_ticket (hn : (tickets xs).Nodup) (hx : x ∈ xs) (ht : x.ticket = some t) :
    ∃ p q, xs = p ++ x :: q ∧ ∀ y ∈ p ++ q, y.ticket ≠ some t := by
  obtain ⟨p, q, rfl⟩ := List.append_of_mem hx
  refine ⟨p, q, rfl, fun y hy hyt => ?_⟩
  simp only [tickets, List.filterMap_append, List.filterMap_cons, ht, List.nodup_append,
    List.nodup_cons] at hn
  obtain ⟨-, ⟨hq, -⟩, hd⟩ := hn
  rcases List.mem_append.mp hy with hy | hy
  · exact hd t (mem_tickets hy hyt) t List.mem_cons_self rfl
  · exact hq (mem_tickets hy hyt)

theorem eq_of_ticket (hn : (tickets xs).Nodup) {y : Exchange σ} (hx : x ∈ xs) (hy : y ∈ xs)
    (htx : x.ticket = some t) (hty : y.ticket = some t) : x = y := by
  obtain ⟨p, q, rfl, hne⟩ := split_of_ticket hn hx htx
  simp only [List.mem_append, List.mem_cons] at hy
  rcases hy with hy | rfl | hy
  · exact absurd hty (hne y (List.mem_append_left _ hy))
  · rfl
  · exact absurd hty (hne y (List.mem_append_right _ hy))

/-- Deciding a call changes its exchange and no other. -/
theorem settle_split {p q : List (Exchange σ)} (v : Verdict) (a : Option Frame)
    (ht : x.ticket = some t) (hne : ∀ y ∈ p ++ q, y.ticket ≠ some t) :
    Exchange.settle t v a (p ++ x :: q) =
      p ++ { x with verdict := some v, answer := a } :: q := by
  have hid : ∀ ys : List (Exchange σ), (∀ y ∈ ys, y.ticket ≠ some t) →
      Exchange.settle t v a ys = ys := by
    intro ys hys
    rw [Exchange.settle]
    conv => rhs; rw [← List.map_id ys]
    exact List.map_congr_left fun y hy => by rw [if_neg (hys y hy)]; rfl
  have hp := hid p fun y hy => hne y (List.mem_append_left _ hy)
  have hq := hid q fun y hy => hne y (List.mem_append_right _ hy)
  simp only [Exchange.settle, List.map_append, List.map_cons, ht, if_true] at hp hq ⊢
  rw [hp, hq]

theorem tickets_settle (v : Verdict) (a : Option Frame) :
    tickets (Exchange.settle t v a xs) = tickets xs := by
  rw [tickets, Exchange.settle, List.filterMap_map]
  congr 1
  funext x
  simp only [Function.comp_apply]
  split <;> rfl

theorem requests_settle (v : Verdict) (a : Option Frame) :
    requests (Exchange.settle t v a xs) = requests xs := by
  rw [requests, Exchange.settle, ← List.map_reverse, List.map_map, requests]
  congr 1
  funext x
  simp only [Function.comp_apply]
  split <;> rfl

theorem requests_enter : requests (Exchange.enter t xs) = requests xs := by
  cases xs <;> simp [Exchange.enter, requests]

/-- The answer of a call that is decided is one more answer. -/
theorem answers_settle (v : Verdict) (a : Option Frame) (hn : (tickets xs).Nodup) (hx : x ∈ xs)
    (ht : x.ticket = some t) (ha : x.answer = none) :
    (answers (Exchange.settle t v a xs)).Perm (a.toList ++ answers xs) := by
  obtain ⟨p, q, rfl, hne⟩ := split_of_ticket hn hx ht
  rw [settle_split v a ht hne]
  cases a with
  | none => simp [answers, ha]
  | some f =>
    simp only [answers, List.filterMap_append, List.filterMap_cons, ha, Option.toList_some,
      List.cons_append, List.nil_append]
    exact List.perm_middle

end Journal
end Callwire
