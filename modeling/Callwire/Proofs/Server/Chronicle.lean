/-
# What happened on all connections of a server

The chronicle of a server keeps its connections, each with its journal. A connection
that comes through a tunnel has no journal until the head of the tunnel is answered; its
stream begins after the head. The chronicle decides nothing: its server does what every
server does. Whatever happens is a move of it: time passes, a connection comes, one
connection does something, or a peer takes bytes that were written to it. So what holds
of a new connection and after every move holds of every connection in every run.

Key definitions: `Journal.watch`, `Server.Act`, `Server.Chronicle`, `Server.chronicle`,
`Chronicle.Move`, `Connection.Known`.
Key theorems: `Server.server_chronicle`, `Chronicle.observe_move`,
`Server.chronicle_keeps`, `Server.known_of_mem_chronicle`.
-/
import Callwire.Proofs.Connection.Upkeep

namespace Callwire

variable {σ : Type}

/-- What is known of a connection after an event: nothing while the head of its tunnel
is read, then its journal. -/
def Journal.watch (r : Registry σ) (c : Connection σ) (e : Connection.Event) (c' : Connection σ) :
    Option (Journal σ) → Option (Journal σ)
  | some j => some (j.note r c e c')
  | none =>
    match c.stage, c'.stage with
    | .head _, .options => some { input := c'.buffer.unread }
    | _, _ => none

/-- A peer takes bytes that were written. -/
def Connection.collect (c : Connection σ) (n : Nat) : Connection σ :=
  { c with outbox := { c.outbox with wire := c.outbox.wire.drop n } }

namespace Server

/-- What can happen to a server and to the streams of its connections. -/
inductive Act where
  | event (e : Event)
  | collect (i n : Nat)

/-- The server after an act, or as it was if the act cannot happen. -/
def act (s : Server σ) : Act → Server σ
  | .event e => s.apply e
  | .collect i n => { s with connections := s.connections.modify i (·.collect n) }

/-- A server that was just set up. -/
def opened (k : Config) (reg : Registry σ) : Server σ where
  config := k
  registry := reg

/-- A server whose connections stand beside their journals. -/
structure Chronicle (σ : Type) where
  config : Config
  registry : Registry σ
  entries : List (Connection σ × Option (Journal σ)) := []
  now : Nat := 0

namespace Chronicle

/-- The server alone. -/
def server (p : Chronicle σ) : Server σ := ⟨p.config, p.registry, p.entries.map (·.1), p.now⟩

/-- The chronicle after an act. -/
def observe (p : Chronicle σ) : Act → Chronicle σ
  | .event (.arrive tunnelled) =>
    let c := p.config
    { p with entries := p.entries ++
        [(.fresh c.maxBody c.maxCalls c.capacity tunnelled, if tunnelled then none else some {})] }
  | .event (.tick n) => { p with now := p.now + n }
  | .event (.connection i ce) =>
    match p.entries[i]? with
    | none => p
    | some (c, o) =>
      match c.step p.now p.registry ce with
      | none => p
      | some (c', r) =>
        { p with
          registry := r
          entries := p.entries.set i (c', Journal.watch p.registry c ce c' o) }
  | .collect i n => { p with entries := p.entries.modify i fun x => (x.1.collect n, x.2) }

theorem server_observe (p : Chronicle σ) (a : Act) : (p.observe a).server = p.server.act a := by
  cases a with
  | event e =>
    cases e with
    | arrive tunnelled => simp [observe, server, act, apply, step, arrive]
    | tick n => rfl
    | connection i ce =>
      have hget : p.server.connections[i]? = p.entries[i]?.map (·.1) := List.getElem?_map
      unfold observe act apply
      simp only [step, hget, bind, Option.bind, pure]
      cases p.entries[i]? with
      | none => rfl
      | some x =>
        have hstep : p.server.now = p.now ∧ p.server.registry = p.registry := ⟨rfl, rfl⟩
        simp only [Option.map_some, hstep]
        cases x.1.step p.now p.registry ce with
        | none => rfl
        | some q => simp [server, put, List.map_set]
  | collect i n =>
    simp only [observe, server, act, List.modify_eq_set_getElem?, List.getElem?_map]
    cases p.entries[i]? <;> simp [List.map_set]

/-! ### Moves -/

/-- What can become of a chronicle: time passes, a connection comes, one connection does
something, or bytes that were written are taken. -/
inductive Move (p : Chronicle σ) : Chronicle σ → Prop where
  | wait {now : Nat} (h : p.now ≤ now) : Move p { p with now := now }
  | arrive (tunnelled : Bool) :
      Move p { p with entries := p.entries ++
        [(.fresh p.config.maxBody p.config.maxCalls p.config.capacity tunnelled,
          if tunnelled then none else some {})] }
  | change {xs ys : List (Connection σ × Option (Journal σ))} {c c' : Connection σ}
      {o : Option (Journal σ)} {e : Connection.Event} {r' : Registry σ}
      (he : p.entries = xs ++ (c, o) :: ys) (hc : c.step p.now p.registry e = some (c', r')) :
      Move p { p with
        registry := r'
        entries := xs ++ (c', Journal.watch p.registry c e c' o) :: ys }
  | collect {xs ys : List (Connection σ × Option (Journal σ))} {c : Connection σ}
      {o : Option (Journal σ)} (n : Nat) (he : p.entries = xs ++ (c, o) :: ys) :
      Move p { p with entries := xs ++ (c.collect n, o) :: ys }

/-- **Whatever happens to a server is a move of its chronicle.** -/
theorem observe_move (p : Chronicle σ) (a : Act) : p.Move (p.observe a) := by
  have hrest : p.Move p := .wait (Nat.le_refl p.now)
  cases a with
  | event e =>
    cases e with
    | arrive tunnelled => exact .arrive tunnelled
    | tick n => exact .wait (Nat.le_add_right p.now n)
    | connection i ce =>
      cases hget : p.entries[i]? with
      | none => simpa only [observe, hget] using hrest
      | some x =>
        obtain ⟨c, o⟩ := x
        cases hc : c.step p.now p.registry ce with
        | none => simpa only [observe, hget, hc] using hrest
        | some q =>
          obtain ⟨hi, hx⟩ := List.getElem?_eq_some_iff.mp hget
          obtain ⟨xs, ys, he, -, hset⟩ :=
            @List.exists_of_set _ i (q.1, Journal.watch p.registry c ce q.1 o) _ hi
          rw [hx] at he
          simp only [observe, hget, hc, hset]
          exact .change he hc
  | collect i n =>
    by_cases hi : i < p.entries.length
    · obtain ⟨xs, x, ys, he, -, hmod⟩ := List.exists_of_modify
        (fun x : Connection σ × Option (Journal σ) => (x.1.collect n, x.2)) hi
      simp only [observe, hmod]
      exact .collect n he
    · have hnone : p.entries[i]? = none := List.getElem?_eq_none (by omega)
      simp only [observe, List.modify_eq_set_getElem?, hnone]
      exact hrest

end Chronicle

/-- The chronicle of a new server after some acts. -/
def chronicle (k : Config) (reg : Registry σ) (as : List Act) : Chronicle σ :=
  as.foldl .observe ⟨k, reg, [], 0⟩

theorem server_chronicle (k : Config) (reg : Registry σ) (as : List Act) :
    (chronicle k reg as).server = as.foldl act (opened k reg) := by
  have h : ∀ p : Chronicle σ, (as.foldl Chronicle.observe p).server = as.foldl act p.server := by
    induction as with
    | nil => exact fun _ => rfl
    | cons a as ih => exact fun p => by rw [List.foldl_cons, List.foldl_cons, ih, p.server_observe]
  exact h _

theorem chronicle_concat (k : Config) (reg : Registry σ) (as : List Act) (a : Act) :
    chronicle k reg (as ++ [a]) = (chronicle k reg as).observe a := by
  rw [chronicle, chronicle, List.foldl_append]
  rfl

/-- What holds of a new server and after every move of a run holds in every run. -/
theorem chronicle_induction {k : Config} {reg : Registry σ} {P : Chronicle σ → Prop}
    (hopened : P ⟨k, reg, [], 0⟩)
    (hmove : ∀ as p', (chronicle k reg as).Move p' → P (chronicle k reg as) → P p') (as : List Act) :
    P (chronicle k reg as) := by
  induction as using List.reverseRecOn with
  | nil => exact hopened
  | append_singleton as a ih =>
    rw [chronicle_concat]
    exact hmove as _ (Chronicle.observe_move _ a) ih

/-- **What holds of every new connection, as time passes, after every event of it and when
bytes are taken, holds of all connections in every run**; bounds stay, and services stay
the same in outline. -/
theorem chronicle_keeps {k : Config} {reg : Registry σ}
    {P : Nat → Connection σ → Option (Journal σ) → Prop}
    (hfresh : ∀ now tunnelled, P now (.fresh k.maxBody k.maxCalls k.capacity tunnelled)
      (if tunnelled then none else some {}))
    (hwait : ∀ now now' c o, now ≤ now' → P now c o → P now' c o)
    (hstep : ∀ now r r' c c' o e, r.plan = reg.plan → c.step now r e = some (c', r') → P now c o →
      P now c' (Journal.watch r c e c' o))
    (hcollect : ∀ now c o n, P now c o → P now (c.collect n) o) (as : List Act) :
    let p := chronicle k reg as
    p.config = k ∧ p.registry.plan = reg.plan ∧ ∀ x ∈ p.entries, P p.now x.1 x.2 := by
  refine chronicle_induction (P := fun p => p.config = k ∧ p.registry.plan = reg.plan ∧
    ∀ x ∈ p.entries, P p.now x.1 x.2) ⟨rfl, rfl, List.forall_mem_nil _⟩ ?_ as
  rintro as p' hm ⟨hk, hplan, hall⟩
  cases hm with
  | wait h => exact ⟨hk, hplan, fun x hx => hwait _ _ _ _ h (hall x hx)⟩
  | arrive tunnelled =>
    refine ⟨hk, hplan, List.forall_mem_append.mpr ⟨hall, List.forall_mem_singleton.mpr ?_⟩⟩
    rw [hk]
    exact hfresh _ tunnelled
  | change he hc =>
    rw [he, List.forall_mem_append, List.forall_mem_cons] at hall
    obtain ⟨hxs, hx, hys⟩ := hall
    have hx' := hstep _ _ _ _ _ _ _ hplan hc hx
    exact ⟨hk, (Connection.plan_step (.of_step hc)).trans hplan,
      List.forall_mem_append.mpr ⟨hxs, List.forall_mem_cons.mpr ⟨hx', hys⟩⟩⟩
  | collect n he =>
    rw [he, List.forall_mem_append, List.forall_mem_cons] at hall
    obtain ⟨hxs, hx, hys⟩ := hall
    have hx' := hcollect _ _ _ n hx
    exact ⟨hk, hplan, List.forall_mem_append.mpr ⟨hxs, List.forall_mem_cons.mpr ⟨hx', hys⟩⟩⟩

theorem plan_chronicle (k : Config) (reg : Registry σ) (as : List Act) :
    (chronicle k reg as).registry.plan = reg.plan :=
  (chronicle_keeps (k := k) (P := fun _ _ _ => True) (fun _ _ => trivial) (fun _ _ _ _ _ _ => trivial)
    (fun _ _ _ _ _ _ _ _ _ _ => trivial) (fun _ _ _ _ _ => trivial) as).2.1

end Server

/-! ### What is known of a connection -/

namespace Connection

/-- The head of the tunnel is not answered yet, or it was wrong; there is no request. -/
structure Tunnelling (k : Server.Config) (c : Connection σ) : Prop where
  stage : (∃ hd, c.stage = .head hd) ∨ c.stage = .gone
  running : c.running = []
  answered : c.answered = []
  writer : c.outbox.state = .working ∧ c.outbox.released = false
  permits : c.permits = max 1 k.maxCalls
  capacity : c.outbox.capacity = k.capacity
  limit : c.buffer.limit = k.maxBody
  awaited : c.buffer.awaited = none

/-- What holds of a connection and of what is known of it at all times. -/
def Known (reg : Registry σ) (k : Server.Config) (c : Connection σ) : Option (Journal σ) → Prop
  | some j => Kept reg k c j
  | none => Tunnelling k c

variable {now : Nat} {r r' reg : Registry σ} {c c' : Connection σ} {e : Event} {k : Server.Config}
  {o : Option (Journal σ)}

theorem known_some {j : Journal σ} : Known reg k c (some j) ↔ Kept reg k c j := Iff.rfl

theorem known_fresh (reg : Registry σ) (k : Server.Config) (tunnelled : Bool) :
    Known reg k (.fresh k.maxBody k.maxCalls k.capacity tunnelled)
      (if tunnelled then none else some {}) := by
  cases tunnelled with
  | false => exact Server.kept_fresh k reg
  | true => exact ⟨.inl ⟨.empty, rfl⟩, rfl, rfl, ⟨rfl, rfl⟩, rfl, rfl, rfl, rfl⟩

theorem watch_none (h : c'.stage ≠ .options) : Journal.watch r c e c' none = none := by
  simp only [Journal.watch]
  split
  · contradiction
  · rfl

/-- The journal begins when the head is answered, with what came after it. -/
theorem Tunnelling.step (h : Step now r c e c' r') (ht : c.Tunnelling k) :
    Known reg k c' (Journal.watch r c e c' none) := by
  have hno : c.stage ≠ .options := by
    rcases ht.stage with ⟨hd, hst⟩ | hst <;> simp [hst]
  have hns : ∀ terms i, c.stage ≠ .serving terms i := by
    intro terms i
    rcases ht.stage with ⟨hd, hst⟩ | hst <;> simp [hst]
  cases h with
  | receive _ | hangUp | lose | retire _ =>
    rw [watch_none (by exact hno)]
    exact { ht with }
  | head hst hr =>
    obtain ⟨u, w, stage, hstage, rfl⟩ := readHead_cases hr
    rcases hstage with ⟨hd, rfl⟩ | rfl | rfl
    · rw [watch_none (by simp)]
      exact { ht with stage := .inl ⟨hd, rfl⟩ }
    · have hu : Unserved k { c with
          buffer := { c.buffer with unread := u }
          outbox := { c.outbox with wire := w }
          stage := .options } { input := u } :=
        ⟨rfl, rfl, ht.running, ht.answered, ht.writer, ht.permits, ht.capacity, ht.limit,
          .inl rfl, fun _ => ⟨ht.awaited, rfl⟩, fun h => by cases h⟩
      simp only [Journal.watch, hst]
      exact known_some.mpr hu.kept
    · rw [watch_none (by simp)]
      exact { ht with stage := .inr rfl }
  | options hst _ => exact absurd hst hno
  | frame hst _ | stop hst _ | refuse hst _ | drop hst _ | start hst _ => exact absurd hst (hns _ _)
  | finish hst _ _ | expire hst _ | release hst _ _ _ | write hst _ _ => exact absurd hst (hns _ _)
  | post ha _ | discard ha _ =>
    rw [ht.answered] at ha
    cases ha

/-- **A connection is known after every event.** -/
theorem Known.step (h : c.step now r e = some (c', r')) (hp : r.plan = reg.plan)
    (hk : Known reg k c o) : Known reg k c' (Journal.watch r c e c' o) := by
  cases o with
  | none => exact Tunnelling.step (.of_step h) hk
  | some j => exact Kept.step h hp hk

theorem Known.collect (hk : Known reg k c o) (n : Nat) : Known reg k (c.collect n) o := by
  cases o with
  | none => exact { hk with }
  | some j => exact Kept.wire hk _

end Connection

namespace Server

/-- **In every run every connection is known.** -/
theorem known_of_mem_chronicle {k : Config} {reg : Registry σ} {as : List Act}
    {x : Connection σ × Option (Journal σ)} (hx : x ∈ (chronicle k reg as).entries) :
    Connection.Known reg k x.1 x.2 := by
  have h := chronicle_keeps (k := k) (P := fun _ c o => Connection.Known reg k c o)
    (fun _ tunnelled => Connection.known_fresh reg k tunnelled) (fun _ _ _ _ _ hk => hk)
    (fun _ _ _ _ _ _ _ hp hc hk => hk.step hc hp) (fun _ _ _ n hk => hk.collect n) as
  exact h.2.2 x hx

end Server
end Callwire
