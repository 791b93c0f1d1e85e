/-
# A client and the connection it is joined to

What happens on the one wire of a pair is a move of its ends: the client or the
connection does something, or bytes go up or down. The rest of the network (time,
the other connections of the server) leaves both ends as they are, and the services
the same in outline. The account of a run keeps the log of the client and the
journal of the connection; it decides nothing.

Key definitions: `Network.pair`, `Network.follow`, `Ends`, `Ends.Move`.
Key theorems: `Network.network_follow`, `Network.observe_move`, `Network.follow_keeps`.
-/
import Callwire.Network
import Callwire.Proofs.Client.Hearing
import Callwire.Proofs.Connection.Upkeep

namespace Callwire

variable {σ : Type}

/-- Both ends of a wire, and what happened to them. -/
structure Ends (σ : Type) where
  client : Client
  log : Client.Log
  connection : Connection σ
  journal : Journal σ

/-- What can become of both ends: nothing, or one of them does something, or bytes
are carried. Services stay the same in outline. -/
inductive Ends.Move (reg : Registry σ) (v : Ends σ) : Ends σ → Prop where
  | rest : Move reg v v
  | call {e : Client.Event} {c' : Client} (he : e.bytes = []) (hc : v.client.step e = some c') :
      Move reg v { v with client := c', log := v.log.note v.client e }
  | serve {now : Nat} {r r' : Registry σ} {e : Connection.Event} {k' : Connection σ}
      (hp : r.plan = reg.plan) (he : e.bytes = []) (hk : v.connection.step now r e = some (k', r')) :
      Move reg v { v with connection := k', journal := v.journal.note r v.connection e k' }
  | up {m now : Nat} {r r' : Registry σ} {k' : Connection σ} (hp : r.plan = reg.plan)
      (hk : v.connection.step now r (.receive (v.client.outbox.wire.take m)) = some (k', r')) :
      Move reg v
        { v with
          client := { v.client with
            outbox := { v.client.outbox with wire := v.client.outbox.wire.drop m } }
          connection := k'
          journal := v.journal.note r v.connection (.receive (v.client.outbox.wire.take m)) k' }
  | down {m : Nat} {c' : Client}
      (hc : v.client.step (.receive (v.connection.outbox.wire.take m)) = some c') :
      Move reg v
        { v with
          client := c'
          log := v.log.note v.client (.receive (v.connection.outbox.wire.take m))
          connection := { v.connection with
            outbox := { v.connection.outbox with wire := v.connection.outbox.wire.drop m } } }

namespace Network

/-- A client that asks for these options, joined to a new connection of a server. -/
def pair (s : Server σ) (o : Options) : Network σ := ({ servers := [s] } : Network σ).join 0 o

/-- A network of one wire, the log of its client, and the journal of its connection. -/
structure Account (σ : Type) where
  network : Network σ
  log : Client.Log := {}
  journal : Journal σ := {}

/-- What an event is to the client; the connection is the `i`-th. -/
def clientEvent? (n : Network σ) (i : Nat) : Event → Option Client.Event
  | .client _ e => some e
  | .down _ m => (n.connection? (0, i)).map fun c => .receive (c.outbox.wire.take m)
  | .downEnd _ => some .hangUp
  | .upCut _ => some .lose
  | _ => none

/-- What an event is to the server. -/
def serverEvent? (n : Network σ) (i : Nat) : Event → Option Server.Event
  | .connection _ c e => some (.connection c e)
  | .up _ m => n.wires[0]?.map fun w => .connection i (.receive (w.client.outbox.wire.take m))
  | .upEnd _ => some (.connection i .hangUp)
  | .downCut _ => some (.connection i .lose)
  | _ => none

/-- The log after an event that led from `n` on. -/
def noteLog (n : Network σ) (i : Nat) (e : Event) (l : Client.Log) : Client.Log :=
  match n.wires[0]?, n.clientEvent? i e with
  | some w, some ce => l.note w.client ce
  | _, _ => l

/-- The journal after an event that led from `n` to `n'`. -/
def noteJournal (n : Network σ) (i : Nat) (e : Event) (n' : Network σ) (j : Journal σ) : Journal σ :=
  match n.servers[0]?, n'.servers[0]?, n.serverEvent? i e with
  | some s, some s', some se => s.record i se s' j
  | _, _, _ => j

/-- The account after an event, if it can happen. -/
def observe (i : Nat) (a : Account σ) (e : Event) : Account σ :=
  match a.network.step e with
  | some n => ⟨n, a.network.noteLog i e a.log, a.network.noteJournal i e n a.journal⟩
  | none => a

/-- The account of a pair after some events. Events that cannot happen do nothing. -/
def follow (s : Server σ) (o : Options) (es : List Event) : Account σ :=
  es.foldl (observe s.connections.length) ⟨pair s o, {}, {}⟩

theorem network_follow (s : Server σ) (o : Options) (es : List Event) :
    (follow s o es).network = es.foldl apply (pair s o) := by
  have hone : ∀ (i : Nat) (a : Account σ) (e : Event), (observe i a e).network = a.network.apply e := by
    intro i a e
    rw [observe, apply]
    cases a.network.step e <;> rfl
  have h : ∀ a : Account σ,
      (es.foldl (observe s.connections.length) a).network = es.foldl apply a.network := by
    induction es with
    | nil => exact fun _ => rfl
    | cons e es ih => exact fun a => by rw [List.foldl_cons, List.foldl_cons, ih, hone]
  exact h _

/-- The account is that of a pair with these ends. -/
structure Account.Shows (a : Account σ) (reg : Registry σ) (i : Nat) (s : Server σ) (v : Ends σ) : Prop where
  servers : a.network.servers = [s]
  wires : a.network.wires = [⟨v.client, some (0, i)⟩]
  connection : s.connections[i]? = some v.connection
  plan : s.registry.plan = reg.plan
  log : a.log = v.log
  journal : a.journal = v.journal

variable {a : Account σ} {reg : Registry σ} {i : Nat} {s s' : Server σ} {v : Ends σ} {n : Network σ}

theorem onConnection_eq_some {n' : Network σ} {j c : Nat} {e : Connection.Event}
    (hn : n.onConnection j c e = some n') (hs : n.servers = [s]) :
    j = 0 ∧ ∃ s', s.step (.connection c e) = some s' ∧ n' = { n with servers := [s'] } := by
  simp only [onConnection, hs, bind, Option.bind] at hn
  cases j with
  | succ j => simp at hn
  | zero =>
    cases hc : s.step (.connection c e) with
    | none => simp [hc] at hn
    | some s' =>
      simp only [List.getElem?_cons_zero, hc, pure, Option.some.injEq] at hn
      exact ⟨rfl, s', rfl, hn.symm⟩

namespace Account.Shows

theorem connection? (h : a.Shows reg i s v) : a.network.connection? (0, i) = some v.connection := by
  simp [Network.connection?, h.servers, h.connection]

theorem wire (h : a.Shows reg i s v) (k : Nat) :
    a.network.wires[k]? = if k = 0 then some ⟨v.client, some (0, i)⟩ else none := by
  rw [h.wires]
  cases k <;> rfl

/-- What happens to the connection itself. -/
theorem own (h : a.Shows reg i s v) {e : Connection.Event} (hs : s.step (.connection i e) = some s') :
    ∃ k', v.connection.step s.now s.registry e = some (k', s'.registry) ∧
      s'.connections[i]? = some k' ∧ s'.registry.plan = reg.plan ∧
      s.record i (.connection i e) s' a.journal = v.journal.note s.registry v.connection e k' := by
  obtain ⟨hp, ⟨hne, -⟩ | ⟨ce, k', hce, hee, hc, hr⟩⟩ :=
    Server.observe_cases (j := a.journal) hs h.connection
  · exact absurd rfl (hne e)
  · cases hee
    exact ⟨k', hce, hc, hp.trans h.plan, by rw [hr, h.journal]⟩

/-- The server does something: the connection does, or it stays as it is. -/
theorem serve (h : a.Shows reg i s v) {c : Nat} {e : Connection.Event} (he : e.bytes = [])
    (hs : s.step (.connection c e) = some s') :
    ∃ k' j', v.Move reg { v with connection := k', journal := j' } ∧
      s'.connections[i]? = some k' ∧ s'.registry.plan = reg.plan ∧
      s.record i (.connection c e) s' a.journal = j' := by
  obtain ⟨hp, ⟨-, hc, hr⟩ | ⟨ce, k', hce, hee, hc, hr⟩⟩ :=
    Server.observe_cases (j := a.journal) hs h.connection
  · exact ⟨v.connection, v.journal, .rest, hc, hp.trans h.plan, hr.trans h.journal⟩
  · cases hee
    exact ⟨k', _, .serve h.plan he hce, hc, hp.trans h.plan, by rw [hr, h.journal]⟩

/-- Bytes are carried down: the connection has fewer to be carried. -/
theorem down (h : a.Shows reg i s v) (m : Nat) (c' : Client) (l : Client.Log) :
    ∃ s', Account.Shows
      ⟨(a.network.putClient 0 ⟨v.client, some (0, i)⟩ c').putWritten (0, i)
        (v.connection.outbox.wire.drop m), l, a.journal⟩ reg i s'
      { v with
        client := c'
        log := l
        connection := { v.connection with
          outbox := { v.connection.outbox with wire := v.connection.outbox.wire.drop m } } } := by
  let s' : Server σ := { s with connections := s.connections.modify i fun c =>
    { c with outbox := { c.outbox with wire := v.connection.outbox.wire.drop m } } }
  have hget : s'.connections[i]? = some { v.connection with
      outbox := { v.connection.outbox with wire := v.connection.outbox.wire.drop m } } := by
    simp [s', h.connection]
  refine ⟨s', ?_, ?_, hget, h.plan, rfl, h.journal⟩
  · simp only [putClient, putWritten, h.servers]
    rfl
  · simp only [putClient, putWritten, h.wires]
    rfl

end Account.Shows

theorem noteLog_none {e : Event} (he : n.clientEvent? i e = none) (l : Client.Log) :
    n.noteLog i e l = l := by
  rw [noteLog, he]
  split <;> simp_all

theorem noteJournal_none {n' : Network σ} {e : Event} (he : n.serverEvent? i e = none) (j : Journal σ) :
    n.noteJournal i e n' j = j := by
  rw [noteJournal, he]
  split <;> simp_all

theorem noteLog_some (h : a.Shows reg i s v) (e : Event) (ce : Client.Event)
    (he : a.network.clientEvent? i e = some ce) :
    a.network.noteLog i e a.log = v.log.note v.client ce := by
  rw [noteLog, h.wires, he, h.log]
  rfl

theorem noteJournal_some (h : a.Shows reg i s v) {e : Event} {se : Server.Event}
    (he : a.network.serverEvent? i e = some se) (hn : n.servers = [s']) :
    a.network.noteJournal i e n a.journal = s.record i se s' a.journal := by
  rw [noteJournal, h.servers, hn, he]
  rfl

/-- **What happens in a network of one wire is a move of its ends.** -/
theorem observe_move (h : a.Shows reg i s v) (e : Event) :
    ∃ s' v', v.Move reg v' ∧ (observe i a e).Shows reg i s' v' := by
  cases hn : a.network.step e with
  | none =>
    rw [observe, hn]
    exact ⟨s, v, .rest, h⟩
  | some n =>
    have hobs : observe i a e =
        ⟨n, a.network.noteLog i e a.log, a.network.noteJournal i e n a.journal⟩ := by
      rw [observe, hn]
    rw [hobs]
    cases e with
    | tick t =>
      cases hn
      exact ⟨{ s with now := s.now + t }, v, .rest, by rw [h.servers]; rfl, h.wires, h.connection, h.plan,
        (noteLog_none rfl _).trans h.log, (noteJournal_none rfl _).trans h.journal⟩
    | client k e =>
      simp only [step, h.wire, bind, Option.bind_eq_some_iff, Option.ite_none_right_eq_some] at hn
      obtain ⟨w, ⟨rfl, hw⟩, he, c', hc, hn⟩ := hn
      cases hw
      cases hn
      exact ⟨s, _, .call (Client.Event.bytes_eq_nil he) hc, h.servers, by rw [putClient, h.wires]; rfl,
        h.connection, h.plan, noteLog_some h _ _ rfl, (noteJournal_none rfl _).trans h.journal⟩
    | connection j c e =>
      simp only [step, Option.ite_none_right_eq_some] at hn
      obtain ⟨he, hn⟩ := hn
      obtain ⟨rfl, s', hs, rfl⟩ := onConnection_eq_some hn h.servers
      obtain ⟨k', j', hm, hc, hp, hj⟩ := h.serve (Connection.Event.bytes_eq_nil he) hs
      exact ⟨s', _, hm, rfl, h.wires, hc, hp, (noteLog_none rfl _).trans h.log,
        (noteJournal_some h rfl rfl).trans hj⟩
    | up k m =>
      simp only [step, h.wire, bind, Option.bind_eq_some_iff, Option.ite_none_right_eq_some] at hn
      obtain ⟨w, ⟨rfl, hw⟩, hm, hn⟩ := hn
      cases hw
      change (a.network.putClient 0 _ _).onConnection 0 i _ = some n at hn
      obtain ⟨-, s', hs, rfl⟩ := onConnection_eq_some hn h.servers
      obtain ⟨k', hk, hc, hp, hj⟩ := h.own hs
      exact ⟨s', _, .up h.plan hk, rfl, by rw [putClient, h.wires]; rfl, hc, hp,
        (noteLog_none rfl _).trans h.log,
        (noteJournal_some h (by simp [serverEvent?, h.wires]) rfl).trans hj⟩
    | down k m =>
      simp only [step, h.wire, bind, Option.bind_eq_some_iff, Option.ite_none_right_eq_some] at hn
      obtain ⟨w, ⟨rfl, hw⟩, far, hfar, c, hc, hm, c', hc', hn⟩ := hn
      cases hw
      cases hfar
      rw [h.connection?] at hc
      cases hc
      cases hn
      have hlog : a.network.noteLog i (.down 0 m) a.log =
          v.log.note v.client (.receive (v.connection.outbox.wire.take m)) := by
        refine noteLog_some h (.down 0 m) _ ?_
        simp [clientEvent?, h.connection?]
      rw [hlog, noteJournal_none rfl]
      obtain ⟨s', hs'⟩ := h.down m c' (v.log.note v.client (.receive (v.connection.outbox.wire.take m)))
      exact ⟨s', _, .down hc', hs'⟩
    | upEnd k =>
      simp only [step, h.wire, bind, Option.bind_eq_some_iff, Option.ite_none_right_eq_some] at hn
      obtain ⟨w, ⟨rfl, hw⟩, hn⟩ := hn
      cases hw
      obtain ⟨k, -, -, hn⟩ := hn
      obtain ⟨-, s', hs, rfl⟩ := onConnection_eq_some hn h.servers
      obtain ⟨k', j', hm, hc, hp, hj⟩ := h.serve (e := .hangUp) rfl hs
      exact ⟨s', _, hm, rfl, h.wires, hc, hp, (noteLog_none rfl _).trans h.log,
        (noteJournal_some h rfl rfl).trans hj⟩
    | downEnd k =>
      simp only [step, h.wire, bind, Option.bind_eq_some_iff, Option.ite_none_right_eq_some] at hn
      obtain ⟨w, ⟨rfl, hw⟩, k', -, -, c', hc, hn⟩ := hn
      cases hw
      cases hn
      exact ⟨s, _, .call rfl hc, h.servers, by rw [putClient, h.wires]; rfl,
        h.connection, h.plan, noteLog_some h (.downEnd 0) .hangUp rfl,
        (noteJournal_none rfl _).trans h.journal⟩
    | upCut k =>
      simp only [step, h.wire, bind, Option.bind_eq_some_iff, Option.ite_none_right_eq_some] at hn
      obtain ⟨w, ⟨rfl, hw⟩, k', -, -, c', hc, hn⟩ := hn
      cases hw
      cases hn
      exact ⟨s, _, .call rfl hc, h.servers, by rw [putClient, h.wires]; rfl,
        h.connection, h.plan, noteLog_some h (.upCut 0) .lose rfl, (noteJournal_none rfl _).trans h.journal⟩
    | downCut k =>
      simp only [step, h.wire, bind, Option.bind_eq_some_iff, Option.ite_none_right_eq_some] at hn
      obtain ⟨w, ⟨rfl, hw⟩, hn⟩ := hn
      cases hw
      obtain ⟨k, -, -, hn⟩ := hn
      obtain ⟨-, s', hs, rfl⟩ := onConnection_eq_some hn h.servers
      obtain ⟨k', j', hm, hc, hp, hj⟩ := h.serve (e := .lose) rfl hs
      exact ⟨s', _, hm, rfl, h.wires, hc, hp, (noteLog_none rfl _).trans h.log,
        (noteJournal_some h rfl rfl).trans hj⟩

/-- **What holds of the ends at first, and after every move, holds in every run.** -/
theorem follow_keeps (s : Server σ) (o : Options) (es : List Event) {P : Ends σ → Prop}
    (hstart : P ⟨Client.start o, {},
      .fresh s.config.maxBody s.config.maxCalls s.config.capacity false, {}⟩)
    (hmove : ∀ v v', v.Move s.registry v' → P v → P v') :
    ∃ s' v, (follow s o es).Shows s.registry s.connections.length s' v ∧ P v := by
  have hrun : ∀ (a : Account σ) (s' : Server σ) (v : Ends σ),
      a.Shows s.registry s.connections.length s' v → P v →
      ∃ s'' v', (es.foldl (observe s.connections.length) a).Shows s.registry s.connections.length s'' v' ∧
        P v' := by
    induction es with
    | nil => exact fun _ s' v ha hv => ⟨s', v, ha, hv⟩
    | cons e es ih =>
      intro a s' v ha hv
      obtain ⟨s'', v', hm, ha'⟩ := observe_move ha e
      exact ih _ s'' v' ha' (hmove v v' hm hv)
  exact hrun ⟨pair s o, {}, {}⟩ (s.arrive false) _
    ⟨rfl, rfl, List.getElem?_concat_length, rfl, rfl, rfl⟩ hstart

end Network
end Callwire
