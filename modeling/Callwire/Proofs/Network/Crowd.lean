/-
# Servers in a network of many clients

Any number of clients call any number of servers: they begin calls, give them up, are
closed or gone, and streams end anywhere. Peers that are no clients of the network may
come and go as well. Whatever happens, it is to each server a step of its own, or
nothing: bytes come, a side ends, bytes are taken. So a server in a network does what a
server does, and its chronicle tells what happened on all its connections. With handlers
that add, the total is in the end what all requests of all streams add; it depends on the
gists of the streams alone, and not on timeouts, limits, or on who waited for an answer.

Key definitions: `Network.Act`, `Network.serverAct?`, `Network.serverActs`.
Key theorems: `Network.server_act`, `Network.servers_run`, `Network.effects_count_once`.
-/
import Callwire.Network
import Callwire.Proofs.Server.Totals

namespace Callwire

variable {σ A : Type} [AddCommMonoid A]

namespace Network

/-- What can happen to a network: an event of it, or a client joins a server, or a peer
that is no client of it does something. -/
inductive Act where
  | event (e : Event)
  | join (i : Nat) (o : Options)
  | peer (i : Nat) (a : Server.Act)

/-- The network after an act, or as it was if the act cannot happen. -/
def act (n : Network σ) : Act → Network σ
  | .event e => n.apply e
  | .join i o => n.join i o
  | .peer i a => { n with servers := n.servers.modify i (·.act a) }

/-- What a wire does to the connection at its far end, if that is one of the `i`-th
server. -/
def onWire? (n : Network σ) (i k : Nat) (f : Wire → Nat → Server.Act) : Option Server.Act := do
  let w ← n.wires[k]?
  let (j, c) ← w.far
  if j = i then some (f w c) else none

/-- What an event is to the `i`-th server. -/
def eventAct? (n : Network σ) (i : Nat) : Event → Option Server.Act
  | .tick t => some (.event (.tick t))
  | .connection j c e => if j = i then some (.event (.connection c e)) else none
  | .up k m => n.onWire? i k fun w c => .event (.connection c (.receive (w.client.outbox.wire.take m)))
  | .upEnd k => n.onWire? i k fun _ c => .event (.connection c .hangUp)
  | .downCut k => n.onWire? i k fun _ c => .event (.connection c .lose)
  | .down k m => n.onWire? i k fun _ c => .collect c m
  | _ => none

/-- What an act is to the `i`-th server, if it happens. -/
def serverAct? (n : Network σ) (i : Nat) : Act → Option Server.Act
  | .event e => (n.step e).bind fun _ => n.eventAct? i e
  | .join j _ => if j = i then some (.event (.arrive false)) else none
  | .peer j a => if j = i then some a else none

/-- What a run of the network is to the `i`-th server. -/
def serverActs (i : Nat) : Network σ → List Act → List Server.Act
  | _, [] => []
  | n, a :: as => (n.serverAct? i a).toList ++ serverActs i (n.act a) as

variable {n m n' : Network σ} {i k : Nat} {w : Wire}

theorem onConnection_servers {j c : Nat} {e : Connection.Event} (h : n.onConnection j c e = some n') :
    n'.servers[i]? = n.servers[i]?.map fun s =>
      (if j = i then some (Server.Act.event (.connection c e)) else none).elim s s.act := by
  simp only [onConnection, bind, Option.bind_eq_some_iff] at h
  obtain ⟨s, hs, s', hs', h⟩ := h
  cases h
  by_cases hj : j = i
  · subst hj
    have hlt : j < n.servers.length := (List.getElem?_eq_some_iff.mp hs).1
    have hact : s.act (.event (.connection c e)) = s' := by
      rw [Server.act, Server.apply, hs', Option.getD_some]
    rw [if_pos rfl, List.getElem?_set_self hlt, hs, Option.map_some, Option.elim_some, hact]
  · rw [if_neg hj, List.getElem?_set_ne hj]
    simp

/-- What comes over a wire comes to the connection at its far end. -/
theorem onFarEnd_servers {e : Connection.Event} (hm : m.servers = n.servers) (hw : n.wires[k]? = some w)
    (h : m.onFarEnd w e = some n') {f : Wire → Nat → Server.Act}
    (hf : ∀ c, f w c = .event (.connection c e)) :
    n'.servers[i]? = n.servers[i]?.map fun s => (n.onWire? i k f).elim s s.act := by
  simp only [onFarEnd, bind, Option.bind_eq_some_iff] at h
  obtain ⟨⟨j, c⟩, hfar, h⟩ := h
  have hwire : n.onWire? i k f = if j = i then some (.event (.connection c e)) else none := by
    simp only [onWire?, hw, hfar, hf, bind, Option.bind_some]
  rw [onConnection_servers h, hm, hwire]

/-- Bytes that a wire brings down are taken from the connection at its far end. -/
theorem putWritten_servers {j c m : Nat} {x : Connection σ} (hx : n.connection? (j, c) = some x) :
    (n.putWritten (j, c) (x.outbox.wire.drop m)).servers[i]? = n.servers[i]?.map fun s =>
      (if j = i then some (Server.Act.collect c m) else none).elim s s.act := by
  simp only [connection?, bind, Option.bind_eq_some_iff] at hx
  obtain ⟨s, hs, hx⟩ := hx
  let f (s : Server σ) : Server σ := { s with
    connections := s.connections.modify c fun y =>
      { y with outbox := { y.outbox with wire := x.outbox.wire.drop m } } }
  have hput : (n.putWritten (j, c) (x.outbox.wire.drop m)).servers = n.servers.modify j f := rfl
  rw [hput]
  by_cases hj : j = i
  · subst hj
    have hf : f s = s.act (.collect c m) := by
      simp only [f, Server.act, List.modify_eq_set_getElem?, hx]
      rfl
    rw [if_pos rfl, List.getElem?_modify_eq, hs]
    exact congrArg some hf
  · rw [if_neg hj, List.getElem?_modify_ne _ _ hj]
    simp

theorem event_servers {e : Event} (h : n.step e = some n') :
    n'.servers[i]? = n.servers[i]?.map fun s => (n.eventAct? i e).elim s s.act := by
  have hsame : n'.servers = n.servers → n.eventAct? i e = none →
      n'.servers[i]? = n.servers[i]?.map fun s => (n.eventAct? i e).elim s s.act := by
    intro hs hno
    rw [hs, hno]
    simp
  cases e with
  | tick t =>
    cases h
    exact List.getElem?_map
  | client k e =>
    simp only [step, bind, Option.bind_eq_some_iff, Option.ite_none_right_eq_some] at h
    obtain ⟨w, -, -, c, -, h⟩ := h
    cases h
    exact hsame rfl rfl
  | connection j c e =>
    simp only [step, Option.ite_none_right_eq_some] at h
    exact onConnection_servers h.2
  | up k m =>
    simp only [step, bind, Option.bind_eq_some_iff, Option.ite_none_right_eq_some] at h
    obtain ⟨w, hw, -, h⟩ := h
    exact onFarEnd_servers (n := n) (m := n.putClient k w _) rfl hw h fun _ => by rfl
  | down k m =>
    simp only [step, bind, Option.bind_eq_some_iff, Option.ite_none_right_eq_some] at h
    obtain ⟨w, hw, ⟨j, c⟩, hfar, x, hx, -, c', -, h⟩ := h
    cases h
    have hwire : n.eventAct? i (.down k m) = if j = i then some (.collect c m) else none := by
      simp only [eventAct?, onWire?, hw, hfar, bind, Option.bind_some]
    rw [hwire]
    exact putWritten_servers hx
  | upEnd k =>
    simp only [step, bind, Option.bind_eq_some_iff, Option.ite_none_right_eq_some] at h
    obtain ⟨w, hw, x, -, -, h⟩ := h
    exact onFarEnd_servers rfl hw h fun _ => by rfl
  | downEnd k | upCut k =>
    simp only [step, bind, Option.bind_eq_some_iff, Option.ite_none_right_eq_some] at h
    obtain ⟨w, -, x, -, -, c, -, h⟩ := h
    cases h
    exact hsame rfl rfl
  | downCut k =>
    simp only [step, bind, Option.bind_eq_some_iff, Option.ite_none_right_eq_some] at h
    obtain ⟨w, hw, x, -, -, h⟩ := h
    exact onFarEnd_servers rfl hw h fun _ => by rfl

/-- **What happens in a network is to each server a step of its own, or nothing.** -/
theorem server_act (n : Network σ) (i : Nat) (a : Act) :
    (n.act a).servers[i]? = n.servers[i]?.map fun s => (n.serverAct? i a).elim s s.act := by
  cases a with
  | event e =>
    show (n.apply e).servers[i]? = _
    simp only [serverAct?, apply]
    cases hn : n.step e with
    | none => simp
    | some n' => exact event_servers hn
  | join j o =>
    show (n.join j o).servers[i]? = _
    simp only [serverAct?, join]
    by_cases hj : j = i
    · subst hj
      cases hs : n.servers[j]? with
      | none => simp [hs]
      | some s =>
        have hlt : j < n.servers.length := (List.getElem?_eq_some_iff.mp hs).1
        simp only [if_true]
        exact List.getElem?_set_self hlt
    · simp only [if_neg hj]
      cases hs : n.servers[j]? with
      | none => simp
      | some s => simp [List.getElem?_set_ne hj]
  | peer j a =>
    show (n.servers.modify j (·.act a))[i]? = _
    simp only [serverAct?]
    by_cases hj : j = i
    · subst hj
      simp only [if_true]
      exact List.getElem?_modify_eq _ _ _
    · simp only [if_neg hj]
      rw [List.getElem?_modify_ne _ _ hj]
      simp

/-- **A server in a network does what a server does.** -/
theorem servers_run (n : Network σ) (i : Nat) (as : List Act) :
    (as.foldl act n).servers[i]? = n.servers[i]?.map fun s => (serverActs i n as).foldl Server.act s := by
  induction as generalizing n with
  | nil => simp [serverActs]
  | cons a as ih =>
    rw [List.foldl_cons, ih, server_act, Option.map_map]
    congr 1
    funext s
    simp only [Function.comp_apply, serverActs, List.foldl_append]
    cases n.serverAct? i a <;> rfl

/-- **Every effect counts once.** Let handlers add to the total of a service. In a network,
whatever clients and peers do, a server that was just set up does what its chronicle says,
and once no call is outstanding the total is what it was and what the requests that were
taken add. At rest these are all requests of all streams. So any two runs end with the same
total if the same requests came, whatever the limits and the order; and the requests of a
client's stream do not depend on the timeouts that it asked for. -/
theorem effects_count_once {reg : Registry σ} {measure : σ → A} {amount : Behaviour σ → A}
    (hadds : reg.Adds measure amount) (name : String) {n : Network σ} {i : Nat} {k : Server.Config}
    (hn : n.servers[i]? = some (.opened k reg)) (as : List Act) :
    let p := Server.chronicle k reg (serverActs i n as)
    (as.foldl act n).servers[i]? = some p.server ∧
    (p.outstanding = [] →
      p.registry.total measure name = reg.total measure name + reg.due amount name p.asked) ∧
    (p.AtRest →
      p.registry.total measure name =
        reg.total measure name + reg.due amount name (p.gists.flatMap k.requests)) ∧
    (∀ (n' : Network σ) (i' : Nat) (k' : Server.Config) (as' : List Act),
      n'.servers[i']? = some (.opened k' reg) → k'.maxBody = k.maxBody → (k'.Sound ↔ k.Sound) →
      let p' := Server.chronicle k' reg (serverActs i' n' as')
      p.AtRest → p'.AtRest → p'.gists.Perm p.gists →
      p'.registry.total measure name = p.registry.total measure name) ∧
    ∀ o rest, Options.gist? ((Client.start o).outbox.wire ++ rest) = some (o.codec, rest) := by
  intro p
  refine ⟨?_, Server.total_of_outstanding hadds _, Server.total_at_rest hadds _, ?_, Options.gist?_start⟩
  · rw [servers_run, hn, Option.map_some, Server.server_chronicle]
  · intro n' i' k' as' _ hbody hsound p' hp hp' hgists
    have hrequests : k'.requests = k.requests := by
      funext g
      simp only [Server.Config.requests, hbody, hsound]
    have hperm : (p'.gists.flatMap k'.requests).Perm (p.gists.flatMap k.requests) := by
      rw [hrequests]
      exact hgists.flatMap_right _
    calc p'.registry.total measure name
        = reg.total measure name + reg.due amount name (p'.gists.flatMap k'.requests) :=
          Server.total_at_rest hadds _ hp'
      _ = reg.total measure name + reg.due amount name (p.gists.flatMap k.requests) := by
          rw [Registry.due_perm hperm]
      _ = p.registry.total measure name := (Server.total_at_rest hadds _ hp).symm

end Network

namespace Sample

/-- The total of a receiver; it is a word of 64 bits. -/
def measure (r : Receiver) : ZMod (2 ^ 64) := r.total

/-- What a call adds: what it makes of nothing. -/
def amount (b : Behaviour Receiver) : ZMod (2 ^ 64) := measure (b.act {}).1

theorem measure_growBy (r : Receiver) (n : Int) : measure (Kind.growBy r n) = measure r + n := by
  have hmod : ((r.total + n).bmod 0x10000000000000000 : ZMod (2 ^ 64)) = ((r.total + n : Int) : ZMod (2 ^ 64)) :=
    (ZMod.intCast_eq_intCast_iff _ _ _).mpr (Int.bmod_emod ..)
  rw [measure, measure, Kind.growBy, hmod, Int.cast_add]

theorem fst_act (k : Kind) (d : Datum) :
    (∀ r, (k.act d r).1 = r) ∨ ∃ n, ∀ r, (k.act d r).1 = Kind.growBy r n := by
  by_cases hk : k = .grow
  · subst hk
    by_cases hd : ∃ x n, d = .list [x, .int n]
    · obtain ⟨x, n, rfl⟩ := hd
      exact .inr ⟨n, fun _ => rfl⟩
    · refine .inl fun r => ?_
      unfold Kind.act
      split <;> first | rfl | simp_all
  · refine .inl fun r => ?_
    unfold Kind.act
    split <;> first | rfl | contradiction

/-- **All methods of the samples add.** -/
theorem adds_method (k : Kind) (d : Datum) (r : Receiver) :
    measure ((k.method.run d).act r).1 = measure r + amount (k.method.run d) := by
  show measure (k.act d r).1 = measure r + measure (k.act d {}).1
  have hzero : measure {} = 0 := Int.cast_zero
  obtain hsame | ⟨n, hadd⟩ := fst_act k d
  · rw [hsame, hsame, hzero, add_zero]
  · rw [hadd, hadd, measure_growBy, measure_growBy, hzero, zero_add]

/-- One service with a method that adds. -/
def growRegistry : Registry Receiver := ⟨[service "Foo" 0 [("Grow", Kind.grow.method)]]⟩

/-- A server with room for one call, in a network of its own. -/
def growNetwork : Network Receiver := { servers := [.opened narrow growRegistry] }

/-- A client asks to add one after a second, gives the call up, and is gone. The first
bytes are its options and the request. -/
def growing (o : Options) (size : Nat) : List Network.Act :=
  .join 0 o ::
    [.client 0 (.begin 7 "Foo.Grow" (.list [.int 1000, .int 1])), .client 0 (.register 7),
      .client 0 (.post 7), .client 0 (.write .take), .client 0 (.write (.write 49)), .up 0 size,
      .connection 0 0 .read, .connection 0 0 .read, .connection 0 0 .start, .client 0 (.abandon 7),
      .client 0 .close, .client 0 .stop, .client 0 .release, .client 0 (.write .close), .upEnd 0,
      .connection 0 0 .read].map .event

/-- The call is too late, and its handler acts when the connection is closed. -/
def lateGrowth : List Network.Act :=
  growing hurried 147 ++
    [.tick 50000000, .connection 0 0 (.expire 0), .connection 0 0 (.post 0), .connection 0 0 .release,
      .connection 0 0 (.write .take), .connection 0 0 (.write (.write 93)),
      .connection 0 0 (.write .close), .tick 950000000, .connection 0 0 (.retire 0)].map .event

/-- The call has all the time that it needs. -/
def calmGrowth : List Network.Act :=
  growing .default 146 ++
    [.tick 1000000000, .connection 0 0 (.finish 0), .connection 0 0 (.post 0), .connection 0 0 .release,
      .connection 0 0 (.write .take), .connection 0 0 (.write (.write 45)),
      .connection 0 0 (.write .close)].map .event

end Sample

namespace Network

/-- With a timeout or without, the one that was asked for is added. -/
theorem effects_count_once_late :
    let p := Server.chronicle Sample.narrow Sample.growRegistry (serverActs 0 Sample.growNetwork Sample.lateGrowth)
    let p' := Server.chronicle Sample.narrow Sample.growRegistry (serverActs 0 Sample.growNetwork Sample.calmGrowth)
    p.gists = p'.gists ∧
    p.registry.total Sample.measure "Foo" = Sample.growRegistry.total Sample.measure "Foo" +
      Sample.growRegistry.due Sample.amount "Foo" (p.gists.flatMap Sample.narrow.requests) ∧
    p'.registry.total Sample.measure "Foo" = p.registry.total Sample.measure "Foo" ∧
    (p.registry.service? "Foo").map (·.receiver.total) = some 1 := by
  intro p p'
  have hadds : Sample.growRegistry.Adds Sample.measure Sample.amount := by
    refine Registry.adds_of_methods fun s hs e he d r => ?_
    rw [List.mem_singleton.mp hs] at he
    rw [List.mem_singleton.mp he]
    exact Sample.adds_method .grow d r
  have hclosed : ∀ q : Server.Chronicle Sample.Receiver,
      q.entries.all (fun x => x.1.outbox.state == .closed && x.1.detached.isEmpty) = true → q.AtRest := by
    intro q hq x hx
    have hone := List.all_eq_true.mp hq x hx
    simp only [Bool.and_eq_true, beq_iff_eq, List.isEmpty_iff] at hone
    exact ⟨.inr hone.1, hone.2⟩
  have hp : p.AtRest := hclosed p (by decide +kernel)
  have hp' : p'.AtRest := hclosed p' (by decide +kernel)
  have hgists : p'.gists = p.gists := by decide +kernel
  have htotal : (p.registry.service? "Foo").map (·.receiver.total) = some 1 := by decide +kernel
  obtain ⟨-, -, hrest, htwo, -⟩ := effects_count_once hadds "Foo" (n := Sample.growNetwork) (i := 0)
    (k := Sample.narrow) rfl Sample.lateGrowth
  exact ⟨hgists.symm, hrest hp,
    htwo Sample.growNetwork 0 Sample.narrow Sample.calmGrowth rfl rfl Iff.rfl hp hp' (.of_eq hgists), htotal⟩

end Network
end Callwire
