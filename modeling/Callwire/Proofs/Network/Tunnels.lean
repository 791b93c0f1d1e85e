/-
# Clients that come through a tunnel

A dial through a tunnel ends where a dial without one does: the request and its answer have
come and gone, and the network is the one in which the client was joined to its connection
from the start. So whatever happens from then on happens without a tunnel too.

Key definitions: `Server.withLast`, `Network.grown`.
Key theorems: `Server.quiet_request`, `Network.dial_server`, `Network.tunnel_transparent`.
-/
import Callwire.Network
import Callwire.Proofs.Server.Tunnels

namespace Callwire

variable {σ : Type}

/-! ### A server that is called upon -/

namespace Clockwork

variable {α : Type} {k : Clockwork α} {a b : α}

theorem settle_of_some (h : k.next? a = some b) (fuel : Nat) : k.settle (fuel + 1) a = k.settle fuel b := by
  rw [settle, h]

theorem settle_of_none (h : k.next? a = none) (fuel : Nat) : k.settle fuel a = a := by
  cases fuel with
  | zero => rfl
  | succ fuel => rw [settle, h]

end Clockwork

namespace Server

variable {s : Server σ} {c : Connection σ}

/-- The server with one more connection. -/
def withLast (s : Server σ) (c : Connection σ) : Server σ := { s with connections := s.connections ++ [c] }

theorem nextFrom?_eq_none_iff {i : Nat} {cs : List (Connection σ)} :
    s.nextFrom? i cs = none ↔ ∀ c ∈ cs, c.next? s.now s.registry = none := by
  induction cs generalizing i with
  | nil => simp [nextFrom?]
  | cons c cs ih =>
    rw [nextFrom?, List.forall_mem_cons]
    cases c.next? s.now s.registry with
    | none => simp [ih]
    | some p => simp

theorem nextFrom?_concat {i : Nat} {cs : List (Connection σ)} (h : s.nextFrom? i cs = none) :
    s.nextFrom? i (cs ++ [c]) = (c.next? s.now s.registry).map (s.put (i + cs.length)) := by
  induction cs generalizing i with
  | nil =>
    rw [List.nil_append, nextFrom?]
    cases c.next? s.now s.registry <;> rfl
  | cons d cs ih =>
    rw [nextFrom?] at h
    rw [List.cons_append, nextFrom?]
    cases hd : d.next? s.now s.registry with
    | some p => simp [hd] at h
    | none =>
      simp only [hd] at h
      simp only
      rw [ih h, List.length_cons, Nat.add_assoc, Nat.add_comm 1]

theorem next?_withLast (h : s.next? = none) :
    (s.withLast c).next? =
      (c.next? s.now s.registry).map fun p => ({ s with registry := p.2 } : Server σ).withLast p.1 := by
  have hidle : ∀ d ∈ s.connections, d.next? s.now s.registry = none := nextFrom?_eq_none_iff.mp h
  have hrest : (s.withLast c).nextFrom? 0 s.connections = none := nextFrom?_eq_none_iff.mpr hidle
  have hlast : (s.withLast c).next? = (s.withLast c).nextFrom? 0 (s.connections ++ [c]) := rfl
  rw [hlast, nextFrom?_concat hrest, Nat.zero_add]
  have hput : (s.withLast c).put s.connections.length =
      fun p => ({ s with registry := p.2 } : Server σ).withLast p.1 := by
    funext p
    simp [withLast, put]
  rw [hput]
  rfl

theorem le_work (s : Server σ) (c : Connection σ) : 2 ≤ (s.withLast c).work := by
  rw [work, withLast, List.foldl_append]
  simp only [List.foldl_cons, List.foldl_nil, Connection.work]
  omega

/-- **A server that has nothing else to do answers the request**, and the connection is then
as one that came without. -/
theorem quiet_request (h : s.next? = none) :
    Server.clockwork.quiet
        ((s.arrive true).apply (.connection s.connections.length (.receive Tunnel.request))) =
      s.withLast ((Connection.fresh s.config.maxBody s.config.maxCalls s.config.capacity false).preceded
        Tunnel.opened) := by
  have hnone : ∀ (h : Tunnel.Head) terms (i : Intake σ), Stage.head h ≠ .serving terms i := nofun
  have hcame : (s.arrive true).apply (.connection s.connections.length (.receive Tunnel.request)) =
      s.withLast (.early s.config (.head .empty) (Tunnel.requestLine ++ 0x0a :: [0x0a]) false false) := by
    have hlast : (s.arrive true).connections[s.connections.length]? =
        some (.early s.config (.head .empty) [] false false) := List.getElem?_concat_length
    simp only [apply, step, hlast, bind, Option.bind, pure, Connection.early_step (hnone _)]
    rw [List.nil_append, Tunnel.request_eq]
    simp [put, arrive, withLast]
  have hread : ∀ {c c' : Connection σ}, c.step s.now s.registry .read = some (c', s.registry) →
      (s.withLast c).next? = some (s.withLast c') := by
    intro c c' hstep
    have hnext : c.next? s.now s.registry = some (c', s.registry) := by
      rw [Connection.next?, Connection.candidates]
      simp only [List.cons_append, List.findSome?_cons, hstep]
    rw [next?_withLast h, hnext]
    rfl
  have hline := hread (Connection.read_requestLine s.config [0x0a] false s.now s.registry)
  have hblank := hread (Connection.read_blank s.config [] false Tunnel.headerLimit s.now s.registry)
  have hidle : (s.withLast ((Connection.early s.config .options [] false false).preceded
      Tunnel.opened)).next? = none := by
    rw [next?_withLast h]
    rfl
  obtain ⟨fuel, hfuel⟩ := Nat.exists_eq_add_of_le' (s.le_work
    (.early s.config (.head .empty) (Tunnel.requestLine ++ 0x0a :: [0x0a]) false false))
  have hquiet : ∀ t : Server σ, Server.clockwork.quiet t = Server.clockwork.settle t.work t := fun _ => rfl
  rw [hcame, hquiet, hfuel, Clockwork.settle_of_some hline, Clockwork.settle_of_some hblank,
    Clockwork.settle_of_none hidle]
  rfl

end Server

/-! ### Dials -/

/-- The answer that opens the tunnel, and what the far end says after it, in one piece. -/
theorem Tunnel.connect_said (limit : Nat) (bs : Bytes) :
    ∃ s, connect (.ofChunks limit [opened ++ bs]) = (.ok (), request, s) ∧ s.rest = bs := by
  have hne : ∀ c ∈ [opened ++ bs], c ≠ [] := by
    intro c hc
    rw [List.mem_singleton.mp hc, opened_eq]
    simp
  have halike := Stream.alike_ofChunks limit hne
  rw [List.flatten_singleton] at halike
  obtain ⟨s, hconnect, hs⟩ := connect_opened halike
  refine ⟨s, hconnect, ?_⟩
  rw [hs.rest]
  exact List.append_nil bs

namespace Network

variable {n : Network σ} {a : Address} {l : Listener} {o : Options}

/-- The network in which a server has one more connection. -/
def grown (n : Network σ) (i : Nat) (s : Server σ) (c : Connection σ) : Network σ :=
  { n with servers := n.servers.set i (s.withLast c) }

theorem connection?_grown {i : Nat} (hi : i < n.servers.length) (s : Server σ) (c : Connection σ) :
    (n.grown i s c).connection? (i, s.connections.length) = some c := by
  simp [connection?, grown, hi, Server.withLast, bind]

theorem putWritten_grown {i : Nat} (hi : i < n.servers.length) (s : Server σ) (c : Connection σ)
    (bs : Bytes) :
    (n.grown i s c).putWritten (i, s.connections.length) bs =
      n.grown i s { c with outbox := { c.outbox with wire := bs } } := by
  simp [putWritten, grown, List.modify_eq_set_getElem?, List.getElem?_set_self hi, Server.withLast]

/-- A server that has nothing else to do is greeted with the request, and answers it. -/
theorem greet_request {i : Nat} {s : Server σ} (hp : l.peer = .server i) (hs : n.servers[i]? = some s)
    (hl : l.address.protocol = .http) (hq : s.next? = none) :
    n.greet l Tunnel.request =
      (some (i, s.connections.length), Tunnel.opened, false,
        { n with servers := n.servers.set i (s.arrive false) }) := by
  obtain ⟨hi, -⟩ := List.getElem?_eq_some_iff.mp hs
  have hrequest : Tunnel.request.isEmpty = false := by decide +kernel
  have hhttp : (l.address.protocol == .http) = true := by
    rw [hl]
    rfl
  have hopen := Server.quiet_request hq
  have hfar := connection?_grown hi s
    ((Connection.fresh s.config.maxBody s.config.maxCalls s.config.capacity false).preceded Tunnel.opened)
  have hput := putWritten_grown hi s
    ((Connection.fresh s.config.maxBody s.config.maxCalls s.config.capacity false).preceded Tunnel.opened) []
  rw [grown] at hfar hput
  simp only [greet, hp, hs, hrequest, hhttp, hopen, hfar, hput, Bool.false_eq_true, if_false]
  rfl

/-- **A dial to a server joins the client to a new connection**, through a tunnel or not; a
tunnel takes a server that has nothing else to do. -/
theorem dial_server {i : Nat} {s : Server σ} (hr : a.protocol = .unix ∨ n.carriesIp = true)
    (hl : n.listener? a = some l) (hp : l.peer = .server i) (hs : n.servers[i]? = some s)
    (hb : l.address.protocol = a.protocol) (hq : a.protocol = .http → s.next? = none) :
    n.dial a o = .ok (n.join i o) := by
  have hreach : ¬ (a.protocol ≠ .unix ∧ ¬ n.carriesIp = true) := by
    rintro ⟨hu, hc⟩
    exact hr.elim hu hc
  rw [dial, if_neg hreach, hl]
  by_cases ht : a.protocol = .http
  · obtain ⟨t, hconnect, hrest⟩ := Tunnel.connect_said maxBodySize []
    rw [List.append_nil] at hconnect
    simp only [ht, if_true, greet_request hp hs (hb.trans ht) (hq ht), hconnect, hrest, join, hs]
    rfl
  · have hplain : (l.address.protocol == .http) = false := by
      rw [hb]
      simpa using ht
    have hrest : (Stream.ofChunks maxBodySize [[]]).rest = [] := Stream.ahead_ofChunks maxBodySize [[]]
    simp only [ht, if_false, greet, hp, hs, join, hplain, List.isEmpty_nil, if_true, hrest]
    rfl

/-- **A client begins as one that was told directly** what its far end said: through a
tunnel, what the far end said after the answer. -/
theorem dial_scripted {bs : Bytes} (hr : a.protocol = .unix ∨ n.carriesIp = true)
    (hl : n.listener? a = some l)
    (hp : l.peer = .scripted (if a.protocol = .http then Tunnel.opened ++ bs else bs)) :
    n.dial a o = .ok { n with wires := n.wires ++ [⟨(Client.start o).apply (.receive bs), none⟩] } := by
  have hreach : ¬ (a.protocol ≠ .unix ∧ ¬ n.carriesIp = true) := by
    rintro ⟨hu, hc⟩
    exact hr.elim hu hc
  rw [dial, if_neg hreach, hl]
  by_cases ht : a.protocol = .http
  · obtain ⟨t, hconnect, hrest⟩ := Tunnel.connect_said maxBodySize bs
    simp only [ht, if_true, greet, hp, hconnect, hrest]
    rfl
  · have hrest : (Stream.ofChunks maxBodySize [bs]).rest = bs := by
      have hahead := Stream.ahead_ofChunks maxBodySize [bs]
      rw [List.flatten_singleton] at hahead
      exact hahead
    simp only [ht, if_false, greet, hp, hrest]
    rfl

/-- **A tunnel changes nothing.** Wherever the streams are cut and whatever comes next, the
accepting side takes what the dialing side writes and the dialing side what the other then
writes; both open the tunnel, and to any reader the stream is then the stream of what comes
next. A connection through a tunnel has the runs of one without: the same options, requests,
calls and answers, on the same services, and nothing is different but the request before
what came and the answer before what is written. Its head is read as soon as the request
is there. A dial through a tunnel leads to the network to which a dial without one leads,
and its client begins with what its far end said after the answer. -/
theorem tunnel_transparent :
    (∀ (dialled : Stream) (limit : Nat) (more : Bytes) (chunks : List Bytes) (after : List Arrival),
      (∀ c ∈ chunks, c ≠ []) → chunks.flatten = (Tunnel.connect dialled).2.1 ++ more →
      ∃ s, Tunnel.accept (.ofArrivals limit (chunks.map .chunk ++ after)) = (.ok (), Tunnel.opened, s) ∧
        s.Shows limit more after) ∧
    (∀ (accepted : Stream) (limit : Nat) (more : Bytes) (chunks : List Bytes) (after : List Arrival),
      (∀ c ∈ chunks, c ≠ []) → (Tunnel.accept accepted).1 = .ok () →
      chunks.flatten = (Tunnel.accept accepted).2.1 ++ more →
      ∃ s, Tunnel.connect (.ofArrivals limit (chunks.map .chunk ++ after)) = (.ok (), Tunnel.request, s) ∧
        s.Shows limit more after) ∧
    (∀ (s : Server σ) (es : List Server.Event) (more : Bytes),
      (s.followThrough es).2.input = Tunnel.request ++ more → s.Answerable es →
      (s.Entered es → ∃ ds, (s.follow ds).2.input = more ∧
        Server.Paired s.connections.length Connection.Through (s.followThrough es) (s.follow ds)) ∧
      ∀ c, (s.followThrough es).1.connections[s.connections.length]? = some c → c.Quiet → s.Entered es) ∧
    (∀ (s : Server σ) (ds : List Server.Event),
      Server.Paired s.connections.length Connection.Through
        (s.followThrough (Server.entry s.connections.length ++ ds)) (s.follow ds)) ∧
    (∀ (n : Network σ) (a : Address) (l : Listener) (o : Options),
      a.protocol = .unix ∨ n.carriesIp = true → n.listener? a = some l →
      (∀ i s, l.peer = .server i → n.servers[i]? = some s → l.address.protocol = a.protocol →
        (a.protocol = .http → s.next? = none) → n.dial a o = .ok (n.join i o)) ∧
      ∀ bs, l.peer = .scripted (if a.protocol = .http then Tunnel.opened ++ bs else bs) →
        n.dial a o = .ok { n with wires := n.wires ++ [⟨(Client.start o).apply (.receive bs), none⟩] }) := by
  refine ⟨fun dialled limit more chunks after hne hc => ?_,
    fun accepted limit more chunks after hne hok hc => ?_,
    fun s es more hr ha => ⟨Server.exists_through hr ha, fun c => Server.entered_of_quiet hr ha⟩,
    fun s ds => s.through_entry ds,
    fun n a l o hr hl => ⟨fun i s hp hs hb hq => dial_server hr hl hp hs hb hq,
      fun bs hp => dial_scripted hr hl hp⟩⟩
  · have halike := Stream.alike_ofArrivals limit hne after
    rw [hc, Tunnel.written_connect, List.append_assoc] at halike
    obtain ⟨s, haccept, hs⟩ := Tunnel.accept_request halike
    exact ⟨s, haccept, hs.shows⟩
  · have halike := Stream.alike_ofArrivals limit hne after
    rw [hc, Tunnel.written_accept hok, List.append_assoc] at halike
    obtain ⟨s, hconnect, hs⟩ := Tunnel.connect_opened halike
    exact ⟨s, hconnect, hs.shows⟩

end Network

namespace Sample

/-- What may follow a head: more line feeds, and a carriage return. -/
def oddBytes : Bytes := [0x0a, 0x0a, 0x0d, 7]

/-- A head and these bytes, cut between the two line feeds at its end and once more. -/
def oddCut (head : Bytes) : List Bytes :=
  [head.dropLast, [0x0a, 0x0a], [0x0a, 0x0d, 7]]

/-- The options and a request. -/
def lenInput : Bytes := Options.default.line ++ (lenRequest ⟨"Foo.Len", 1, ""⟩).toBytes

/-- The request for a tunnel comes in two pieces, the second with the options and a call in
it; the call is answered, and its answer is written. -/
def throughRun : List Server.Event :=
  [.receive (Tunnel.request.take 9), .read, .receive (Tunnel.request.drop 9 ++ lenInput), .read, .read, .read,
    .read, .start, .finish 0, .post 0, .write .take, .write (.write 44), .lose].map (.connection 0)

/-- A server behind a tunnel, and someone who opens one and says these bytes. -/
def tunnelNetwork : Network Receiver where
  listeners := [⟨⟨.http, "a"⟩, .server 0⟩, ⟨⟨.http, "b"⟩, .scripted (Tunnel.opened ++ oddBytes)⟩]
  servers := [lenServer]

end Sample

namespace Network

theorem tunnel_transparent_odd :
    (∃ s, Tunnel.accept (.ofArrivals 2 ((Sample.oddCut Tunnel.request).map .chunk ++ [.fault .broken])) =
        (.ok (), Tunnel.opened, s) ∧ s.Shows 2 Sample.oddBytes [.fault .broken]) ∧
    (∃ s, Tunnel.connect (.ofArrivals 2 ((Sample.oddCut Tunnel.opened).map .chunk ++ [])) =
        (.ok (), Tunnel.request, s) ∧ s.Shows 2 Sample.oddBytes []) ∧
    (∃ ds, (Sample.lenServer.follow ds).2.input = Sample.lenInput ∧
      Server.Paired 0 Connection.Through (Sample.lenServer.followThrough Sample.throughRun)
        (Sample.lenServer.follow ds)) ∧
    Sample.tunnelNetwork.dial ⟨.http, "a"⟩ .default = .ok (Sample.tunnelNetwork.join 0 .default) ∧
    Sample.tunnelNetwork.dial ⟨.http, "b"⟩ .default =
      .ok { Sample.tunnelNetwork with
        wires := [⟨(Client.start .default).apply (.receive Sample.oddBytes), none⟩] } := by
  obtain ⟨haccept, hconnect, hrun, -, hdial⟩ := tunnel_transparent (σ := Sample.Receiver)
  have hopen := haccept (.ofArrivals 0 []) 2 Sample.oddBytes (Sample.oddCut Tunnel.request) [.fault .broken]
    (by decide +kernel) (by rw [Tunnel.written_connect]; decide +kernel)
  refine ⟨hopen, ?_, ?_, ?_, ?_⟩
  · obtain ⟨s, hs, -⟩ := hopen
    have hflat : (Sample.oddCut Tunnel.opened).flatten = Tunnel.opened ++ Sample.oddBytes := by decide +kernel
    exact hconnect _ 2 Sample.oddBytes (Sample.oddCut Tunnel.opened) [] (by decide +kernel) (by rw [hs])
      (by rw [hs, hflat])
  · have hinput : (Sample.lenServer.followThrough Sample.throughRun).2.input =
        Tunnel.request ++ Sample.lenInput := by
      decide +kernel
    have hread : ∀ k ∈ [12, 13],
        ((Sample.lenServer.followThrough (Sample.throughRun.take k)).1.connections[0]?).any
          (·.terms?.isSome) = true := by decide +kernel
    have hentered : ∀ k ∈ [12, 13], Sample.lenServer.Entered (Sample.throughRun.take k) := by
      intro k hk c hc h hst
      have hany := hread k hk
      have hc : (Sample.lenServer.followThrough (Sample.throughRun.take k)).1.connections[0]? = some c := hc
      rw [hc] at hany
      simp [Connection.terms?, hst] at hany
    have hanswerable : Sample.lenServer.Answerable Sample.throughRun := by
      intro as bs he
      have hget : Sample.throughRun[as.length]? = some (.connection 0 .lose) := by
        rw [he, List.getElem?_append_right (Nat.le_refl _), Nat.sub_self]
        rfl
      have hlt : as.length < Sample.throughRun.length := (List.getElem?_eq_some_iff.mp hget).1
      have hlast : ∀ k < Sample.throughRun.length,
          Sample.throughRun[k]? = some (.connection 0 .lose) → k = 12 := by decide +kernel
      have has : as = Sample.throughRun.take 12 := by
        rw [← hlast _ hlt hget, he, List.take_left]
      rw [has]
      exact hentered 12 (by decide)
    exact (hrun Sample.lenServer Sample.throughRun Sample.lenInput hinput hanswerable).1
      (hentered 13 (by decide))
  · exact (hdial Sample.tunnelNetwork ⟨.http, "a"⟩ ⟨⟨.http, "a"⟩, .server 0⟩ .default (.inr rfl)
      (by decide +kernel)).1 0 Sample.lenServer rfl rfl rfl fun _ => rfl
  · exact (hdial Sample.tunnelNetwork ⟨.http, "b"⟩
      ⟨⟨.http, "b"⟩, .scripted (Tunnel.opened ++ Sample.oddBytes)⟩ .default (.inr rfl)
      (by decide +kernel)).2 Sample.oddBytes rfl

end Network
end Callwire
