/-
# Clients are kept and closed

Any number of calls and broadcasts use a pool and close it, while connections end and dials
fail. At every moment a client that was ever dialed is in the pool, was closed, or is in the
hands of someone who closes it next, so none is forgotten. An address is dialed only if the
pool has no client for it or one of no use, which is taken out and closed first; nobody else
dials meanwhile, and nobody touches the pool. So a dial that fails leaves the pool without
this address and else as it was.

Key theorems: `Fleet.entry`, `Fleet.Joined.pool_foldl`, `Fleet.Joined.exit`,
`Fleet.pool_in_order`.
-/
import Callwire.Proofs.Fleet.Steps

namespace Callwire
namespace Fleet

variable {σ : Type} {f f' : Fleet σ} {e : Event} {i k : Nat} {x : Errand}

theorem apply_cases (f : Fleet σ) (e : Event) : f.apply e = f ∨ Step f e (f.apply e) := by
  rw [apply]
  cases h : f.step e with
  | none => exact .inl rfl
  | some f' => exact .inr (.of_step h)

/-- **A call dials only if its address has no client, or one that takes no calls.** -/
theorem entry (e : Event) (hn : ¬ f.balancer.Holds i)
    (hh : (f.apply e).balancer.Holds i) :
    ∃ x, f.balancer.errands[i]? = some x ∧ (∀ j, ¬ f.balancer.Holds j) ∧
      (f.apply e).balancer.pool = f.balancer.pool.filter (·.1 != x.address) ∧
      ((f.balancer.pool.lookup x.address = none ∧
          (f.apply e).balancer.phase? i = some .dialing) ∨
        ∃ k, f.balancer.pool.lookup x.address = some k ∧ f.isAlive k = false ∧
          (f.apply e).balancer.phase? i = some (.evicting k)) := by
  obtain hsame | hs := apply_cases f e
  · exact absurd (hsame ▸ hh) hn
  generalize f.apply e = f' at hs hh ⊢
  cases hs with
  | world _ => exact absurd hh hn
  | call hb | broadcast hb | connect _ _ hb =>
    obtain ⟨_, _, he, _⟩ := hb.entry hn hh
    cases he
  | ask he hb =>
    obtain ⟨_, _, rfl, _⟩ := hb.entry hn hh
    cases he
  | plain he hb =>
    obtain ⟨x, alive, rfl, hx, -, hfree, hpool, hcase⟩ := hb.entry hn hh
    refine ⟨x, hx, Balancer.isHeld_eq_false_iff.mp hfree, hpool, ?_⟩
    cases he with
    | enter hx' =>
      cases hx.symm.trans hx'
      rcases hcase with hnone | ⟨k, hk, halive, hp⟩
      · exact .inl hnone
      · rw [hk, Option.any_some] at halive
        exact .inr ⟨k, hk, halive, hp⟩

namespace Joined

theorem apply (hf : Joined f) (e : Event) : Joined (f.apply e) := by
  rcases apply_cases f e with hsame | hs
  · exact hsame.symm ▸ hf
  · exact hf.step hs

/-- What an event is to the balancer, whether it can happen or not. -/
theorem balancer_apply (hf : Joined f) (e : Event) :
    (f.apply e).balancer = f.balancer ∨ ∃ e', f.balancer.Step e' (f.apply e).balancer := by
  rcases apply_cases f e with hsame | hs
  · exact .inl (congrArg _ hsame)
  · rcases hs.balancer hf.sane with hsame | ⟨e', hb, -⟩
    · exact .inl hsame
    · exact .inr ⟨e', hb⟩

/-! ### From the entry to the exit -/

/-- **A client that a call is to close is closed before the call dials.** -/
theorem evicted (hf : Joined f) (e : Event) (hi : f.balancer.phase? i = some (.evicting k)) :
    (f.apply e).balancer.phase? i = some (.evicting k) ∨
      ((f.apply e).balancer.phase? i = some .dialing ∧ (f.apply e).network.IsClosed k) := by
  rcases hf.balancer_apply e with hsame | ⟨e', hb⟩
  · exact .inl (hsame ▸ hi)
  · exact (hb.evicting hi).imp_right fun ⟨hp, hk⟩ => ⟨hp, (hf.apply e).closed k hk⟩

theorem rank_foldl (hf : Joined f) (es : List Event) {p : Errand.Phase}
    (hp : f.balancer.phase? i = some p) :
    ∃ p', (es.foldl Fleet.apply f).balancer.phase? i = some p' ∧ p.rank ≤ p'.rank := by
  refine hf.balancer_foldl (P := fun b => ∃ p', b.phase? i = some p' ∧ p.rank ≤ p'.rank) ?_
    ⟨p, hp, Nat.le_refl _⟩ es
  rintro b e b' hb ⟨q, hq, hle⟩
  obtain ⟨q', hq', hle'⟩ := hb.rank_le hq
  exact ⟨q', hq', Nat.le_trans hle hle'⟩

/-- **While a call holds the pool, nobody changes it**, whatever happens. -/
theorem pool_foldl (hf : Joined f) (es : List Event) (hi : f.balancer.Holds i)
    (hi' : (es.foldl Fleet.apply f).balancer.Holds i) :
    (es.foldl Fleet.apply f).balancer.pool = f.balancer.pool := by
  induction es generalizing f with
  | nil => rfl
  | cons e es ih =>
    have hnext := hf.apply e
    by_cases hh : (f.apply e).balancer.Holds i
    · refine (ih hnext hh hi').trans ?_
      rcases hf.balancer_apply e with hsame | ⟨e', hb⟩
      · rw [hsame]
      · exact hf.stocked.stay hb hi hh
    · have hgone : ∃ p, (f.apply e).balancer.phase? i = some p ∧ 4 ≤ p.rank := by
        rcases hf.balancer_apply e with hsame | ⟨e', hb⟩
        · exact absurd (hsame ▸ hi) hh
        · obtain ⟨x, -, -, ⟨-, -, hp⟩ | ⟨why, -, -, hr⟩⟩ := hb.exit hi hh
          · exact ⟨_, hp, Nat.le_refl _⟩
          · exact ⟨_, Balancer.outcome?_eq_some_iff.mp hr, by simp [Errand.Phase.rank]⟩
      obtain ⟨p, hp, hle⟩ := hgone
      obtain ⟨p', hp', hle'⟩ := hnext.rank_foldl es hp
      rw [List.foldl_cons, Balancer.holds_iff, hp'] at hi'
      have hlt : p'.rank < 4 := by
        rcases hi' with h | ⟨k, h⟩ <;> cases h <;> simp [Errand.Phase.rank]
      omega

/-- **A call lets go of the pool with a client, the newest, or it has failed.** -/
theorem exit (hf : Joined f) (e : Event) (hi : f.balancer.Holds i)
    (hn : ¬ (f.apply e).balancer.Holds i) :
    ∃ x, f.balancer.errands[i]? = some x ∧
      ((∃ why, (f.apply e).balancer.outcome? i = some (.error why) ∧
          (f.apply e).balancer.pool = f.balancer.pool) ∨
        ((f.apply e).balancer.phase? i = some (.ready f.network.wires.length) ∧
          (f.apply e).balancer.pool = f.balancer.pool ++ [(x.address, f.network.wires.length)])) := by
  rcases hf.balancer_apply e with hsame | ⟨e', hb⟩
  · exact absurd (hsame ▸ hi) hn
  · obtain ⟨x, hx, -, ⟨-, hpool, hp⟩ | ⟨why, -, hpool, hr⟩⟩ := hb.exit hi hn
    · exact ⟨x, hx, .inr ⟨hf.wires ▸ hp, hf.wires ▸ hpool⟩⟩
    · exact ⟨x, hx, .inl ⟨why, hr, hpool⟩⟩

/-- Only the call that holds the pool and dials makes a client. -/
theorem dialed (hf : Joined f) (e : Event) :
    (f.apply e).network.wires.length = f.network.wires.length ∨
      ∃ i, f.balancer.phase? i = some .dialing ∧
        (f.apply e).balancer.phase? i = some (.ready f.network.wires.length) := by
  rw [(hf.apply e).wires, hf.wires]
  rcases hf.balancer_apply e with hsame | ⟨e', hb⟩
  · exact .inl (congrArg _ hsame)
  · rcases hb.clients_cases with ⟨hc, -⟩ | ⟨i, a, rfl, -⟩
    · exact .inl hc
    · exact .inr ⟨i, hb.connected⟩

theorem errand_foldl (hf : Joined f) (es : List Event) (hx : f.balancer.errands[i]? = some x) :
    ∃ y, (es.foldl Fleet.apply f).balancer.errands[i]? = some y ∧ y.address = x.address := by
  refine hf.balancer_foldl (P := fun b => ∃ y, b.errands[i]? = some y ∧ y.address = x.address) ?_
    ⟨x, hx, rfl⟩ es
  rintro b e b' hb ⟨y, hy, ha⟩
  obtain ⟨z, hz, hza, -⟩ := hb.errand hy
  exact ⟨z, hz, hza.trans ha⟩

end Joined

/-- **No client is forgotten, and an address is dialed by one call at a time and only when
it has to be.** After any events of a fleet that has done nothing before:

* the pool has one client at most for an address;
* a client that was ever dialed is in the pool, or closed, or about to be closed by the call
  that took it out of the pool, or left to be closed by a request to close the pool;
* two calls never hold the pool, and while one does, there is no client for its address;
* a call comes in only when nobody holds the pool. It is to dial if there is no client for
  its address; if there is one that takes no calls, it is to close that one first. Either
  way there is none in the pool from then on;
* it dials once it has closed that client, and nobody else makes a client;
* from when a call comes in to when it lets go, whatever happens, the pool is as it was but
  for the client of its address. If its dial fails the pool stays so, and else it has the
  new client besides. -/
theorem pool_in_order (o : Options) (n : Network σ) (es : List Event) :
    let f := run o n es
    (f.balancer.pool.map (·.1)).Nodup ∧
    (∀ k < f.network.wires.length, f.balancer.IsPooled k ∨ f.network.IsClosed k ∨
      (∃ i, f.balancer.phase? i = some (.evicting k)) ∨ f.balancer.IsLeft k) ∧
    (∀ i j, f.balancer.Holds i → f.balancer.Holds j → i = j) ∧
    (∀ (i : Nat) (x : Errand), f.balancer.errands[i]? = some x → x.holdsPool = true →
      ∀ p ∈ f.balancer.pool, p.1 ≠ x.address) ∧
    (∀ e i, ¬ f.balancer.Holds i → (f.apply e).balancer.Holds i →
      ∃ x, f.balancer.errands[i]? = some x ∧ (∀ j, ¬ f.balancer.Holds j) ∧
        (f.apply e).balancer.pool = f.balancer.pool.filter (·.1 != x.address) ∧
        ((f.balancer.pool.lookup x.address = none ∧
            (f.apply e).balancer.phase? i = some .dialing) ∨
          ∃ k, f.balancer.pool.lookup x.address = some k ∧ f.isAlive k = false ∧
            (f.apply e).balancer.phase? i = some (.evicting k))) ∧
    (∀ e i k, f.balancer.phase? i = some (.evicting k) →
      (f.apply e).balancer.phase? i = some (.evicting k) ∨
        ((f.apply e).balancer.phase? i = some .dialing ∧ (f.apply e).network.IsClosed k)) ∧
    (∀ e, (f.apply e).network.wires.length = f.network.wires.length ∨
      ∃ i, f.balancer.phase? i = some .dialing ∧
        (f.apply e).balancer.phase? i = some (.ready f.network.wires.length)) ∧
    (∀ (e : Event) (during : List Event) (e' : Event) (i : Nat) (x : Errand),
      f.balancer.errands[i]? = some x → ¬ f.balancer.Holds i →
      let inside := during.foldl apply (f.apply e)
      let after := inside.apply e'
      (f.apply e).balancer.Holds i → inside.balancer.Holds i → ¬ after.balancer.Holds i →
      let others := f.balancer.pool.filter (·.1 != x.address)
      (∃ why, after.balancer.outcome? i = some (.error why) ∧ after.balancer.pool = others) ∨
        (after.balancer.phase? i = some (.ready inside.network.wires.length) ∧
          after.balancer.pool = others ++ [(x.address, inside.network.wires.length)])) := by
  intro f
  have hf : Joined f := joined_run o n es
  refine ⟨hf.stocked.keys, fun k hk => ?_, hf.stocked.alone, hf.stocked.vacant,
    fun e i => entry e, fun e i k => hf.evicted e, hf.dialed, ?_⟩
  · rcases hf.stocked.kept k (hf.wires ▸ hk) with hp | hc | hrest
    · exact .inl hp
    · exact .inr (.inl (hf.closed k hc))
    · exact .inr (.inr hrest)
  · intro e during e' i x hx hout inside after hin hstill hn others
    have hnext := hf.apply e
    have hinside : Joined inside := hnext.foldl during
    have hpool : inside.balancer.pool = others := by
      obtain ⟨y, hy, -, hentry, -⟩ := entry e hout hin
      cases hx.symm.trans hy
      exact (hnext.pool_foldl during hin hstill).trans hentry
    obtain ⟨z, hz, hexit⟩ := hinside.exit e' hstill hn
    obtain ⟨y, hy, hya⟩ := hf.errand_foldl (e :: during) hx
    cases hz.symm.trans hy
    rwa [hpool, hya] at hexit

end Fleet

namespace Sample

/-- Two places at which someone listens and says nothing. -/
def quietPlaces : Network Unit :=
  { listeners := [⟨⟨.tcp, "a"⟩, .silent⟩, ⟨⟨.tcp, "b"⟩, .silent⟩] }

/-- A sum is asked for. -/
def sumOrder : Order := ⟨"Foo.Sum", .list [.int 1, .int 2], .scalar (.int .i64)⟩

/-- Both places are called, and the connection to the first ends. Then it is wanted again. -/
def wantedAgain : List Fleet.Event :=
  [.call "tcp@a" sumOrder false, .forward 0, .connect 0, .call "tcp@b" sumOrder false, .forward 1,
    .connect 1, .peer 0 .hangUp, .network (.client 0 .read), .call "tcp@a" sumOrder false]

/-- While the call closes the client and dials, the pool is to be closed and the other place
is wanted too. -/
def meanwhile : List Fleet.Event :=
  [.close, .shut 0, .forward 2, .call "tcp@b" sumOrder false, .forward 3, .shut 0]

end Sample

namespace Fleet

/-- A redial fails. Its client was closed and is gone from the pool; the other one is there. -/
theorem pool_in_order_redial :
    let f := run .default Sample.quietPlaces Sample.wantedAgain
    let inside := Sample.meanwhile.foldl apply (f.apply (.forward 2))
    let after := inside.apply (.fail 2 (.stream .refused))
    f.balancer.pool = [("tcp@a", 0), ("tcp@b", 1)] ∧ f.isAlive 0 = false ∧
    (f.apply (.forward 2)).balancer.phase? 2 = some (.evicting 0) ∧ inside.network.IsClosed 0 ∧
    (∃ why, after.balancer.outcome? 2 = some (.error why)) ∧
    after.balancer.pool = [("tcp@b", 1)] := by
  intro f inside after
  obtain ⟨-, -, -, -, hentry, -, -, hredial⟩ :=
    pool_in_order .default Sample.quietPlaces Sample.wantedAgain
  have hpool : f.balancer.pool = [("tcp@a", 0), ("tcp@b", 1)] := by decide +kernel
  have hout : ¬ f.balancer.Holds 2 := by decide +kernel
  have hin : (f.apply (.forward 2)).balancer.Holds 2 := by decide +kernel
  have haddress : f.balancer.errands[2]?.map (·.address) = some "tcp@a" := by decide +kernel
  obtain ⟨x, hx, hxa⟩ := Option.map_eq_some_iff.mp haddress
  have hentered : f.isAlive 0 = false ∧ (f.apply (.forward 2)).balancer.phase? 2 = some (.evicting 0) := by
    obtain ⟨y, hy, -, -, hcase⟩ := hentry (.forward 2) 2 hout hin
    cases hx.symm.trans hy
    rw [show run .default Sample.quietPlaces Sample.wantedAgain = f from rfl, hpool, hxa] at hcase
    rcases hcase with ⟨hnone, -⟩ | ⟨k, hk, hdead, hp⟩
    · cases hnone
    · cases hk
      exact ⟨hdead, hp⟩
  have hclosed : inside.network.wires[0]?.any (·.client.closing) = true := by decide +kernel
  have hstill : inside.balancer.Holds 2 := by decide +kernel
  have hgone : ¬ after.balancer.Holds 2 := by decide +kernel
  have hleft : after.balancer.pool = [("tcp@b", 1)] := by decide +kernel
  refine ⟨hpool, hentered.1, hentered.2, (Option.any_eq_true _ _).mp hclosed, ?_, hleft⟩
  rcases hredial (.forward 2) Sample.meanwhile (.fail 2 (.stream .refused)) 2 x hx hout hin hstill hgone
    with ⟨why, hr, -⟩ | ⟨-, hnew⟩
  · exact ⟨why, hr⟩
  · cases hleft.symm.trans (hnew.trans (by rw [show run _ _ _ = f from rfl, hpool, hxa]))

end Fleet
end Callwire
