/-
# The pool of clients

One call at a time holds the pool. It comes in only when nobody else does, takes the
client of its address out if that is of no use, and leaves with a new client or with none;
in between nobody touches the pool. So the pool never has two clients for one address,
while a call holds it there is none for the address of this call, and a dial that fails
leaves the pool as it was but for that address. No client that was ever dialed is lost: it
is in the pool, it was closed, or a call or a request to close the pool has it in hand and
closes it next.

Key definitions: `Balancer.Keeps`, `Balancer.Uses`, `Balancer.Stocked`.
Key theorems: `Balancer.Step.entry`, `Balancer.Stocked.stay`, `Balancer.Step.exit`,
`Balancer.Stocked.step`.
-/
import Callwire.Proofs.Balancer.Steps

namespace Callwire

/-- The client that a call has in hand. -/
def Errand.Phase.client? : Errand.Phase → Option Nat
  | evicting k | ready k | calling k => some k
  | _ => none

theorem Errand.Phase.eq_calling {p : Errand.Phase} {k : Nat} (hr : p.rank = 5)
    (hk : p.client? = some k) : p = .calling k := by
  cases p <;> simp_all [rank, client?]

namespace Balancer

/-- A client is in the pool, under some address. -/
def IsPooled (b : Balancer) (k : Nat) : Prop := ∃ a, (a, k) ∈ b.pool

/-- A request to close the pool has still to close a client. -/
def IsLeft (b : Balancer) (k : Nat) : Prop := ∃ ks, some ks ∈ b.closings ∧ k ∈ ks

/-- A client is in the pool, or it was closed, or a call or a request to close the pool
has it in hand and closes it next. -/
def Keeps (b : Balancer) (k : Nat) : Prop :=
  b.IsPooled k ∨ k ∈ b.closed ∨ (∃ i, b.phase? i = some (.evicting k)) ∨ b.IsLeft k

/-- A client is in the pool, or someone has it in hand. -/
def Uses (b : Balancer) (k : Nat) : Prop :=
  b.IsPooled k ∨ (∃ i p, b.phase? i = some p ∧ p.client? = some k) ∨ b.IsLeft k

/-- The pool has one client at most for an address; no client that was dialed is lost, and
none is used that was not dialed; one call at most holds the pool, and there is no client
for its address. -/
structure Stocked (b : Balancer) : Prop where
  keys : (b.pool.map (·.1)).Nodup
  kept : ∀ k < b.clients, b.Keeps k
  known : ∀ k, b.Uses k → k < b.clients
  alone : ∀ i j, b.Holds i → b.Holds j → i = j
  vacant : ∀ (i : Nat) (x : Errand), b.errands[i]? = some x → x.holdsPool = true →
    ∀ p ∈ b.pool, p.1 ≠ x.address

variable {b b' m : Balancer} {e : Event} {i j k : Nat} {x y : Errand} {q : Errand.Phase}

theorem stocked_empty : Stocked {} where
  keys := List.nodup_nil
  kept := nofun
  known := by
    rintro k (⟨a, h⟩ | ⟨i, p, h, -⟩ | ⟨ks, h, -⟩)
    · cases h
    · simp [phase?] at h
    · cases h
  alone := by
    rintro i j ⟨x, hx, -⟩
    simp at hx
  vacant := by
    intro i x hx
    simp at hx

/-! ### Who holds the pool -/

theorem Holds.of_eq (h : b.Holds i) (he : b'.phase? i = b.phase? i) : b'.Holds i := by
  rw [holds_iff] at h ⊢
  rwa [he]

theorem ne_of_lookup_eq_none {pool : List (String × Nat)} {a : String} (h : pool.lookup a = none) :
    ∀ p ∈ pool, p.1 ≠ a :=
  fun p hp heq => by simpa [heq] using List.lookup_eq_none_iff.mp h p hp

theorem filter_of_lookup_eq_none {pool : List (String × Nat)} {a : String} (h : pool.lookup a = none) :
    pool.filter (·.1 != a) = pool :=
  List.filter_eq_self.mpr fun p hp => bne_iff_ne.mpr (ne_of_lookup_eq_none h p hp)

/-- **A call takes hold of the pool only when nobody holds it.** It is to dial at once if
there is no client for its address, and to close the one that there is if that is of no
use. Either way there is none left in the pool. -/
theorem Step.entry (h : Step b e b') (hn : ¬ b.Holds i) (hh : b'.Holds i) :
    ∃ x alive, e = .enter i alive ∧ b.errands[i]? = some x ∧ x.phase = .wanting ∧
      b.isHeld = false ∧ b'.pool = b.pool.filter (·.1 != x.address) ∧
      ((b.pool.lookup x.address = none ∧ b'.phase? i = some .dialing) ∨
        ∃ k, b.pool.lookup x.address = some k ∧ alive = false ∧ b'.phase? i = some (.evicting k)) := by
  rcases h.turn i with hsame | ⟨x, m, q, hx, hm, rfl⟩ | ⟨-, hb⟩
  · exact absurd (hh.of_eq hsame.symm) hn
  · have hq := hm.phase? hx
    rw [holds_iff, hq] at hh
    cases hm with
    | dial hp hf hl =>
      exact ⟨x, _, rfl, hx, hp, hf, (filter_of_lookup_eq_none hl).symm, .inl ⟨hl, hq⟩⟩
    | stale hp hf hl => exact ⟨x, _, rfl, hx, hp, hf, rfl, .inr ⟨_, hl, rfl, hq⟩⟩
    | evict hp => exact absurd ⟨x, hx, by simp [Errand.holdsPool, hp]⟩ hn
    | _ => simp at hh
  · rw [holds_iff] at hh
    rcases hb with hb | hb <;> simp [hb] at hh

theorem Stocked.alone_step (hs : Stocked b) (h : Step b e b') (hi : b'.Holds i) (hj : b'.Holds j) :
    i = j := by
  have hfirst : ∀ {i j}, b'.Holds i → b'.Holds j → ¬ b.Holds i → i = j := by
    intro i j hi hj hn
    obtain ⟨x, alive, rfl, -, -, hfree, -⟩ := h.entry hn hi
    obtain ⟨y, alive', he, -⟩ := h.entry (isHeld_eq_false_iff.mp hfree j) hj
    exact (Event.enter.inj he).1
  by_cases hbi : b.Holds i
  · by_cases hbj : b.Holds j
    · exact hs.alone i j hbi hbj
    · exact (hfirst hj hi hbj).symm
  · exact hfirst hi hj hbi

/-- **While a call holds the pool, nobody changes it.** -/
theorem Stocked.stay (hs : Stocked b) (h : Step b e b') (hi : b.Holds i) (hi' : b'.Holds i) :
    b'.pool = b.pool := by
  have hheld : b.isHeld ≠ false := fun hf => isHeld_eq_false_iff.mp hf i hi
  cases h with
  | drain _ hf => exact absurd hf hheld
  | @move j x _ m q hx hm =>
    have hq := hm.phase? hx
    cases hm with
    | stale _ hf _ => exact absurd hf hheld
    | connect hp =>
      have hj : b.Holds j := ⟨x, hx, by simp [Errand.holdsPool, hp]⟩
      rw [hs.alone i j hi hj, holds_iff, hq] at hi'
      simp at hi'
    | _ => rfl
  | _ => rfl

/-- **A call lets go of the pool when its dial ends**, with a new client in the pool, or
with the pool as it is. -/
theorem Step.exit (h : Step b e b') (hi : b.Holds i) (hn : ¬ b'.Holds i) :
    ∃ x, b.errands[i]? = some x ∧ x.phase = .dialing ∧
      ((e = .connect i ∧ b'.pool = b.pool ++ [(x.address, b.clients)] ∧
          b'.phase? i = some (.ready b.clients)) ∨
        ∃ why, e = .refuse i why ∧ b'.pool = b.pool ∧ b'.outcome? i = some (.error why)) := by
  rcases h.turn i with hsame | ⟨x, m, q, hx, hm, rfl⟩ | ⟨hnone, -⟩
  · exact absurd (hi.of_eq hsame) hn
  · have hq := hm.phase? hx
    rw [holds_iff, hq] at hn
    obtain ⟨y, hy, hh⟩ := hi
    cases hx.symm.trans hy
    cases hm with
    | connect hp => exact ⟨x, hx, hp, .inl ⟨rfl, rfl, hq⟩⟩
    | refuse hp => exact ⟨x, hx, hp, .inr ⟨_, rfl, rfl, outcome?_eq_some_iff.mpr hq⟩⟩
    | evict _ => simp at hn
    | _ hp => simp [Errand.holdsPool, hp] at hh
  · rw [holds_iff, hnone] at hi
    simp at hi

/-! ### What is in the pool -/

theorem Stocked.keys_step (hs : Stocked b) (h : Step b e b') : (b'.pool.map (·.1)).Nodup := by
  cases h with
  | drain _ _ => exact List.nodup_nil
  | @move i x _ m q hx hm =>
    cases hm with
    | stale _ _ _ => exact hs.keys.sublist (List.filter_sublist.map _)
    | connect hp =>
      have hv := hs.vacant i x hx (by simp [Errand.holdsPool, hp])
      have hnew : (b.pool ++ [(x.address, b.clients)]).map (·.1) = b.pool.map (·.1) ++ [x.address] :=
        List.map_append
      show ((b.pool ++ [(x.address, b.clients)]).map (·.1)).Nodup
      rw [hnew]
      refine List.nodup_append.mpr ⟨hs.keys, List.nodup_singleton _, fun a ha c hc => ?_⟩
      obtain ⟨p, hp, rfl⟩ := List.mem_map.mp ha
      rw [List.mem_singleton.mp hc]
      exact hv p hp
    | _ => exact hs.keys
  | _ => exact hs.keys

theorem Stocked.vacant_step (hs : Stocked b) (h : Step b e b') (hy : b'.errands[i]? = some y)
    (hh : y.holdsPool = true) : ∀ p ∈ b'.pool, p.1 ≠ y.address := by
  have hsame : ∀ {x}, b.errands[i]? = some x → x.address = y.address := by
    intro x hx
    obtain ⟨z, hz, ha, -⟩ := h.errand hx
    cases hy.symm.trans hz
    exact ha.symm
  by_cases hi : b.Holds i
  · obtain ⟨x, hx, hhx⟩ := hi
    rw [← hsame hx, hs.stay h ⟨x, hx, hhx⟩ ⟨y, hy, hh⟩]
    exact hs.vacant i x hx hhx
  · obtain ⟨x, alive, -, hx, -, -, hpool, -⟩ := h.entry hi ⟨y, hy, hh⟩
    rw [← hsame hx, hpool]
    exact fun p hp => bne_iff_ne.mp (List.mem_filter.mp hp).2

/-! ### Where a client is -/

theorem Step.mem_closed (h : Step b e b') (hk : k ∈ b.closed) : k ∈ b'.closed := by
  cases h with
  | shut _ => exact List.mem_append_left _ hk
  | move _ hm =>
    cases hm with
    | evict _ => exact List.mem_append_left _ hk
    | _ => exact hk
  | _ => exact hk

/-- A client is closed by a call or a request that had it in hand for that. -/
theorem Step.of_mem_closed (h : Step b e b') (hk : k ∈ b'.closed) :
    k ∈ b.closed ∨ (∃ i, e = .evict i ∧ b.phase? i = some (.evicting k)) ∨
      ∃ j ks, e = .shut j ∧ b.closings[j]? = some (some (k :: ks)) := by
  cases h with
  | @shut j _ ks hj =>
    rcases List.mem_append.mp hk with hk | hk
    · exact .inl hk
    · cases List.mem_singleton.mp hk
      exact .inr (.inr ⟨j, ks, rfl, hj⟩)
  | @move i x _ _ _ hx hm =>
    cases hm with
    | evict hp =>
      rcases List.mem_append.mp hk with hk | hk
      · exact .inl hk
      · cases List.mem_singleton.mp hk
        exact .inr (.inl ⟨i, rfl, phase?_eq_some_iff.mpr ⟨x, hx, hp⟩⟩)
    | _ => exact .inl hk
  | _ => exact .inl hk

theorem Step.evicting (h : Step b e b') (hi : b.phase? i = some (.evicting k)) :
    b'.phase? i = some (.evicting k) ∨ (b'.phase? i = some .dialing ∧ k ∈ b'.closed) := by
  rcases h.turn i with hsame | ⟨x, m, q, hx, hm, rfl⟩ | ⟨hnone, -⟩
  · exact .inl (hsame.trans hi)
  · have hq := hm.phase? hx
    obtain ⟨y, hy, hp⟩ := phase?_eq_some_iff.mp hi
    cases hx.symm.trans hy
    cases hm with
    | evict hp' =>
      cases hp.symm.trans hp'
      exact .inr ⟨hq, List.mem_append_right _ List.mem_cons_self⟩
    | _ hp' => cases hp.symm.trans hp'
  · cases hnone.symm.trans hi

theorem Step.isLeft (h : Step b e b') (hk : b.IsLeft k) : b'.IsLeft k ∨ k ∈ b'.closed := by
  obtain ⟨ks, hm, hks⟩ := hk
  have hother : ∀ {j : Nat} {c v : Option (List Nat)}, b.closings[j]? = some c → c ≠ some ks →
      some ks ∈ b.closings.set j v := by
    intro j c v hj hne
    obtain ⟨i, hi⟩ := List.mem_iff_getElem?.mp hm
    have hij : j ≠ i := by
      rintro rfl
      exact hne (Option.some.inj (hj.symm.trans hi))
    exact List.mem_iff_getElem?.mpr ⟨i, (List.getElem?_set_ne hij).trans hi⟩
  cases h with
  | close => exact .inl ⟨ks, List.mem_append_left _ hm, hks⟩
  | drain hj _ => exact .inl ⟨ks, hother hj nofun, hks⟩
  | @shut j k' ks' hj =>
    by_cases hc : k' :: ks' = ks
    · subst hc
      rcases List.mem_cons.mp hks with rfl | hks
      · exact .inr (List.mem_append_right _ List.mem_cons_self)
      · exact .inl ⟨ks', List.mem_set (List.getElem?_eq_some_iff.mp hj).1 _, hks⟩
    · exact .inl ⟨ks, hother hj fun heq => hc (Option.some.inj heq), hks⟩
  | move _ hm' => exact .inl ⟨ks, hm'.rest.2 ▸ hm, hks⟩
  | _ => exact .inl ⟨ks, hm, hks⟩

theorem Stocked.lookup_eq (hs : Stocked b) {a : String} (hp : (a, k) ∈ b.pool) :
    b.pool.lookup a = some k := by
  obtain ⟨l₁, l₂, hl⟩ := List.append_of_mem hp
  have hkeys := hs.keys
  rw [hl, List.map_append, List.map_cons] at hkeys
  have hdis := List.disjoint_of_nodup_append hkeys
  exact List.lookup_eq_some_iff.mpr ⟨l₁, l₂, hl, fun p hp' =>
    bne_iff_ne.mpr fun heq => hdis (List.mem_map_of_mem hp') (heq ▸ List.mem_cons_self)⟩

/-- A client leaves the pool into the hands of someone who closes it. -/
theorem Stocked.keeps_of_isPooled (hs : Stocked b) (h : Step b e b') (hk : b.IsPooled k) :
    b'.Keeps k := by
  obtain ⟨a, hp⟩ := hk
  cases h with
  | @drain j hj _ =>
    exact .inr (.inr (.inr ⟨_, List.mem_set (List.getElem?_eq_some_iff.mp hj).1 _,
      List.mem_map_of_mem hp⟩))
  | @move i x _ m q hx hm =>
    cases hm with
    | stale _ _ hl =>
      by_cases ha : a = x.address
      · have hone := hs.lookup_eq hp
        rw [ha, hl] at hone
        cases hone
        exact .inr (.inr (.inl ⟨i, phase?_put_self hx⟩))
      · exact .inl ⟨a, List.mem_filter.mpr ⟨hp, bne_iff_ne.mpr ha⟩⟩
    | connect _ => exact .inl ⟨a, List.mem_append_left _ hp⟩
    | _ => exact .inl ⟨a, hp⟩
  | _ => exact .inl ⟨a, hp⟩

/-- Only a dial that succeeds makes a client. -/
theorem Step.clients_cases (h : Step b e b') :
    (b'.clients = b.clients ∧ ∀ i, e ≠ .connect i) ∨
      ∃ i a, e = .connect i ∧ b'.clients = b.clients + 1 ∧ b'.pool = b.pool ++ [(a, b.clients)] := by
  cases h with
  | move _ hm =>
    cases hm with
    | connect _ => exact .inr ⟨_, _, rfl, rfl, rfl⟩
    | _ => exact .inl ⟨rfl, nofun⟩
  | _ => exact .inl ⟨rfl, nofun⟩

theorem Step.connected (h : Step b (.connect i) b') :
    b.phase? i = some .dialing ∧ b'.phase? i = some (.ready b.clients) := by
  cases h with
  | @move _ x _ _ _ hx hm =>
    have hq := hm.phase? hx
    cases hm with
    | connect hp => exact ⟨phase?_eq_some_iff.mpr ⟨x, hx, hp⟩, hq⟩

/-- **No client is lost.** -/
theorem Stocked.kept_step (hs : Stocked b) (h : Step b e b') (hk : k < b'.clients) : b'.Keeps k := by
  have hold : k < b.clients → b'.Keeps k := by
    intro hlt
    rcases hs.kept k hlt with hp | hc | ⟨i, hi⟩ | hl
    · exact hs.keeps_of_isPooled h hp
    · exact .inr (.inl (h.mem_closed hc))
    · rcases h.evicting hi with hi | ⟨-, hc⟩
      · exact .inr (.inr (.inl ⟨i, hi⟩))
      · exact .inr (.inl hc)
    · rcases h.isLeft hl with hl | hc
      · exact .inr (.inr (.inr hl))
      · exact .inr (.inl hc)
  rcases h.clients_cases with ⟨hsame, -⟩ | ⟨i, a, -, hnew, hpool⟩
  · exact hold (hsame ▸ hk)
  · by_cases hlt : k < b.clients
    · exact hold hlt
    · have hkb : k = b.clients := by omega
      exact .inl ⟨a, hpool ▸ hkb ▸ List.mem_append_right _ List.mem_cons_self⟩

theorem Step.isPooled (h : Step b e b') (hk : b'.IsPooled k) : b.IsPooled k ∨ k < b'.clients := by
  obtain ⟨a, hp⟩ := hk
  cases h with
  | drain _ _ => cases hp
  | move _ hm =>
    cases hm with
    | stale _ _ _ => exact .inl ⟨a, (List.mem_filter.mp hp).1⟩
    | connect _ =>
      rcases List.mem_append.mp hp with hp | hp
      · exact .inl ⟨a, hp⟩
      · cases List.mem_singleton.mp hp
        exact .inr (Nat.lt_succ_self _)
    | _ => exact .inl ⟨a, hp⟩
  | _ => exact .inl ⟨a, hp⟩

/-- A call takes a client in hand that is in the pool, or is new, or that it had before. -/
theorem Step.client? (h : Step b e b') {p : Errand.Phase} (hi : b'.phase? i = some p)
    (hp : p.client? = some k) : b.Uses k ∨ k < b'.clients := by
  have hpool : ∀ {a k}, b.pool.lookup a = some k → b.Uses k := by
    intro a k hl
    obtain ⟨l₁, l₂, hl, -⟩ := List.lookup_eq_some_iff.mp hl
    exact .inl ⟨a, hl ▸ List.mem_append_right _ List.mem_cons_self⟩
  rcases h.turn i with hsame | ⟨x, m, q, hx, hm, rfl⟩ | ⟨-, hb⟩
  · exact .inl (.inr (.inl ⟨i, p, hsame ▸ hi, hp⟩))
  · cases (hm.phase? hx).symm.trans hi
    cases hm with
    | reuse _ _ hl | stale _ _ hl =>
      cases hp
      exact .inl (hpool hl)
    | connect _ =>
      cases hp
      exact .inr (Nat.lt_succ_self _)
    | send hp' _ =>
      cases hp
      exact .inl (.inr (.inl ⟨i, _, phase?_eq_some_iff.mpr ⟨x, hx, hp'⟩, rfl⟩))
    | _ => cases hp
  · rcases hb with hb | hb <;>
    · rw [hb] at hi
      cases hi
      cases hp

theorem Step.uses_of_isLeft (h : Step b e b') (hk : b'.IsLeft k) : b.Uses k := by
  obtain ⟨ks, hm, hks⟩ := hk
  cases h with
  | close =>
    rcases List.mem_append.mp hm with hm | hm
    · exact .inr (.inr ⟨ks, hm, hks⟩)
    · cases List.mem_singleton.mp hm
  | drain _ _ =>
    rcases List.mem_or_eq_of_mem_set hm with hm | hm
    · exact .inr (.inr ⟨ks, hm, hks⟩)
    · cases hm
      obtain ⟨⟨a, k⟩, hp, rfl⟩ := List.mem_map.mp hks
      exact .inl ⟨a, hp⟩
  | shut hj =>
    rcases List.mem_or_eq_of_mem_set hm with hm | hm
    · exact .inr (.inr ⟨ks, hm, hks⟩)
    · cases hm
      exact .inr (.inr ⟨_, List.mem_of_getElem? hj, List.mem_cons_of_mem _ hks⟩)
  | move _ hm' => exact .inr (.inr ⟨ks, hm'.rest.2 ▸ hm, hks⟩)
  | _ => exact .inr (.inr ⟨ks, hm, hks⟩)

theorem Stocked.known_step (hs : Stocked b) (h : Step b e b') (hk : b'.Uses k) : k < b'.clients := by
  have hle : b.clients ≤ b'.clients := by
    rcases h.clients_cases with ⟨hc, -⟩ | ⟨i, a, -, hc, -⟩ <;> omega
  have hold : b.Uses k ∨ k < b'.clients := by
    rcases hk with hp | ⟨i, p, hi, hp⟩ | hl
    · exact (h.isPooled hp).imp_left .inl
    · exact h.client? hi hp
    · exact .inl (h.uses_of_isLeft hl)
  rcases hold with hu | hlt
  · exact Nat.lt_of_lt_of_le (hs.known k hu) hle
  · exact hlt

/-- **Whatever happens, the pool stays in order.** -/
theorem Stocked.step (hs : Stocked b) (h : Step b e b') : Stocked b' where
  keys := hs.keys_step h
  kept _ hk := hs.kept_step h hk
  known _ hk := hs.known_step h hk
  alone _ _ := hs.alone_step h
  vacant _ _ := hs.vacant_step h

end Balancer
end Callwire
