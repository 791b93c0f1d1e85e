/-
# Taking turns

A server is picked from a list at random or in turn, and the list is replaced from time to
time. A pick fails exactly if the list is empty, and else gives the server at some place
of it. Picks in turn go around: each looks at the place after that of the last one, also if
servers were picked at random in between, or the list was replaced by one of the same
length. So of some picks in turn every place gets its share, rounded down or up.

Whose turn it is stays below what it was below at first, or below the length of a list that
there was. So a word that can hold these can hold it.

Key definitions: `ServerList.Act`, `ServerList.run`, `ServerList.Turn`, `ServerList.turns`,
`ServerList.Level`.
Key theorems: `ServerList.pick_roundRobin`, `ServerList.position_run`, `ServerList.get_turns`,
`ServerList.count_places`, `ServerList.turns_go_around`.
-/
import Callwire.Proofs.Discovery

namespace Callwire
namespace ServerList

/-- What is done with a list: it is replaced, or a server is picked. -/
inductive Act where
  | set (servers : List String)
  | pick (s : Selection) (draw : Nat)

/-- The list after an act. -/
def act (l : ServerList) : Act → ServerList
  | .set servers => l.set servers
  | .pick s draw => (l.pick s draw).2

/-- The list after some acts. -/
def run (l : ServerList) (as : List Act) : ServerList := as.foldl act l

/-- All lists that there were. -/
def lists (l : ServerList) (as : List Act) : List (List String) :=
  l.servers :: as.filterMap fun
    | .set servers => some servers
    | .pick _ _ => none

/-- The place whose turn it is. -/
def place (l : ServerList) : Nat := l.position % l.servers.length

/-- A pick in turn: the list at that time, the place whose turn it was, and what the pick
gave. -/
structure Turn where
  servers : List String
  place : Nat
  result : Except DiscoveryFault String

/-- The picks in turn among some acts. -/
def turns (l : ServerList) : List Act → List Turn
  | [] => []
  | .pick .roundRobin draw :: as =>
    ⟨l.servers, l.place, (l.pick .roundRobin draw).1⟩ :: turns (l.act (.pick .roundRobin draw)) as
  | a :: as => turns (l.act a) as

/-- Every list that comes is of this length. -/
def Level (n : Nat) (as : List Act) : Prop := ∀ servers, .set servers ∈ as → servers.length = n

variable {l : ServerList} {n k : Nat} {as : List Act} {a : Act} {t : Turn}

/-! ### One act -/

theorem act_random (draw : Nat) : l.act (.pick .random draw) = l := by
  simp only [act, pick]
  split <;> rfl

/-- **A pick in turn gives the server at the place whose turn it is**, and then it is the
turn of the next place. -/
theorem pick_roundRobin (h : 0 < l.servers.length) (draw : Nat) :
    ∃ server, l.servers[l.place]? = some server ∧
      l.pick .roundRobin draw = (.ok server, { l with position := (l.position + 1) % l.servers.length }) := by
  have hlt : l.place < l.servers.length := Nat.mod_lt _ h
  have hget : l.servers[l.position % l.servers.length]? = some l.servers[l.place] :=
    List.getElem?_eq_getElem hlt
  exact ⟨l.servers[l.place], hget, by simp only [pick, hget]⟩

theorem position_act (l : ServerList) (a : Act) :
    (l.act a).position = l.position ∨ (l.act a).position < l.servers.length := by
  cases a with
  | set servers => exact .inl rfl
  | pick s draw =>
    cases s with
    | random => exact .inl (congrArg position (act_random draw))
    | roundRobin =>
      by_cases h : 0 < l.servers.length
      · obtain ⟨server, -, hpick⟩ := pick_roundRobin h draw
        right
        rw [act, hpick]
        exact Nat.mod_lt _ h
      · left
        have hnil : l.servers = [] := List.length_eq_zero_iff.mp (by omega)
        simp only [act, pick, hnil, List.length_nil, List.getElem?_nil]

theorem length_act (hl : l.servers.length = n) (hlevel : Level n (a :: as)) :
    (l.act a).servers.length = n := by
  cases a with
  | set servers => exact hlevel servers List.mem_cons_self
  | pick s draw => rw [act, Discovery.servers_pick, hl]

/-! ### Any acts -/

theorem servers_run_mem (l : ServerList) (as : List Act) : (l.run as).servers ∈ l.lists as := by
  induction as generalizing l with
  | nil => exact List.mem_cons_self
  | cons a as ih =>
    have hrun : (l.run (a :: as)).servers ∈ (l.act a).lists as := ih (l.act a)
    cases a with
    | set servers => exact List.mem_cons_of_mem _ hrun
    | pick s draw =>
      rw [lists, act, Discovery.servers_pick] at hrun
      exact hrun

/-- **Whose turn it is stays below a bound that it kept at first, or the length of a list
that there was.** -/
theorem position_run {bound : Nat} (h : l.position < bound) (as : List Act) :
    (l.run as).position < bound ∨ ∃ servers ∈ l.lists as, (l.run as).position < servers.length := by
  induction as using List.reverseRecOn with
  | nil => exact .inl h
  | append_singleton as a ih =>
    have hrun : l.run (as ++ [a]) = (l.run as).act a := List.foldl_append
    have hlists : ∀ servers ∈ l.lists as, servers ∈ l.lists (as ++ [a]) := by
      intro servers hs
      rw [lists, List.filterMap_append, ← List.cons_append]
      exact List.mem_append_left _ hs
    rw [hrun]
    rcases position_act (l.run as) a with hp | hp
    · rw [hp]
      exact ih.imp_right fun ⟨servers, hs, hlt⟩ => ⟨servers, hlists servers hs, hlt⟩
    · exact .inr ⟨_, hlists _ (servers_run_mem l as), hp⟩

/-- **The places of the picks in turn follow each other**, as long as the list keeps its
length; each pick gives the server at its place. -/
theorem get_turns (hn : 0 < n) (hl : l.servers.length = n) (hlevel : Level n as)
    (ht : (l.turns as)[k]? = some t) :
    t.servers.length = n ∧ t.place = (l.position + k) % n ∧
      ∃ server, t.servers[t.place]? = some server ∧ t.result = .ok server := by
  induction as generalizing l k with
  | nil => cases ht
  | cons a as ih =>
    have hrest : Level n as := fun servers hs => hlevel servers (List.mem_cons_of_mem _ hs)
    have hlength : (l.act a).servers.length = n := length_act hl hlevel
    cases a with
    | set servers =>
      have hset := ih hlength hrest ht
      exact hset
    | pick s draw =>
      cases s with
      | random =>
        have hskip : l.turns (.pick .random draw :: as) = l.turns as := by
          rw [turns, act_random]
          exact nofun
        exact ih hl hrest (hskip ▸ ht)
      | roundRobin =>
        obtain ⟨server, hget, hpick⟩ := pick_roundRobin (hl ▸ hn) draw
        cases k with
        | zero =>
          obtain rfl := Option.some.inj ht
          exact ⟨hl, by rw [place, hl, Nat.add_zero], server, hget, congrArg Prod.fst hpick⟩
        | succ k =>
          obtain ⟨hlen, hplace, hresult⟩ := ih hlength hrest ht
          refine ⟨hlen, ?_, hresult⟩
          rw [hplace, act, hpick, hl, Nat.mod_add_mod, Nat.add_assoc, Nat.add_comm 1 k]

theorem div_succ_eq_ceilDiv {m : Nat} (hn : 0 < n) (h : m % n ≠ 0) : m / n + 1 = m ⌈/⌉ n := by
  have hdiv := Nat.div_add_mod m n
  have hmod := Nat.mod_lt m hn
  have hup : m + n - 1 = m % n - 1 + n * (m / n + 1) := by
    rw [Nat.mul_add, Nat.mul_one]
    omega
  have hsmall : (m % n - 1) / n = 0 := Nat.div_eq_of_lt (by omega)
  rw [Nat.ceilDiv_eq_add_pred_div, hup, Nat.add_mul_div_left _ _ hn, hsmall, Nat.zero_add]

/-- Of numbers that follow each other every remainder has its share, rounded down or up. -/
theorem count_places (hn : 0 < n) (p m : Nat) {i : Nat} (hi : i < n) :
    ((List.range m).map fun k => (p + k) % n).count i = m / n ∨
      ((List.range m).map fun k => (p + k) % n).count i = m ⌈/⌉ n := by
  have hsolve : ∀ k, (p + k) % n = i ↔ k ≡ i + (n - p % n) [MOD n] := by
    intro k
    have hp : p % n < n := Nat.mod_lt p hn
    have hshift : p + (i + (n - p % n)) ≡ i [MOD n] := by
      have hsplit : p + (i + (n - p % n)) = i + n * (p / n + 1) := by
        have := Nat.div_add_mod p n
        rw [Nat.mul_add, Nat.mul_one]
        omega
      rw [hsplit]
      exact Nat.add_mul_mod_self_left i n _
    constructor
    · intro hk
      have hmod : p + k ≡ p + (i + (n - p % n)) [MOD n] :=
        Nat.ModEq.trans (hk.trans (Nat.mod_eq_of_lt hi).symm) hshift.symm
      exact Nat.ModEq.add_left_cancel' p hmod
    · intro hk
      have hmod : p + k ≡ i [MOD n] := (hk.add_left p).trans hshift
      exact Eq.trans hmod (Nat.mod_eq_of_lt hi)
  have hcount : ((List.range m).map fun k => (p + k) % n).count i =
      m / n + if (i + (n - p % n)) % n < m % n then 1 else 0 := by
    rw [← Nat.count_modEq_card m hn, Nat.count, List.count, List.countP_map]
    refine List.countP_congr fun k _ => ?_
    simp only [Function.comp_apply, beq_iff_eq, decide_eq_true_eq]
    exact hsolve k
  rw [hcount]
  split
  · rename_i hlt
    exact .inr (div_succ_eq_ceilDiv hn (by omega))
  · exact .inl (Nat.add_zero _)

/-! ### Every list -/

/-- **Taking turns is fair.** Whatever was done with a list whose first turn is a number
below `2 ^ 31 - 1`:

* a pick fails exactly if the list is empty, and else gives one of its servers;
* whose turn it is stays below that number or the length of a list that there was;
* as long as the list keeps its length `n`, whatever is picked at random or replaced in
  between, the pick in turn after `k` others gives the server at the place that is `k`
  after the first one's, counted around, in the list of that moment;
* so of `m` such picks every place has `m / n`, rounded down or up. -/
theorem turns_go_around {first : Nat} (hfirst : first < 2 ^ 31 - 1) (servers : List String)
    (as : List Act) :
    let l := run ⟨servers, first⟩ as
    (∀ s draw,
      (∀ why, (l.pick s draw).1 = .error why ↔ l.servers = [] ∧ why = .noServers) ∧
      ∀ server, (l.pick s draw).1 = .ok server → server ∈ l.servers) ∧
    (l.position < 2 ^ 31 - 1 ∨ ∃ ss ∈ lists ⟨servers, first⟩ as, l.position < ss.length) ∧
    ∀ n stretch, 0 < n → l.servers.length = n → Level n stretch →
      let ts := l.turns stretch
      (∀ t₀, ts.head? = some t₀ → ∀ k t, ts[k]? = some t →
        t.servers.length = n ∧ t.place = (t₀.place + k) % n ∧
          ∃ server, t.servers[t.place]? = some server ∧ t.result = .ok server) ∧
      ∀ i < n, (ts.map Turn.place).count i = ts.length / n ∨
        (ts.map Turn.place).count i = ts.length ⌈/⌉ n := by
  intro l
  refine ⟨fun s draw => ?_, position_run hfirst as, fun n stretch hn hl hlevel => ?_⟩
  · obtain ⟨hnil, hpick⟩ | ⟨server, hs, position, hpick⟩ := Discovery.pick_cases l s draw
    · rw [hpick]
      exact ⟨fun why => by simp [hnil, eq_comm], nofun⟩
    · rw [hpick]
      have hne : l.servers ≠ [] := List.ne_nil_of_mem hs
      exact ⟨fun why => by simp [hne], fun server' h => Except.ok.inj h ▸ hs⟩
  · intro ts
    have hget : ∀ k t, ts[k]? = some t → _ := fun k t => get_turns hn hl hlevel
    refine ⟨fun t₀ h₀ k t ht => ?_, fun i hi => ?_⟩
    · obtain ⟨-, hplace₀, -⟩ := hget 0 t₀ (List.head?_eq_getElem? ▸ h₀)
      obtain ⟨hlen, hplace, hresult⟩ := hget k t ht
      refine ⟨hlen, ?_, hresult⟩
      rw [hplace, hplace₀, Nat.add_zero, Nat.mod_add_mod]
    · have hplaces : ts.map Turn.place = (List.range ts.length).map fun k => (l.position + k) % n := by
        refine List.ext_getElem (by simp) fun k hk hk' => ?_
        obtain ⟨t, ht⟩ : ∃ t, ts[k]? = some t := ⟨_, List.getElem?_eq_getElem (by simpa using hk)⟩
        have hplace := (hget k t ht).2.1
        rw [List.getElem?_eq_some_iff] at ht
        simp only [List.getElem_map, List.getElem_range, ht.2, hplace]
      rw [hplaces]
      exact count_places hn l.position ts.length hi

/-- Three servers are replaced by two, and these by two others while turns are taken. -/
theorem turns_go_around_replaced :
    let l := run ⟨["tcp@a:1", "tcp@b:1", "tcp@c:1"], 2147483646⟩
      [.pick .roundRobin 0, .set ["tcp@d:1", "tcp@e:1"]]
    let stretch : List Act := [.pick .roundRobin 0, .set ["tcp@f:1", "tcp@g:1"], .pick .random 7,
      .pick .roundRobin 0, .pick .roundRobin 0]
    l.servers.length = 2 ∧ Level 2 stretch ∧
      (∃ t, (l.turns stretch)[2]? = some t ∧ t.place = (1 + 2) % 2 ∧
        ∃ server, ["tcp@f:1", "tcp@g:1"][(1 + 2) % 2]? = some server ∧ t.result = .ok server) ∧
      (((l.turns stretch).map Turn.place).count 0 = 3 / 2 ∨
        ((l.turns stretch).map Turn.place).count 0 = 3 ⌈/⌉ 2) := by
  intro l stretch
  have hlevel : Level 2 stretch := by simp [Level, stretch]
  have hword : 2147483646 < 2 ^ 31 - 1 := by decide
  obtain ⟨-, -, hstretch⟩ := turns_go_around hword
    ["tcp@a:1", "tcp@b:1", "tcp@c:1"] [.pick .roundRobin 0, .set ["tcp@d:1", "tcp@e:1"]]
  obtain ⟨haround, hshare⟩ := hstretch 2 stretch (by decide) rfl hlevel
  have hfirst : (l.turns stretch).head? = some ⟨["tcp@d:1", "tcp@e:1"], 1, .ok "tcp@e:1"⟩ := rfl
  have hthird : (l.turns stretch)[2]? = some ⟨["tcp@f:1", "tcp@g:1"], 1, .ok "tcp@g:1"⟩ := by cbv
  obtain ⟨-, hplace, hresult⟩ := haround _ hfirst 2 _ hthird
  exact ⟨rfl, hlevel, ⟨_, hthird, hplace, hresult⟩, hshare 0 (by decide)⟩

end ServerList
end Callwire
