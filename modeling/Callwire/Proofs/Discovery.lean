/-
# A list that a registry is asked for

Whoever wants a server, all servers, or a fresh list may make the registry be asked. It
is asked only if it was never asked and the list never replaced, or if the interval is
over since the last of these ended; how it ended does not matter. So two requests to a
registry are an interval apart, also if it fails. The list that is seen is the one of the
last request that succeeded or of the last replacement, whichever is later. A registry
that fails is told by a refresh alone; whoever wants a server gets one as long as there
is one in the list.

Key definitions: `Discovery.Asking`, `Discovery.Visit`, `Discovery.run`, `Discovery.Deed`,
`Discovery.deeds`, `Discovery.InOrder`.
Key theorems: `Discovery.exists_polled`, `Discovery.isDue_run_iff`,
`Discovery.InOrder.pairwise_fetches`, `Discovery.asked_once_an_interval`.
-/
import Mathlib
import Callwire.Discovery

namespace Callwire
namespace Discovery

/-- When something is wanted that the registry may be asked for, when it is there, and
what the registry would answer. -/
structure Asking where
  start : Nat
  finish : Nat
  answer : Except Fault (List String)

/-- What is done with a list: it is refreshed, a server or all of them are wanted, or it
is replaced. -/
inductive Visit where
  | refresh (a : Asking)
  | get (s : Selection) (draw : Nat) (a : Asking)
  | getAll (a : Asking)
  | update (now : Nat) (servers : List String)

namespace Visit

/-- When it begins. -/
def start : Visit → Nat
  | refresh a | get _ _ a | getAll a => a.start
  | update now _ => now

/-- When it ends. -/
def finish : Visit → Nat
  | refresh a | get _ _ a | getAll a => a.finish
  | update now _ => now

end Visit

/-- The list after a visit. -/
def visit (d : Discovery) : Visit → Discovery
  | .refresh a => (d.refresh a.start a.finish a.answer).2
  | .get s draw a => (d.pick s draw a.start a.finish a.answer).2
  | .getAll a => (d.all a.start a.finish a.answer).2
  | .update now servers => d.update now servers

/-- A list that is asked for at this interval and has not been asked for yet; whose turn
it is is a position. -/
def opened (interval : Duration) (position : Nat) : Discovery :=
  .polled { Polled.ofInterval interval with list := { position := position } }

/-- The list after some visits. -/
def run (interval : Duration) (position : Nat) (vs : List Visit) : Discovery :=
  vs.foldl visit (opened interval position)

/-- What was really done: the registry was asked, or the list was replaced. -/
inductive Deed where
  | fetched (a : Asking)
  | replaced (now : Nat) (servers : List String)

namespace Deed

/-- When it was done. -/
def time : Deed → Nat
  | fetched a => a.finish
  | replaced now _ => now

/-- The list that came of it, if one did. -/
def list? : Deed → Option (List String)
  | fetched a => a.answer.toOption
  | replaced _ servers => some servers

/-- The request that was made. -/
def fetch? : Deed → Option Asking
  | fetched a => some a
  | replaced _ _ => none

end Deed

/-- What a visit does: the registry is asked only if this is due. -/
def deed? (d : Discovery) : Visit → Option Deed
  | .refresh a | .get _ _ a | .getAll a => if d.isDue a.start then some (.fetched a) else none
  | .update now servers => some (.replaced now servers)

/-- What some visits do, in this order. -/
def deedsFrom (d : Discovery) : List Visit → List Deed
  | [] => []
  | v :: vs => (d.deed? v).toList ++ deedsFrom (d.visit v) vs

/-- What some visits do to a list that was not asked for before. -/
def deeds (interval : Duration) (position : Nat) (vs : List Visit) : List Deed :=
  deedsFrom (opened interval position) vs

/-- Each visit ends before the next one begins, and time does not run backwards. -/
structure InOrder (vs : List Visit) : Prop where
  each : ∀ v ∈ vs, v.start ≤ v.finish
  next : vs.Pairwise fun v w => v.finish ≤ w.start

/-! ### Picking -/

/-- **A pick gives a server of the list and changes no more than whose turn it is**, or
there is no server. -/
theorem pick_cases (l : ServerList) (s : Selection) (draw : Nat) :
    (l.servers = [] ∧ l.pick s draw = (.error .noServers, l)) ∨
      ∃ server ∈ l.servers, ∃ position, l.pick s draw = (.ok server, { l with position := position }) := by
  by_cases hn : l.servers = []
  · refine .inl ⟨hn, ?_⟩
    cases s <;> simp [ServerList.pick, hn]
  · have hpos : 0 < l.servers.length := List.length_pos_iff.mpr hn
    cases s with
    | random =>
      have hlt : draw % l.servers.length < l.servers.length := Nat.mod_lt _ hpos
      refine .inr ⟨_, List.getElem_mem hlt, l.position, ?_⟩
      simp only [ServerList.pick, List.getElem?_eq_getElem hlt]
    | roundRobin =>
      have hlt : l.position % l.servers.length < l.servers.length := Nat.mod_lt _ hpos
      refine .inr ⟨_, List.getElem_mem hlt, (l.position + 1) % l.servers.length, ?_⟩
      simp only [ServerList.pick, List.getElem?_eq_getElem hlt]

theorem servers_pick (l : ServerList) (s : Selection) (draw : Nat) :
    (l.pick s draw).2.servers = l.servers := by
  obtain ⟨-, h⟩ | ⟨server, -, position, h⟩ := pick_cases l s draw
  · rw [h]
  · rw [h]

/-- **A pick fails exactly if there is no server**, and else it gives one of them. -/
theorem fst_select (d : Discovery) (s : Selection) (draw : Nat) :
    (∀ why, (d.select s draw).1 = .error why ↔ d.list.servers = [] ∧ why = .discovery .noServers) ∧
      ∀ server, (d.select s draw).1 = .ok server → server ∈ d.list.servers := by
  have hfst : (d.select s draw).1 = (d.list.pick s draw).1.mapError .discovery := by cases d <;> rfl
  rw [hfst]
  obtain ⟨hn, h⟩ | ⟨server, hs, position, h⟩ := pick_cases d.list s draw
  · simp [h, hn, Except.mapError, eq_comm]
  · have hne : d.list.servers ≠ [] := List.ne_nil_of_mem hs
    simp [h, hne, hs, Except.mapError]

variable {interval : Duration} {position : Nat} {vs : List Visit} {v : Visit} {d : Discovery}
  {p : Polled} {a : Asking}

/-! ### One visit -/

theorem refresh_of_not_due (h : d.isDue a.start = false) :
    d.refresh a.start a.finish a.answer = (.ok (), d) := by
  cases d with
  | fixed l => rfl
  | polled p =>
    have hfresh : p.isFresh a.start = true := by simpa [isDue] using h
    simp only [refresh, Polled.refresh, hfresh, if_true]

theorem refresh_of_due (h : (polled p).isDue a.start = true) :
    (polled p).refresh a.start a.finish a.answer =
      (a.answer.map fun _ => (), .polled (p.fetched a.finish a.answer)) := by
  have hfresh : p.isFresh a.start = false := by simpa [isDue] using h
  simp only [refresh, Polled.refresh, hfresh, Bool.false_eq_true, if_false]

/-- What a polled list is after a deed, if there is one: asked for at the same interval,
stamped with the time of the deed, and with the list that came of it. -/
structure After (p : Polled) (deed : Option Deed) (d : Discovery) : Prop where
  polled : ∃ q, d = .polled q ∧ q.interval = p.interval ∧
    q.stamp = (deed.map Deed.time <|> p.stamp) ∧
    q.list.servers = (deed.bind Deed.list?).getD p.list.servers

theorem after_refresh (p : Polled) (a : Asking) :
    After p ((polled p).deed? (.refresh a)) ((polled p).refresh a.start a.finish a.answer).2 := by
  rw [deed?]
  cases h : (polled p).isDue a.start with
  | false =>
    rw [refresh_of_not_due h]
    exact ⟨p, rfl, rfl, rfl, rfl⟩
  | true =>
    rw [refresh_of_due h]
    refine ⟨_, rfl, rfl, rfl, ?_⟩
    obtain ⟨start, finish, answer⟩ := a
    cases answer <;> rfl

theorem after_visit (p : Polled) (v : Visit) : After p ((polled p).deed? v) ((polled p).visit v) := by
  cases v with
  | refresh a => exact after_refresh p a
  | getAll a => exact after_refresh p a
  | update now servers => exact ⟨_, rfl, rfl, rfl, rfl⟩
  | get s draw a =>
    obtain ⟨q, hq, hi, hs, hl⟩ := after_refresh p a
    have hvisit : (polled p).visit (.get s draw a) =
        .polled { q with list := (q.list.pick s draw).2 } := by
      rw [visit, pick, hq]
      rfl
    exact ⟨_, hvisit, hi, hs, (servers_pick q.list s draw).trans hl⟩

/-! ### Any visits -/

theorem run_append (vs ws : List Visit) :
    run interval position (vs ++ ws) = ws.foldl visit (run interval position vs) :=
  List.foldl_append

theorem deedsFrom_append (d : Discovery) (vs ws : List Visit) :
    deedsFrom d (vs ++ ws) = deedsFrom d vs ++ deedsFrom (vs.foldl visit d) ws := by
  induction vs generalizing d with
  | nil => rfl
  | cons v vs ih => rw [List.cons_append, deedsFrom, ih, deedsFrom, List.append_assoc, List.foldl_cons]

theorem deeds_concat (vs : List Visit) (v : Visit) :
    deeds interval position (vs ++ [v]) =
      deeds interval position vs ++ ((run interval position vs).deed? v).toList := by
  rw [deeds, deedsFrom_append, deedsFrom, deedsFrom, List.append_nil]
  rfl

/-- **What a polled list is after any visits is told by what was done**: its stamp is the
time of the last deed, and its servers are those of the last one that gave some. -/
theorem exists_polled (interval : Duration) (position : Nat) (vs : List Visit) :
    ∃ p, run interval position vs = .polled p ∧ p.interval = (Polled.ofInterval interval).interval ∧
      p.stamp = (deeds interval position vs).getLast?.map Deed.time ∧
      p.list.servers = (((deeds interval position vs).filterMap Deed.list?).getLast?).getD [] := by
  induction vs using List.reverseRecOn with
  | nil => exact ⟨_, rfl, rfl, rfl, rfl⟩
  | append_singleton vs v ih =>
    obtain ⟨p, hp, hi, hs, hl⟩ := ih
    obtain ⟨q, hq, hqi, hqs, hql⟩ := after_visit p v
    refine ⟨q, ?_, hqi.trans hi, ?_, ?_⟩
    · rw [run_append, hp]
      exact hq
    · rw [deeds_concat, hp, hqs, hs]
      cases (polled p).deed? v <;> simp
    · rw [deeds_concat, hp, hql, hl]
      cases h : (polled p).deed? v with
      | none => simp
      | some deed => cases hd : deed.list? <;> simp [hd]

/-- **The registry is asked exactly if the interval is over since the last deed**, or
nothing was done yet. -/
theorem isDue_run_iff (interval : Duration) (position : Nat) (vs : List Visit) (start : Nat) :
    (run interval position vs).isDue start = true ↔
      ∀ x, (deeds interval position vs).getLast? = some x →
        x.time + (Polled.ofInterval interval).interval.nanos ≤ start := by
  obtain ⟨p, hp, hi, hs, -⟩ := exists_polled interval position vs
  have hpos : 0 < (Polled.ofInterval interval).interval.nanos := by
    rw [Polled.ofInterval]
    by_cases hz : interval = .zero
    · simp only [hz, if_true]
      decide
    · simp only [hz, if_false]
      exact Nat.pos_of_ne_zero fun h => hz (congrArg Duration.mk h)
  rw [hp, isDue, Polled.isFresh, hs, hi]
  cases (deeds interval position vs).getLast? with
  | none => simp
  | some x =>
    simp only [Option.map_some, Bool.not_eq_true', decide_eq_false_iff_not, Option.some.injEq,
      forall_eq']
    omega

theorem time_of_deed? {x : Deed} (h : d.deed? v = some x) : x.time = v.finish := by
  cases v with
  | refresh a | get _ _ a | getAll a =>
    obtain ⟨-, hx⟩ := Option.ite_none_right_eq_some.mp h
    cases hx
    rfl
  | update now servers =>
    cases h
    rfl

theorem due_of_deed? (h : d.deed? v = some (.fetched a)) :
    d.isDue a.start = true ∧ a.start = v.start ∧ a.finish = v.finish := by
  cases v with
  | refresh b | get _ _ b | getAll b =>
    obtain ⟨hdue, hx⟩ := Option.ite_none_right_eq_some.mp h
    cases hx
    exact ⟨hdue, rfl, rfl⟩
  | update now servers => cases h

theorem exists_visit (vs : List Visit) : ∀ x ∈ deeds interval position vs, ∃ v ∈ vs, x.time = v.finish := by
  induction vs using List.reverseRecOn with
  | nil => exact List.forall_mem_nil _
  | append_singleton vs v ih =>
    rw [deeds_concat]
    intro x hx
    rcases List.mem_append.mp hx with hx | hx
    · obtain ⟨w, hw, ht⟩ := ih x hx
      exact ⟨w, List.mem_append_left _ hw, ht⟩
    · exact ⟨v, List.mem_append_right _ List.mem_cons_self, time_of_deed? (Option.mem_toList.mp hx)⟩

theorem InOrder.of_append {v : Visit} (h : InOrder (vs ++ [v])) :
    InOrder vs ∧ v.start ≤ v.finish ∧ ∀ w ∈ vs, w.finish ≤ v.start := by
  have hnext := List.pairwise_append.mp h.next
  exact ⟨⟨fun w hw => h.each w (List.mem_append_left _ hw), hnext.1⟩,
    h.each v (List.mem_append_right _ List.mem_cons_self),
    fun w hw => hnext.2.2 w hw v List.mem_cons_self⟩

theorem InOrder.pairwise_time (h : InOrder vs) :
    (deeds interval position vs).Pairwise fun x y => x.time ≤ y.time := by
  induction vs using List.reverseRecOn with
  | nil => exact List.Pairwise.nil
  | append_singleton vs v ih =>
    obtain ⟨hvs, hv, hlast⟩ := h.of_append
    rw [deeds_concat]
    refine List.pairwise_append.mpr ⟨ih hvs, ?_, fun x hx y hy => ?_⟩
    · cases (run interval position vs).deed? v with
      | none => exact List.Pairwise.nil
      | some y => exact List.pairwise_singleton _ _
    · obtain ⟨w, hw, ht⟩ := exists_visit vs x hx
      have hy : y.time = v.finish := time_of_deed? (Option.mem_toList.mp hy)
      have := hlast w hw
      omega

/-- The requests that were made. -/
def fetches (interval : Duration) (position : Nat) (vs : List Visit) : List Asking :=
  (deeds interval position vs).filterMap Deed.fetch?

/-- **Two requests to a registry are an interval apart**, whatever came of them. -/
theorem InOrder.pairwise_fetches (h : InOrder vs) :
    (fetches interval position vs).Pairwise fun a b =>
      a.finish + (Polled.ofInterval interval).interval.nanos ≤ b.start := by
  induction vs using List.reverseRecOn with
  | nil => exact List.Pairwise.nil
  | append_singleton vs v ih =>
    obtain ⟨hvs, hv, hlast⟩ := h.of_append
    rw [fetches, deeds_concat, List.filterMap_append]
    refine List.pairwise_append.mpr ⟨ih hvs, ?_, fun a ha b hb => ?_⟩
    · cases (run interval position vs).deed? v with
      | none => exact List.Pairwise.nil
      | some x => cases hx : x.fetch? <;> simp [hx]
    · obtain ⟨x, hx, hxa⟩ := List.mem_filterMap.mp ha
      obtain ⟨y, hy, hyb⟩ := List.mem_filterMap.mp hb
      cases x with
      | replaced _ _ => cases hxa
      | fetched a' =>
        cases y with
        | replaced _ _ => cases hyb
        | fetched b' =>
          cases hxa
          cases hyb
          obtain ⟨hdue, -, -⟩ := due_of_deed? (Option.mem_toList.mp hy)
          have hne : deeds interval position vs ≠ [] := List.ne_nil_of_mem hx
          have hover := (isDue_run_iff interval position vs b.start).mp hdue _ (List.getLast?_eq_getLast_of_ne_nil hne)
          have hle : a.finish ≤ ((deeds interval position vs).getLast hne).time :=
            hvs.pairwise_time.rel_getLast_of_rel_getLast_getLast hx (Nat.le_refl _)
          exact Nat.le_trans (Nat.add_le_add_right hle _) hover

/-- **A registry is asked at most once an interval, and the list that is seen is the last
one that came.** After any visits:

* the servers are those of the last request that succeeded, or of the last replacement if
  that came later, and none before any;
* the registry is due exactly if the interval is over since the end of the last request
  or replacement, or there was none; it is asked exactly when it is due;
* requests are an interval apart, if each visit ends before the next one begins;
* a refresh fails exactly if it asked and that failed, and then the list is as it was; if
  it does not ask, nothing changes;
* whoever wants a server gets one of the list that is seen then, unless it is empty, and
  is told nothing of a request that failed; whoever wants all gets this list. -/
theorem asked_once_an_interval (interval : Duration) (position : Nat) (vs : List Visit) :
    let d := run interval position vs
    let done := deeds interval position vs
    let nanos := (Polled.ofInterval interval).interval.nanos
    d.list.servers = ((done.filterMap Deed.list?).getLast?).getD [] ∧
    (∀ start, d.isDue start = true ↔ ∀ x, done.getLast? = some x → x.time + nanos ≤ start) ∧
    (InOrder vs → (fetches interval position vs).Pairwise fun a b => a.finish + nanos ≤ b.start) ∧
    (∀ a : Asking,
      let r := d.refresh a.start a.finish a.answer
      (∀ why, r.1 = .error why ↔ d.isDue a.start = true ∧ a.answer = .error why) ∧
      (∀ why, r.1 = .error why → r.2.list = d.list) ∧
      (d.isDue a.start = false → r = (.ok (), d))) ∧
    (∀ (a : Asking) (s : Selection) (draw : Nat),
      let seen := (d.refresh a.start a.finish a.answer).2.list.servers
      let r := d.pick s draw a.start a.finish a.answer
      (∀ why, r.1 = .error why ↔ seen = [] ∧ why = .discovery .noServers) ∧
      (∀ server, r.1 = .ok server → server ∈ seen) ∧
      (d.all a.start a.finish a.answer).1 = seen) := by
  intro d done nanos
  obtain ⟨p, hp, -, -, hlist⟩ := exists_polled interval position vs
  refine ⟨?_, isDue_run_iff interval position vs, fun h => h.pairwise_fetches, fun a => ?_,
    fun a s draw => ?_⟩
  · show (run interval position vs).list.servers = _
    rw [hp]
    exact hlist
  · intro r
    cases hdue : d.isDue a.start with
    | false =>
      have hr : r = (.ok (), d) := refresh_of_not_due hdue
      simp [hr]
    | true =>
      have hd : d = .polled p := hp
      have hr : r = (a.answer.map fun _ => (), .polled (p.fetched a.finish a.answer)) := by
        simp only [r, hd]
        exact refresh_of_due (hd ▸ hdue)
      rw [hr, hd]
      cases ha : a.answer with
      | ok servers => simp [Except.map]
      | error why => exact ⟨by simp [Except.map], fun _ _ => rfl, nofun⟩
  · obtain ⟨hfail, hmem⟩ := fst_select (d.refresh a.start a.finish a.answer).2 s draw
    exact ⟨hfail, hmem, rfl⟩

/-- A registry gives one server, and fails when the interval of a second is over. Whoever
wants a server right after that gets the one that is known, and the registry is not asked
before another second is over. -/
theorem asked_once_an_interval_failing :
    let failed : Except Fault (List String) := .error (.registry .noExchange)
    let vs : List Visit := [.refresh ⟨0, 5, .ok ["tcp@a:1"]⟩, .getAll ⟨1000000005, 1000000009, failed⟩]
    let d := run (.ofSeconds 1) 0 vs
    d.list.servers = ["tcp@a:1"] ∧
    (fetches (.ofSeconds 1) 0 vs).Pairwise (fun a b => a.finish + 1000000000 ≤ b.start) ∧
    (fetches (.ofSeconds 1) 0 vs).length = 2 ∧
    d.refresh 2000000008 2000000010 failed = (.ok (), d) ∧
    (d.refresh 2000000009 2000000010 failed).1 = .error (.registry .noExchange) ∧
    ∃ server, (d.pick .roundRobin 0 2000000009 2000000010 failed).1 = .ok server := by
  intro failed vs d
  obtain ⟨hlist, hdue, hapart, hrefresh, hpick⟩ := asked_once_an_interval (.ofSeconds 1) 0 vs
  have hservers : d.list.servers = ["tcp@a:1"] := hlist.trans rfl
  have hlast : (deeds (.ofSeconds 1) 0 vs).getLast? = some (.fetched ⟨1000000005, 1000000009, failed⟩) := rfl
  have horder : InOrder vs := ⟨by decide, by decide⟩
  have hfresh : d.isDue 2000000008 = false := by
    rw [← Bool.not_eq_true, hdue, hlast]
    exact fun h => absurd (h _ rfl) (by decide)
  have hold : d.isDue 2000000009 = true := by
    rw [hdue, hlast]
    rintro x ⟨⟩
    decide
  obtain ⟨-, hsame, -⟩ := hrefresh ⟨2000000009, 2000000010, failed⟩
  have herror := ((hrefresh ⟨2000000009, 2000000010, failed⟩).1 _).mpr ⟨hold, rfl⟩
  refine ⟨hservers, hapart horder, rfl, (hrefresh ⟨2000000008, 2000000010, failed⟩).2.2 hfresh, herror, ?_⟩
  cases hr : (d.pick .roundRobin 0 2000000009 2000000010 failed).1 with
  | ok server => exact ⟨server, rfl⟩
  | error why =>
    have hseen := (((hpick ⟨2000000009, 2000000010, failed⟩ .roundRobin 0).1 why).mp hr).1
    rw [hsame _ herror, hservers] at hseen
    cases hseen

end Discovery
end Callwire
