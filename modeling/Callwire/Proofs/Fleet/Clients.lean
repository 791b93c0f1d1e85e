/-
# Clients in a network that others call

What happens in a network changes the calls of a client one by one, but adds none and
removes none; only a caller does. A client that is closed stays closed, and no call ever
fails at a client because it was cancelled: that is for its caller to say. A dial makes one
new client, and says nothing of a call that was cancelled either.

Key definitions: `Client.Drift`, `Client.Sane`, `Network.Drifts`, `Network.HasCall`,
`Network.IsClosed`, `Network.IsSane`.
Key theorems: `Client.Drift.keeps`, `Network.drifts_step`, `Network.wires_dialText`,
`Network.dialText_ne_cancelled`.
-/
import Callwire.Fleet
import Callwire.Proofs.Client.Shutdown

namespace Callwire

namespace Client

variable {c c' : Client} {e : Event} {i : Nat} {x : Call}

/-- What a client becomes without its callers: as it is, by an event that is none of
theirs, or with some of its bytes carried away. -/
inductive Drift (c : Client) : Client → Prop where
  | stay : Drift c c
  | step {e : Event} {c' : Client} (he : e.isCallers = false) (hs : Step c e c') : Drift c c'
  | carried (bs : Bytes) : Drift c { c with outbox := { c.outbox with wire := bs } }

/-- Its table is in order, and no call of it failed because it was cancelled. -/
structure Sane (c : Client) : Prop where
  ordered : Ordered c
  honest : ∀ x ∈ c.calls, ∀ why, x.outcome ≠ some (.error (.cancelled why))

theorem sane_start (o : Options) (b : Frame.Buffer) : Sane { start o with buffer := b } where
  ordered := { ordered_start o with }
  honest _ hx := nomatch hx

theorem call?_eq_none_iff : c.call? i = none ↔ i ∉ c.calls.map (·.id) := by
  simp [call?, List.find?_eq_none]

/-- A change of calls, one by one, that keeps their names and cancels none. -/
def IsGentle (g : Call → Call) : Prop :=
  ∀ x, (g x).id = x.id ∧
    ((g x).outcome = x.outcome ∨ ∀ why, (g x).outcome ≠ some (.error (.cancelled why)))

theorem isGentle_id : IsGentle id := fun _ => ⟨rfl, .inl rfl⟩

theorem IsGentle.comp {f g : Call → Call} (hf : IsGentle f) (hg : IsGentle g) : IsGentle (f ∘ g) := by
  intro x
  refine ⟨(hf (g x)).1.trans (hg x).1, ?_⟩
  rcases (hf (g x)).2 with hsame | hno
  · rw [Function.comp_apply, hsame]
    exact (hg x).2
  · exact .inr hno

theorem IsGentle.at {g : Call → Call} (hg : IsGentle g) (i : Nat) :
    IsGentle fun x => if x.id = i then g x else x := by
  intro x
  simp only
  split
  · exact hg x
  · exact ⟨rfl, .inl rfl⟩

theorem isGentle_terminated (c : Client) : IsGentle c.terminated := by
  intro x
  rw [terminated]
  split
  · exact ⟨rfl, .inr (by simp)⟩
  · exact ⟨rfl, .inl rfl⟩

theorem exists_gentle_enter (c : Client) (i : Nat) (target : String) (body : Bytes) :
    ∃ g, IsGentle g ∧ (c.enter i target body).calls = c.calls.map g := by
  rcases enter_cases c i target body with ⟨-, hc⟩ | ⟨-, hc⟩
  · exact ⟨_, IsGentle.at (g := fun x => { x with phase := .sent, outcome := some (.error .shutdown) })
      (fun _ => ⟨rfl, .inr (by simp)⟩) i, congrArg calls hc⟩
  · exact ⟨_, IsGentle.at (g := fun x => { x with seq := c.nextSeq, phase := .sending _ })
      (fun _ => ⟨rfl, .inl rfl⟩) i, congrArg calls hc⟩

/-- **Without its callers the calls of a client change one by one**, and none fails because
it was cancelled. -/
theorem Step.exists_gentle (hs : Step c e c') (ho : Ordered c) (he : e.isCallers = false) :
    ∃ g, IsGentle g ∧ c'.calls = c.calls.map g := by
  have hsent : ∀ i, IsGentle fun x : Call => if x.id = i then { x with phase := .sent } else x :=
    fun i => IsGentle.at (g := fun x => { x with phase := .sent }) (fun _ => ⟨rfl, .inl rfl⟩) i
  have hdone : ∀ (i : Nat) (out : Except Fault Bytes), (∀ why, out ≠ .error (.cancelled why)) →
      IsGentle fun x : Call => if x.id = i then { x with outcome := some out } else x :=
    fun i out ho => IsGentle.at (g := fun x => { x with outcome := some out })
      (fun _ => ⟨rfl, .inr fun why h => ho why (Option.some.inj h)⟩) i
  cases hs with
  | begin _ | abandon _ | close => cases he
  | receive _ | hangUp | lose | release _ _ _ | write _ =>
    exact ⟨id, isGentle_id, (List.map_id _).symm⟩
  | register _ _ _ => exact exists_gentle_enter ..
  | post _ _ _ => exact ⟨_, hsent _, rfl⟩
  | @unsent j x _ why hx hp hw =>
    have hno : ∀ w, Except.error (α := Bytes) why ≠ .error (.cancelled w) := by
      obtain rfl | ⟨f, -, -, rfl⟩ := hw
      · obtain ⟨e, rfl⟩ := ho.unframed x (mem_of_call? hx).1 why hp
        exact fun _ => by simp
      · exact fun _ => by simp
    rw [withdraw]
    split
    · exact ⟨_, (hdone j _ hno).comp (hsent j), List.map_map⟩
    · exact ⟨_, hsent _, rfl⟩
  | deliver _ _ _ =>
    rw [Client.deliver]
    split
    · exact ⟨id, isGentle_id, (List.map_id _).symm⟩
    · refine ⟨_, hdone _ _ fun why => ?_, rfl⟩
      split <;> simp
  | endReading _ _ | stop _ _ | watch _ => exact ⟨_, isGentle_terminated _, rfl⟩

theorem Drift.exists_gentle (h : Drift c c') (ho : Ordered c) : ∃ g, IsGentle g ∧ c'.calls = c.calls.map g := by
  cases h with
  | step he hs => exact hs.exists_gentle ho he
  | stay | carried => exact ⟨id, isGentle_id, (List.map_id _).symm⟩

/-- **A client that drifts keeps its calls**, and stays in order. -/
theorem Drift.keeps (h : Drift c c') (hs : Sane c) :
    c'.calls.map (·.id) = c.calls.map (·.id) ∧ Sane c' := by
  obtain ⟨g, hg, hc⟩ := h.exists_gentle hs.ordered
  refine ⟨?_, ?_, ?_⟩
  · rw [hc, List.map_map]
    exact List.map_congr_left fun x _ => (hg x).1
  · cases h with
    | stay => exact hs.ordered
    | step _ h => exact hs.ordered.step h
    | carried => exact { hs.ordered with }
  · rw [hc]
    intro y hy why
    obtain ⟨x, hx, rfl⟩ := List.mem_map.mp hy
    rcases (hg x).2 with hsame | hno
    · rw [hsame]
      exact hs.honest x hx why
    · exact hno why

theorem Drift.closing (h : Drift c c') (hc : c.closing = true) : c'.closing = true := by
  cases h with
  | step _ h => exact closing_step h hc
  | stay | carried => exact hc

/-! ### Callers -/

theorem sane_apply (hs : Sane c) (he : e.isCallers = true) : Sane (c.apply e) := by
  rw [apply]
  cases hstep : c.step e with
  | none => exact hs
  | some c' =>
    have h := Step.of_step hstep
    refine ⟨hs.ordered.step h, fun x hx => ?_⟩
    cases h with
    | begin _ =>
      rcases List.mem_append.mp hx with hx | hx
      · exact hs.honest x hx
      · rw [List.mem_singleton.mp hx, opening]
        split <;> simp
    | abandon _ => exact hs.honest x (List.mem_filter.mp hx).1
    | close => exact hs.honest x hx
    | _ => cases he

theorem closing_apply_of_closing (hc : c.closing = true) (e : Event) : (c.apply e).closing = true := by
  rw [apply]
  cases hstep : c.step e with
  | none => exact hc
  | some c' => exact closing_step (.of_step hstep) hc

theorem ids_apply_begin {target : String} {args : Datum} (hn : i ∉ c.calls.map (·.id)) :
    (c.apply (.begin i target args)).calls.map (·.id) = c.calls.map (·.id) ++ [i] := by
  have hnone := call?_eq_none_iff.mpr hn
  have hstep : c.step (.begin i target args) =
      some { c with calls := c.calls ++ [opening c.options.codec i target args] } := by
    simp only [step, hnone, Option.isSome_none, Bool.false_eq_true, if_false]
    rfl
  rw [apply, hstep, Option.getD_some, List.map_append, List.map_singleton, id_opening]

theorem ids_apply_abandon :
    (c.apply (.abandon i)).calls.map (·.id) = (c.calls.map (·.id)).filter (· != i) := by
  rw [apply]
  cases hx : c.call? i with
  | none =>
    have hn := call?_eq_none_iff.mp hx
    simp only [step, hx, Option.map_none, Option.getD_none]
    refine (List.filter_eq_self.mpr fun j hj => bne_iff_ne.mpr ?_).symm
    rintro rfl
    exact hn hj
  | some x =>
    simp only [step, hx, Option.map_some, Option.getD_some, abandon, (mem_of_call? hx).2]
    rw [List.filter_map]
    rfl

end Client

namespace Stream

variable {α : Type} {s : Stream}

/-- What a read fails with comes from what it asks for, or the stream breaks. -/
theorem readUntil_error {take : Frame.Buffer → Except Fault (Option α) × Frame.Buffer}
    {need : Frame.Buffer → Nat} {ended : Frame.Buffer → Except Fault (Option α)} {why : Fault}
    (as : List Arrival) (b : Frame.Buffer) (h : (readUntil take need ended as b).1 = .error why) :
    (∃ b', (take b').1 = .error why) ∨ (∃ b', ended b' = .error why) ∨ ∃ w, why = .stream w := by
  fun_induction readUntil take need ended as b with
  | case1 b b' _ => exact .inr (.inl ⟨b', h⟩)
  | case2 b b' _ w as => exact .inr (.inr ⟨w, (Except.error.inj h).symm⟩)
  | case3 b b' _ as => exact .inr (.inl ⟨b', h⟩)
  | case4 b b' _ x xs as g ih => exact ih h
  | case5 as b r b' _ hr => exact .inl ⟨b, by rw [hr]; exact h⟩

theorem readLine_error {limit : Nat} {why : Fault} (h : (s.readLine limit).1 = .error why) :
    (∃ w, why = .protocol w) ∨ ∃ w, why = .stream w := by
  rcases readUntil_error _ _ h with ⟨b, hb⟩ | ⟨b, hb⟩ | hw
  · cases hl : (b.takeLine limit).1 with
    | ok l =>
      simp only [hl] at hb
      cases hb
    | error w =>
      simp only [hl] at hb
      exact .inl ⟨w, (Except.error.inj hb).symm⟩
  · cases hb
  · exact .inr hw

end Stream

namespace Tunnel

theorem readHead_error {fuel : Nat} {h : Head} {s : Stream} {why : Fault}
    (he : (readHead fuel h s).1 = .error why) : (∃ w, why = .protocol w) ∨ ∃ w, why = .stream w := by
  induction fuel generalizing h s with
  | zero => exact .inl ⟨_, (Except.error.inj he).symm⟩
  | succ fuel ih =>
    rw [readHead, readHeadLine] at he
    cases hl : s.readLine lineLimit with
    | mk r s' =>
      cases r with
      | error w =>
        simp only [hl] at he
        cases he
        exact Stream.readLine_error (congrArg Prod.fst hl)
      | ok l =>
        cases l with
        | none =>
          simp only [hl] at he
          exact .inl ⟨_, (Except.error.inj he).symm⟩
        | some bs =>
          simp only [hl] at he
          split at he
          · cases he
          · exact .inl ⟨_, (Except.error.inj he).symm⟩
          · exact ih he

theorem connect_error {s : Stream} {why : Fault} (h : (connect s).1 = .error why) :
    (∃ w, why = .protocol w) ∨ ∃ w, why = .stream w := by
  rw [connect] at h
  cases hr : readHead (headerLimit + 1) .empty s with
  | mk r s' =>
    cases r with
    | error w =>
      simp only [hr] at h
      cases h
      exact readHead_error (congrArg Prod.fst hr)
    | ok line =>
      simp only [hr, granted] at h
      split at h
      · cases h
      · exact .inl ⟨_, (Except.error.inj h).symm⟩

end Tunnel

namespace Network

variable {σ : Type} {n n' m : Network σ} {i k : Nat} {w w' : Wire} {c : Client}

/-- A client has a call of this name. -/
def HasCall (n : Network σ) (k i : Nat) : Prop :=
  ∃ w, n.wires[k]? = some w ∧ i ∈ w.client.calls.map (·.id)

/-- A client was closed. -/
def IsClosed (n : Network σ) (k : Nat) : Prop := ∃ w, n.wires[k]? = some w ∧ w.client.closing = true

/-- All clients are in order. -/
def IsSane (n : Network σ) : Prop := ∀ (k : Nat) (w : Wire), n.wires[k]? = some w → w.client.Sane

/-- Every client has drifted, and there are no new ones. -/
structure Drifts (n n' : Network σ) : Prop where
  length : n'.wires.length = n.wires.length
  wire : ∀ (k : Nat) (w w' : Wire), n.wires[k]? = some w → n'.wires[k]? = some w' →
    w.client.Drift w'.client

theorem drifts_of_wires (h : n'.wires = n.wires) : Drifts n n' where
  length := congrArg _ h
  wire k w w' hw hw' := by
    cases hw.symm.trans (h ▸ hw')
    exact .stay

theorem drifts_putClient (hm : m.wires = n.wires) (hw : n.wires[k]? = some w) (hd : w.client.Drift c) :
    Drifts n (m.putClient k w c) where
  length := by simp [putClient, hm]
  wire k' v v' hv hv' := by
    simp only [putClient, hm] at hv'
    by_cases hk : k = k'
    · subst hk
      rw [List.getElem?_set_self (List.getElem?_eq_some_iff.mp hw).1] at hv'
      cases hv'
      cases hw.symm.trans hv
      exact hd
    · rw [List.getElem?_set_ne hk] at hv'
      cases hv.symm.trans hv'
      exact .stay

theorem onConnection_wires {i c : Nat} {e : Connection.Event} (h : n.onConnection i c e = some n') :
    n'.wires = n.wires := by
  simp only [onConnection, bind, Option.bind_eq_some_iff] at h
  obtain ⟨s, -, s', -, h⟩ := h
  cases h
  rfl

theorem onFarEnd_wires {e : Connection.Event} (h : n.onFarEnd w e = some n') : n'.wires = n.wires := by
  simp only [onFarEnd, bind, Option.bind_eq_some_iff] at h
  obtain ⟨far, -, h⟩ := h
  exact onConnection_wires h

/-- **What happens in a network without a caller only lets its clients drift.** -/
theorem drifts_step {e : Event} (h : n.step e = some n') (he : e.isCallers = false) : Drifts n n' := by
  cases e with
  | tick t =>
    cases h
    exact drifts_of_wires rfl
  | client k e =>
    simp only [step, bind, Option.bind_eq_some_iff, Option.ite_none_right_eq_some] at h
    obtain ⟨w, hw, -, c, hc, h⟩ := h
    cases h
    exact drifts_putClient rfl hw (.step he (.of_step hc))
  | connection i c e =>
    simp only [step, Option.ite_none_right_eq_some] at h
    exact drifts_of_wires (onConnection_wires h.2)
  | up k m =>
    simp only [step, bind, Option.bind_eq_some_iff, Option.ite_none_right_eq_some] at h
    obtain ⟨w, hw, -, h⟩ := h
    have hput := drifts_putClient (m := n) rfl hw (.carried (w.client.outbox.wire.drop m))
    have hsame := onFarEnd_wires h
    exact ⟨hsame ▸ hput.length, fun k v v' hv hv' => hput.wire k v v' hv (hsame ▸ hv')⟩
  | down k m =>
    simp only [step, bind, Option.bind_eq_some_iff, Option.ite_none_right_eq_some] at h
    obtain ⟨w, hw, far, -, x, -, -, c, hc, h⟩ := h
    cases h
    exact drifts_putClient rfl hw (.step rfl (.of_step hc))
  | upEnd k =>
    simp only [step, bind, Option.bind_eq_some_iff, Option.ite_none_right_eq_some] at h
    obtain ⟨w, -, x, -, -, h⟩ := h
    exact drifts_of_wires (onFarEnd_wires h)
  | downEnd k | upCut k =>
    simp only [step, bind, Option.bind_eq_some_iff, Option.ite_none_right_eq_some] at h
    obtain ⟨w, hw, x, -, -, c, hc, h⟩ := h
    cases h
    exact drifts_putClient rfl hw (.step rfl (.of_step hc))
  | downCut k =>
    simp only [step, bind, Option.bind_eq_some_iff, Option.ite_none_right_eq_some] at h
    obtain ⟨w, -, x, -, -, h⟩ := h
    exact drifts_of_wires (onFarEnd_wires h)

namespace Drifts

theorem back (h : Drifts n n') (hw' : n'.wires[k]? = some w') :
    ∃ w, n.wires[k]? = some w ∧ w.client.Drift w'.client := by
  have hlt : k < n.wires.length := h.length ▸ (List.getElem?_eq_some_iff.mp hw').1
  exact ⟨_, List.getElem?_eq_getElem hlt, h.wire k _ w' (List.getElem?_eq_getElem hlt) hw'⟩

theorem forth (h : Drifts n n') (hw : n.wires[k]? = some w) :
    ∃ w', n'.wires[k]? = some w' ∧ w.client.Drift w'.client := by
  have hlt : k < n'.wires.length := h.length ▸ (List.getElem?_eq_some_iff.mp hw).1
  exact ⟨_, List.getElem?_eq_getElem hlt, h.wire k w _ hw (List.getElem?_eq_getElem hlt)⟩

theorem isSane (h : Drifts n n') (hs : n.IsSane) : n'.IsSane := by
  intro k w' hw'
  obtain ⟨w, hw, hd⟩ := h.back hw'
  exact (hd.keeps (hs k w hw)).2

theorem isClosed (h : Drifts n n') (hc : n.IsClosed k) : n'.IsClosed k := by
  obtain ⟨w, hw, hc⟩ := hc
  obtain ⟨w', hw', hd⟩ := h.forth hw
  exact ⟨w', hw', hd.closing hc⟩

theorem hasCall_iff (h : Drifts n n') (hs : n.IsSane) : n'.HasCall k i ↔ n.HasCall k i := by
  constructor
  · rintro ⟨w', hw', hi⟩
    obtain ⟨w, hw, hd⟩ := h.back hw'
    exact ⟨w, hw, (hd.keeps (hs k w hw)).1 ▸ hi⟩
  · rintro ⟨w, hw, hi⟩
    obtain ⟨w', hw', hd⟩ := h.forth hw
    exact ⟨w', hw', (hd.keeps (hs k w hw)).1.symm ▸ hi⟩

end Drifts

/-! ### Callers -/

theorem wires_apply_client {e : Client.Event} (he : e.isCallers = true) (k' : Nat) :
    (n.apply (.client k e)).wires[k']? =
      if k = k' then n.wires[k]?.map fun w => { w with client := w.client.apply e }
      else n.wires[k']? := by
  have hown : e.isOwn = true := by cases e <;> first | rfl | cases he
  rw [apply, step]
  cases hw : n.wires[k]? with
  | none =>
    by_cases hk : k = k'
    · subst hk
      simp [hw]
    · simp [hk]
  | some w =>
    have hlt := (List.getElem?_eq_some_iff.mp hw).1
    simp only [bind, Option.bind_some, hown, if_true]
    by_cases hk : k = k'
    · subst hk
      rw [if_pos rfl, Option.map_some, Client.apply]
      cases w.client.step e with
      | none => exact hw
      | some c => exact List.getElem?_set_self hlt
    · rw [if_neg hk]
      cases w.client.step e with
      | none => rfl
      | some c => exact List.getElem?_set_ne hk

theorem length_apply_client {e : Client.Event} : (n.apply (.client k e)).wires.length = n.wires.length := by
  rw [apply]
  cases h : n.step (.client k e) with
  | none => rfl
  | some n' =>
    simp only [step, bind, Option.bind_eq_some_iff, Option.ite_none_right_eq_some] at h
    obtain ⟨w, -, -, c, -, h⟩ := h
    cases h
    exact List.length_set ..

theorem IsSane.call {e : Client.Event} (hs : n.IsSane) (he : e.isCallers = true) :
    (n.apply (.client k e)).IsSane := by
  intro k' w' hw'
  rw [wires_apply_client he] at hw'
  split at hw'
  · obtain ⟨w, hw, rfl⟩ := Option.map_eq_some_iff.mp hw'
    exact Client.sane_apply (hs k w hw) he
  · exact hs k' w' hw'

theorem IsClosed.call {e : Client.Event} {j : Nat} (hc : n.IsClosed j) (he : e.isCallers = true) :
    (n.apply (.client k e)).IsClosed j := by
  obtain ⟨w, hw, hc⟩ := hc
  by_cases hk : k = j
  · subst hk
    refine ⟨{ w with client := w.client.apply e }, ?_, Client.closing_apply_of_closing hc e⟩
    rw [wires_apply_client he, if_pos rfl, hw, Option.map_some]
  · exact ⟨w, by rw [wires_apply_client he, if_neg hk, hw], hc⟩

theorem isClosed_close (hk : k < n.wires.length) : (n.apply (.client k .close)).IsClosed k := by
  refine ⟨{ n.wires[k] with client := n.wires[k].client.apply .close }, ?_, rfl⟩
  rw [wires_apply_client rfl, if_pos rfl, List.getElem?_eq_getElem hk, Option.map_some]

/-- What a caller does at one client matters to this client alone. -/
theorem hasCall_apply_client {e : Client.Event} (he : e.isCallers = true) {k' : Nat} :
    (n.apply (.client k e)).HasCall k' i ↔
      if k = k' then ∃ w, n.wires[k]? = some w ∧ i ∈ (w.client.apply e).calls.map (·.id)
      else n.HasCall k' i := by
  rw [HasCall, wires_apply_client he]
  by_cases hk : k = k'
  · simp only [if_pos hk, Option.map_eq_some_iff]
    constructor
    · rintro ⟨_, ⟨w, hw, rfl⟩, hi⟩
      exact ⟨w, hw, hi⟩
    · rintro ⟨w, hw, hi⟩
      exact ⟨_, ⟨w, hw, rfl⟩, hi⟩
  · simp only [if_neg hk]
    exact Iff.rfl

theorem hasCall_close {k' : Nat} : (n.apply (.client k .close)).HasCall k' i ↔ n.HasCall k' i := by
  rw [hasCall_apply_client rfl]
  split
  · rename_i hk
    subst hk
    exact Iff.rfl
  · exact Iff.rfl

theorem hasCall_begin {target : String} {args : Datum} {j k' : Nat} (hk : k < n.wires.length)
    (hn : ¬ n.HasCall k i) :
    (n.apply (.client k (.begin i target args))).HasCall k' j ↔
      n.HasCall k' j ∨ (k' = k ∧ j = i) := by
  rw [hasCall_apply_client rfl]
  split
  · rename_i hkk
    subst hkk
    have hw := List.getElem?_eq_getElem hk
    have hnew : i ∉ n.wires[k].client.calls.map (·.id) := fun h => hn ⟨_, hw, h⟩
    simp only [HasCall, hw, Option.some.injEq, exists_eq_left', Client.ids_apply_begin hnew,
      List.mem_append, List.mem_singleton, true_and]
  · rename_i hkk
    simp [Ne.symm hkk]

theorem hasCall_abandon {j k' : Nat} :
    (n.apply (.client k (.abandon i))).HasCall k' j ↔ n.HasCall k' j ∧ ¬ (k' = k ∧ j = i) := by
  rw [hasCall_apply_client rfl]
  split
  · rename_i hkk
    subst hkk
    simp only [HasCall, Client.ids_apply_abandon, List.mem_filter, bne_iff_ne, true_and]
    exact ⟨fun ⟨w, hw, hj, hne⟩ => ⟨⟨w, hw, hj⟩, hne⟩, fun ⟨⟨w, hw, hj⟩, hne⟩ => ⟨w, hw, hj, hne⟩⟩
  · rename_i hkk
    simp [Ne.symm hkk]

/-! ### Dialing -/

theorem IsSane.concat {far : Option (Nat × Nat)} (hs : n.IsSane) (hw : n'.wires = n.wires ++ [⟨c, far⟩])
    (hc : c.Sane) : n'.IsSane := by
  intro k w hk
  rw [hw] at hk
  by_cases hlt : k < n.wires.length
  · rw [List.getElem?_append_left hlt] at hk
    exact hs k w hk
  · rw [List.getElem?_append_right (Nat.le_of_not_lt hlt)] at hk
    rw [List.mem_singleton.mp (List.mem_of_getElem? hk)]
    exact hc

theorem IsClosed.concat {far : Option (Nat × Nat)} (hk : n.IsClosed k)
    (hw : n'.wires = n.wires ++ [⟨c, far⟩]) : n'.IsClosed k := by
  obtain ⟨w, hk, hc⟩ := hk
  refine ⟨w, ?_, hc⟩
  rw [hw, List.getElem?_append_left (List.getElem?_eq_some_iff.mp hk).1, hk]

theorem hasCall_concat {far : Option (Nat × Nat)} (hw : n'.wires = n.wires ++ [⟨c, far⟩])
    (hno : c.calls = []) : n'.HasCall k i ↔ n.HasCall k i := by
  rw [HasCall, hw]
  by_cases hlt : k < n.wires.length
  · rw [List.getElem?_append_left hlt]
    exact Iff.rfl
  · have hle := Nat.le_of_not_lt hlt
    rw [List.getElem?_append_right hle, HasCall, List.getElem?_eq_none hle]
    constructor
    · rintro ⟨w, hw, hi⟩
      rw [List.mem_singleton.mp (List.mem_of_getElem? hw), hno] at hi
      cases hi
    · rintro ⟨w, hw, -⟩
      cases hw

theorem wires_greet (l : Listener) (message : Bytes) : (n.greet l message).2.2.2.wires = n.wires := by
  unfold greet
  split
  · rfl
  · rfl
  · split
    · rfl
    · split <;> rfl

/-- **A dial that succeeds makes one new client**, without a call. -/
theorem wires_dialText {text : String} {o : Options} (h : n.dialText text o = .ok n') :
    ∃ c far, n'.wires = n.wires ++ [⟨c, far⟩] ∧ c.Sane ∧ c.calls = [] := by
  simp only [dialText] at h
  split at h
  · cases h
  · rename_i a _
    simp only [dial] at h
    split at h
    · cases h
    · split at h
      · cases h
      · rename_i l _
        split at h
        · split_ifs at h
        · cases h
          exact ⟨{ Client.start o with buffer := _ }, _, by rw [wires_greet],
            Client.sane_start o _, rfl⟩

/-- **No dial fails because it was cancelled.** -/
theorem dialText_ne_cancelled {text : String} {o : Options} {why : CancelFault} :
    n.dialText text o ≠ .error (.cancelled why) := by
  intro h
  simp only [dialText] at h
  split at h
  · cases h
  · simp only [dial] at h
    split at h
    · cases h
    · split at h
      · cases h
      · split at h
        · rename_i e he
          have hno : e ≠ .cancelled why := by
            rintro rfl
            split at he
            · rcases Tunnel.connect_error he with ⟨w, hw⟩ | ⟨w, hw⟩ <;> cases hw
            · cases he
          split_ifs at h <;> cases Except.error.inj h
          all_goals exact hno rfl
        · cases h

end Network
end Callwire
