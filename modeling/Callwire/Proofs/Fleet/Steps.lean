/-
# What a fleet does, case by case

Every event of a fleet is one event of its balancer, or none. Beside that a caller's event
happens at one client, or a dial makes a new client, or the network goes on by itself. A
client has a call exactly while the balancer's call of this number is on its way there; a
client that the balancer closed is closed.

Key definitions: `Fleet.Plain`, `Fleet.Asks`, `Fleet.Step`, `Fleet.opened`, `Fleet.run`,
`Fleet.Joined`.
Key theorems: `Fleet.Step.of_step`, `Fleet.Step.balancer`, `Fleet.Joined.step`,
`Fleet.foldl_keeps`.
-/
import Callwire.Proofs.Balancer.Pool
import Callwire.Proofs.Balancer.Records
import Callwire.Proofs.Fleet.Clients

namespace Callwire
namespace Fleet

variable {σ : Type}

/-- What an event is to the balancer, if nothing happens at a client. -/
inductive Plain (f : Fleet σ) : Event → Balancer.Event → Prop where
  | cancel {i : Nat} : Plain f (.cancel i) (.cancel i)
  | withdraw {g : Nat} : Plain f (.withdraw g) (.withdraw g)
  | close : Plain f .close .close
  | check {i : Nat} : Plain f (.forward i) (.check i)
  | enter {i : Nat} {x : Errand} (hx : f.balancer.errands[i]? = some x) :
      Plain f (.forward i) (.enter i ((f.balancer.pool.lookup x.address).any f.isAlive))
  | refuse {i : Nat} {x : Errand} {why : Fault} (hx : f.balancer.errands[i]? = some x)
      (hd : f.network.dialText x.address f.options = .error why) :
      Plain f (.forward i) (.refuse i why)
  | fail {i : Nat} {why : Fault} (hw : f.breaksDial why = true) : Plain f (.fail i why) (.refuse i why)
  | drop {i : Nat} {x : Errand} (hx : f.balancer.errands[i]? = some x)
      (hc : f.balancer.isAborted x = true ∨ f.balancer.isCancelled x = true) :
      Plain f (.forward i) (.send i)
  | drain {j : Nat} : Plain f (.shut j) (.drain j)

/-- What an event is to the balancer and to one of its clients. -/
inductive Asks (f : Fleet σ) : Event → Balancer.Event → Nat → Client.Event → Prop where
  | evict {i k : Nat} (hp : f.balancer.phase? i = some (.evicting k)) :
      Asks f (.forward i) (.evict i) k .close
  | shut {j k : Nat} {ks : List Nat} (hj : f.balancer.closings[j]? = some (some (k :: ks))) :
      Asks f (.shut j) (.shut j) k .close
  | send {i k : Nat} {x : Errand} {order : Order} (hx : f.balancer.errands[i]? = some x)
      (hp : x.phase = .ready k) (ho : f.orders[i]? = some order)
      (ha : f.balancer.isAborted x = false) :
      Asks f (.forward i) (.send i) k (.begin i order.target order.args)
  | take {i k : Nat} {w : Wire} {order : Order} {r : Except Fault Bytes}
      (hp : f.balancer.phase? i = some (.calling k)) (hw : f.network.wires[k]? = some w)
      (ho : f.orders[i]? = some order) (hr : w.client.outcome? i = some r) :
      Asks f (.forward i)
        (.answer i (Client.readReply w.client.options.codec order.reply r)) k (.abandon i)
  | giveUp {i k : Nat} {x : Errand} (hx : f.balancer.errands[i]? = some x)
      (hp : x.phase = .calling k) (hc : f.balancer.isCancelled x = true) :
      Asks f (.giveUp i) (.answer i (.error (.cancelled .call))) k (.abandon i)

/-- What an event does to a fleet, case by case. -/
inductive Step (f : Fleet σ) : Event → Fleet σ → Prop where
  | call {address : String} {order : Order} {cancelled : Bool} {b : Balancer}
      (hb : f.balancer.Step (.call address cancelled) b) :
      Step f (.call address order cancelled)
        { f with balancer := b, orders := f.orders ++ [order] }
  | broadcast {addresses : List String} {order : Order} {cancelled : Bool} {b : Balancer}
      (hb : f.balancer.Step (.broadcast addresses cancelled) b) :
      Step f (.broadcast addresses order cancelled)
        { f with balancer := b, orders := f.orders ++ List.replicate addresses.length order }
  | plain {e : Event} {e' : Balancer.Event} {b : Balancer} (he : Plain f e e')
      (hb : f.balancer.Step e' b) : Step f e { f with balancer := b }
  | ask {e : Event} {e' : Balancer.Event} {k : Nat} {ce : Client.Event} {b : Balancer}
      (he : Asks f e e' k ce) (hb : f.balancer.Step e' b) :
      Step f e { f.onClient k ce with balancer := b }
  | connect {i : Nat} {x : Errand} {n : Network σ} {b : Balancer}
      (hx : f.balancer.errands[i]? = some x) (hd : f.network.dialText x.address f.options = .ok n)
      (hb : f.balancer.Step (.connect i) b) :
      Step f (.connect i) { f with network := n, balancer := b }
  | world {e : Event} {n : Network σ} (hn : f.network.Drifts n) : Step f e { f with network := n }

variable {f f' : Fleet σ} {e : Event} {i k : Nat}

theorem advance_eq_some_iff {e' : Balancer.Event} :
    f.advance e' = some f' ↔ ∃ b, f.balancer.step e' = some b ∧ f' = { f with balancer := b } := by
  rw [advance, Option.map_eq_some_iff]
  exact exists_congr fun b => and_congr_right fun _ => eq_comm

theorem Step.of_send (h : f.send i k = some f') {x : Errand} (hx : f.balancer.errands[i]? = some x)
    (hp : x.phase = .ready k) : Step f (.forward i) f' := by
  simp only [send, hx, bind, Option.bind_some, Option.bind_eq_some_iff, advance_eq_some_iff] at h
  obtain ⟨order, ho, _, ⟨b, hb, rfl⟩, h⟩ := h
  split at h
  · rename_i hc
    cases h
    exact .plain (.drop hx (by simpa using hc)) (.of_step hb)
  · rename_i hc
    cases h
    have ha : f.balancer.isAborted x = false := by
      cases ha : f.balancer.isAborted x with
      | false => rfl
      | true => simp [ha] at hc
    exact .ask (.send hx hp ho ha) (.of_step hb)

theorem Step.of_forward (h : f.forward? i = some f') : Step f (.forward i) f' := by
  simp only [forward?, bind, Option.bind_eq_some_iff] at h
  obtain ⟨x, hx, h⟩ := h
  split at h
  · obtain ⟨b, hb, rfl⟩ := advance_eq_some_iff.mp h
    exact .plain .check (.of_step hb)
  · obtain ⟨b, hb, rfl⟩ := advance_eq_some_iff.mp h
    exact .plain (.enter hx) (.of_step hb)
  · rename_i k hp
    obtain ⟨b, hb, rfl⟩ := advance_eq_some_iff.mp h
    exact .ask (.evict (Balancer.phase?_eq_some_iff.mpr ⟨x, hx, hp⟩)) (.of_step hb)
  · split at h
    · rename_i why hd
      obtain ⟨b, hb, rfl⟩ := advance_eq_some_iff.mp h
      exact .plain (.refuse hx hd) (.of_step hb)
    · cases h
  · rename_i k hp
    exact .of_send h hx hp
  · rename_i k hp
    simp only [take, bind, Option.bind_eq_some_iff, advance_eq_some_iff] at h
    obtain ⟨w, hw, order, ho, r, hr, b, hb, rfl⟩ := h
    exact .ask (.take (Balancer.phase?_eq_some_iff.mpr ⟨x, hx, hp⟩) hw ho hr) (.of_step hb)
  · cases h

/-- **There are no other cases.** -/
theorem Step.of_step (h : f.step e = some f') : Step f e f' := by
  cases e with
  | call address order cancelled =>
    obtain ⟨b, hb, rfl⟩ := advance_eq_some_iff.mp h
    exact .call (.of_step hb)
  | broadcast addresses order cancelled =>
    obtain ⟨b, hb, rfl⟩ := advance_eq_some_iff.mp h
    exact .broadcast (.of_step hb)
  | cancel i =>
    obtain ⟨b, hb, rfl⟩ := advance_eq_some_iff.mp h
    exact .plain .cancel (.of_step hb)
  | withdraw g =>
    obtain ⟨b, hb, rfl⟩ := advance_eq_some_iff.mp h
    exact .plain .withdraw (.of_step hb)
  | close =>
    obtain ⟨b, hb, rfl⟩ := advance_eq_some_iff.mp h
    exact .plain .close (.of_step hb)
  | forward i => exact .of_forward h
  | connect i =>
    simp only [step, connect?, bind, Option.bind_eq_some_iff] at h
    obtain ⟨x, hx, h⟩ := h
    split at h
    · split at h
      · cases h
      · rename_i n hd
        obtain ⟨b, hb, rfl⟩ := advance_eq_some_iff.mp h
        exact .connect hx hd (.of_step hb)
    · cases h
  | fail i why =>
    simp only [step, Option.ite_none_right_eq_some, advance_eq_some_iff] at h
    obtain ⟨hw, b, hb, rfl⟩ := h
    exact .plain (.fail hw) (.of_step hb)
  | giveUp i =>
    simp only [step, giveUp?, bind, Option.bind_eq_some_iff] at h
    obtain ⟨x, hx, h⟩ := h
    split at h
    · rename_i k hp
      simp only [Option.ite_none_right_eq_some, advance_eq_some_iff] at h
      obtain ⟨hc, b, hb, rfl⟩ := h
      exact .ask (.giveUp hx hp hc) (.of_step hb)
    · cases h
  | shut j =>
    simp only [step, shut?, bind, Option.bind_eq_some_iff] at h
    obtain ⟨c, hj, h⟩ := h
    split at h
    · obtain ⟨b, hb, rfl⟩ := advance_eq_some_iff.mp h
      exact .plain .drain (.of_step hb)
    · cases h
    · obtain ⟨b, hb, rfl⟩ := advance_eq_some_iff.mp h
      exact .ask (.shut hj) (.of_step hb)
  | network e =>
    simp only [step, Option.ite_none_left_eq_some, Option.map_eq_some_iff] at h
    obtain ⟨he, n, hn, rfl⟩ := h
    exact .world (Network.drifts_step hn (by simpa using he))
  | peer k e =>
    simp only [step, Option.ite_none_left_eq_some, hear?, bind, Option.bind_eq_some_iff] at h
    obtain ⟨he, w, hw, c, hc, h⟩ := h
    cases h
    have hown : e.isCallers = false := by cases e <;> first | rfl | simp [Client.Event.isOwn] at he
    exact .world (Network.drifts_putClient rfl hw (.step hown (.of_step hc)))

/-! ### What a fleet is to its balancer -/

theorem honest_readReply {codec : Codec} {shape : Shape} {r : Except Fault Bytes}
    (hr : ∀ why, r ≠ .error (.cancelled why)) : Client.readReply codec shape r ≠ Balancer.aborted := by
  cases r with
  | error why =>
    intro h
    cases h
    exact hr _ rfl
  | ok body =>
    rw [Client.readReply]
    cases codec.decode shape body <;> exact nofun

theorem Plain.honest {e' : Balancer.Event} (h : Plain f e e') : e'.IsHonest := by
  cases h with
  | refuse _ hd =>
    rintro rfl
    exact Network.dialText_ne_cancelled hd
  | fail hw =>
    rintro rfl
    cases hw
  | _ => trivial

theorem Asks.honest {e' : Balancer.Event} {ce : Client.Event} (h : Asks f e e' k ce)
    (hs : f.network.IsSane) : e'.IsHonest := by
  cases h with
  | take _ hw _ hr =>
    refine honest_readReply fun why => ?_
    rintro rfl
    obtain ⟨x, hx, hxr⟩ := Option.bind_eq_some_iff.mp hr
    exact (hs k _ hw).honest x (Client.mem_of_call? hx).1 why hxr
  | giveUp _ _ _ => exact nofun
  | _ => trivial

/-- **What happens in a fleet is to its balancer a step, or nothing.** No event says that a
broadcast goes no further, and only its caller cancels it. -/
theorem Step.balancer (h : Step f e f') (hs : f.network.IsSane) :
    f'.balancer = f.balancer ∨ ∃ e', f.balancer.Step e' f'.balancer ∧ e'.IsHonest ∧
      ∀ g, e' = .withdraw g → e = .withdraw g := by
  cases h with
  | call hb | broadcast hb | connect _ _ hb => exact .inr ⟨_, hb, trivial, nofun⟩
  | plain he hb =>
    refine .inr ⟨_, hb, he.honest, fun g hg => ?_⟩
    cases he <;> cases hg
    rfl
  | ask he hb =>
    refine .inr ⟨_, hb, he.honest hs, fun g hg => ?_⟩
    cases he <;> cases hg
  | world _ => exact .inl rfl

theorem Asks.isCallers {e' : Balancer.Event} {ce : Client.Event} (h : Asks f e e' k ce) :
    ce.isCallers = true := by
  cases h <;> rfl

/-! ### Balancer and network together -/

/-- What holds of a fleet at all times. The pool is in order, and so are the records and
the clients; clients and wires are the same, and every call has its order. A client has a
call only while the balancer's is on its way there, and then it has it if this is part of a
broadcast. What the balancer closed is closed. -/
structure Joined (f : Fleet σ) : Prop where
  stocked : f.balancer.Stocked
  numbered : f.balancer.IsNumbered
  truthful : f.balancer.IsTruthful
  sane : f.network.IsSane
  wires : f.network.wires.length = f.balancer.clients
  orders : f.orders.length = f.balancer.errands.length
  named : ∀ k i, f.network.HasCall k i → f.balancer.phase? i = some (.calling k)
  asked : ∀ (i : Nat) (x : Errand) (k : Nat), f.balancer.errands[i]? = some x →
    x.phase = .calling k → x.broadcast ≠ none → f.network.HasCall k i
  closed : ∀ k ∈ f.balancer.closed, f.network.IsClosed k

namespace Joined

theorem lt_wires (hf : Joined f) {p : Errand.Phase} (hp : f.balancer.phase? i = some p)
    (hk : p.client? = some k) : k < f.network.wires.length :=
  hf.wires ▸ hf.stocked.known k (.inr (.inl ⟨i, p, hp, hk⟩))

/-- A call that is to be sent is with no client before, and with its own from then on. -/
theorem hasCall_begin_iff (hf : Joined f) (hi : f.balancer.phase? i = some (.ready k)) {target : String}
    {args : Datum} {j k' : Nat} :
    (f.network.apply (.client k (.begin i target args))).HasCall k' j ↔
      f.network.HasCall k' j ∨ (k' = k ∧ j = i) :=
  Network.hasCall_begin (hf.lt_wires hi rfl) fun hold => by cases (hf.named k i hold).symm.trans hi

theorem sane_step (hf : Joined f) (h : Step f e f') : f'.network.IsSane := by
  cases h with
  | call | broadcast | plain => exact hf.sane
  | ask he _ => exact hf.sane.call he.isCallers
  | connect _ hd _ =>
    obtain ⟨c, far, hw, hc, -⟩ := Network.wires_dialText hd
    exact hf.sane.concat hw hc
  | world hn => exact hn.isSane hf.sane

theorem wires_step (hf : Joined f) (h : Step f e f') : f'.network.wires.length = f'.balancer.clients := by
  have hstay : ∀ {e' b}, f.balancer.Step e' b → (∀ i, e' ≠ .connect i) → b.clients = f.balancer.clients := by
    intro e' b hb he
    rcases hb.clients_cases with ⟨hc, -⟩ | ⟨i, a, rfl, -⟩
    · exact hc
    · exact absurd rfl (he i)
  cases h with
  | call hb | broadcast hb => exact hf.wires.trans (hstay hb nofun).symm
  | plain he hb => exact hf.wires.trans (hstay hb (by cases he <;> exact nofun)).symm
  | ask he hb =>
    exact (Network.length_apply_client.trans hf.wires).trans (hstay hb (by cases he <;> exact nofun)).symm
  | connect _ hd hb =>
    obtain ⟨c, far, hw, -⟩ := Network.wires_dialText hd
    rcases hb.clients_cases with ⟨-, hno⟩ | ⟨i, a, -, hc, -⟩
    · exact absurd rfl (hno _)
    · show List.length _ = _
      rw [hw, hc, List.length_append, hf.wires, List.length_singleton]
  | world hn => exact hn.length.trans hf.wires

theorem orders_step (hf : Joined f) (h : Step f e f') : f'.orders.length = f'.balancer.errands.length := by
  cases h with
  | call hb | broadcast hb =>
    rw [hb.length_errands, List.length_append, hf.orders]
    simp [Balancer.Event.begins]
  | plain he hb =>
    rw [hb.length_errands]
    cases he <;> exact hf.orders
  | ask he hb =>
    rw [hb.length_errands]
    cases he <;> exact hf.orders
  | connect _ _ hb =>
    rw [hb.length_errands]
    exact hf.orders
  | world _ => exact hf.orders

/-- A call on its way that is not answered is still there. -/
theorem calling_stays (hf : Joined f) {e' : Balancer.Event} {b : Balancer} (hb : f.balancer.Step e' b)
    (hc : f.network.HasCall k i) (he : ∀ r, e' ≠ .answer i r) : b.phase? i = some (.calling k) := by
  rcases hb.calling (hf.named k i hc) with hi | ⟨r, rfl, -⟩
  · exact hi
  · exact absurd rfl (he r)

theorem named_step (hf : Joined f) (h : Step f e f') (hc : f'.network.HasCall k i) :
    f'.balancer.phase? i = some (.calling k) := by
  cases h with
  | call hb | broadcast hb => exact hf.calling_stays hb hc nofun
  | plain he hb => exact hf.calling_stays hb hc (by cases he <;> exact nofun)
  | connect _ hd hb =>
    obtain ⟨c, far, hw, -, hno⟩ := Network.wires_dialText hd
    exact hf.calling_stays hb ((Network.hasCall_concat hw hno).mp hc) nofun
  | world hn => exact hf.named k i ((hn.hasCall_iff hf.sane).mp hc)
  | @ask _ _ k' _ _ he hb =>
    cases he with
    | evict _ | shut _ => exact hf.calling_stays hb (Network.hasCall_close.mp hc) nofun
    | @send i' _ x order hx hp _ ha =>
      have hi : f.balancer.phase? i' = some (.ready k') := Balancer.phase?_eq_some_iff.mpr ⟨x, hx, hp⟩
      rcases (hf.hasCall_begin_iff hi).mp hc with hc | ⟨rfl, rfl⟩
      · exact hf.calling_stays hb hc nofun
      · exact hb.sent hx hp ha
    | take hp _ _ _ =>
      obtain ⟨hold, hne⟩ := Network.hasCall_abandon.mp hc
      refine hf.calling_stays hb hold ?_
      rintro r ⟨⟩
      cases hp.symm.trans (hf.named k i hold)
      exact hne ⟨rfl, rfl⟩
    | @giveUp _ _ x hx hp _ =>
      obtain ⟨hold, hne⟩ := Network.hasCall_abandon.mp hc
      refine hf.calling_stays hb hold ?_
      rintro r ⟨⟩
      cases (Balancer.phase?_eq_some_iff.mpr ⟨x, hx, hp⟩).symm.trans (hf.named k i hold)
      exact hne ⟨rfl, rfl⟩

theorem hasCall_step (hf : Joined f) (h : Step f e f') (hc : f.network.HasCall k i)
    (hp : f'.balancer.phase? i = some (.calling k)) : f'.network.HasCall k i := by
  have hno : ∀ {r}, f'.balancer.outcome? i ≠ some r := by
    intro r hr
    cases hp.symm.trans (Balancer.outcome?_eq_some_iff.mp hr)
  cases h with
  | call | broadcast | plain => exact hc
  | connect _ hd _ =>
    obtain ⟨c, far, hw, -, hnone⟩ := Network.wires_dialText hd
    exact (Network.hasCall_concat hw hnone).mpr hc
  | world hn => exact (hn.hasCall_iff hf.sane).mpr hc
  | @ask _ _ k' _ _ he hb =>
    cases he with
    | evict _ | shut _ => exact Network.hasCall_close.mpr hc
    | @send i' _ x order hx hp' _ _ =>
      have hi : f.balancer.phase? i' = some (.ready k') := Balancer.phase?_eq_some_iff.mpr ⟨x, hx, hp'⟩
      exact (hf.hasCall_begin_iff hi).mpr (.inl hc)
    | take _ _ _ _ | giveUp _ _ _ =>
      refine Network.hasCall_abandon.mpr ⟨hc, ?_⟩
      rintro ⟨rfl, rfl⟩
      exact hno hb.answered

/-- A call of a broadcast is on its way because it was, or its client has it now. -/
theorem of_calling (hf : Joined f) (h : Step f e f') {y : Errand} (hy : f'.balancer.errands[i]? = some y)
    (hp : y.phase = .calling k) (hg : y.broadcast ≠ none) :
    f.balancer.phase? i = some (.calling k) ∨ f'.network.HasCall k i := by
  have hi : f'.balancer.phase? i = some (.calling k) := Balancer.phase?_eq_some_iff.mpr ⟨y, hy, hp⟩
  cases h with
  | call hb | broadcast hb | connect _ _ hb =>
    rcases hb.of_calling hi with hold | ⟨x, -, -, he, -⟩
    · exact .inl hold
    · cases he
  | world _ => exact .inl hi
  | plain he hb =>
    rcases hb.of_calling hi with hold | ⟨x, hx, -, rfl, ha⟩
    · exact .inl hold
    · cases he with
      | drop hx' hc =>
        cases hx.symm.trans hx'
        obtain ⟨z, hz, -, hzg, -⟩ := hb.errand hx
        cases hy.symm.trans hz
        rcases hc with hc | hc
        · cases ha.symm.trans hc
        · cases ha.symm.trans (Balancer.isAborted_of_isCancelled (hzg ▸ hg) hc)
  | ask he hb =>
    rcases hb.of_calling hi with hold | ⟨x, hx, hr, rfl, ha⟩
    · exact .inl hold
    · cases he with
      | send hx' hp' _ _ =>
        cases hx.symm.trans hx'
        cases hr.symm.trans hp'
        have hready : f.balancer.phase? i = some (.ready k) := Balancer.phase?_eq_some_iff.mpr ⟨x, hx, hr⟩
        exact .inr ((hf.hasCall_begin_iff hready).mpr (.inr ⟨rfl, rfl⟩))

theorem asked_step (hf : Joined f) (h : Step f e f') {y : Errand} (hy : f'.balancer.errands[i]? = some y)
    (hp : y.phase = .calling k) (hg : y.broadcast ≠ none) : f'.network.HasCall k i := by
  rcases hf.of_calling h hy hp hg with hold | hc
  · have hi : f'.balancer.phase? i = some (.calling k) := Balancer.phase?_eq_some_iff.mpr ⟨y, hy, hp⟩
    obtain ⟨x, hx, hxp⟩ := Balancer.phase?_eq_some_iff.mp hold
    refine hf.hasCall_step h (hf.asked i x k hx hxp ?_) hi
    rcases h.balancer hf.sane with hsame | ⟨e', hb, -⟩
    · cases hx.symm.trans (hsame ▸ hy)
      exact hg
    · obtain ⟨z, hz, -, hzg, -⟩ := hb.errand hx
      cases hy.symm.trans hz
      exact hzg ▸ hg
  · exact hc

theorem isClosed_step (h : Step f e f') (hc : f.network.IsClosed k) : f'.network.IsClosed k := by
  cases h with
  | call | broadcast | plain => exact hc
  | ask he _ => exact hc.call he.isCallers
  | connect _ hd _ =>
    obtain ⟨c, far, hw, -⟩ := Network.wires_dialText hd
    exact hc.concat hw
  | world hn => exact hn.isClosed hc

theorem closed_step (hf : Joined f) (h : Step f e f') (hk : k ∈ f'.balancer.closed) :
    f'.network.IsClosed k := by
  have hold : k ∈ f.balancer.closed → f'.network.IsClosed k := fun hk => isClosed_step h (hf.closed k hk)
  cases h with
  | world _ => exact hold hk
  | call hb | broadcast hb | connect _ _ hb =>
    rcases hb.of_mem_closed hk with hk | ⟨i, he, -⟩ | ⟨j, ks, he, -⟩
    · exact hold hk
    · cases he
    · cases he
  | plain he hb =>
    rcases hb.of_mem_closed hk with hk | ⟨i, rfl, -⟩ | ⟨j, ks, rfl, -⟩
    · exact hold hk
    · cases he
    · cases he
  | ask he hb =>
    rcases hb.of_mem_closed hk with hk | ⟨i, rfl, hi⟩ | ⟨j, ks, rfl, hj⟩
    · exact hold hk
    · cases he with
      | evict hi' =>
        cases hi.symm.trans hi'
        exact Network.isClosed_close (hf.lt_wires hi rfl)
    · cases he with
      | shut hj' =>
        cases hj.symm.trans hj'
        refine Network.isClosed_close (hf.wires ▸ hf.stocked.known k (.inr (.inr ?_)))
        exact ⟨_, List.mem_of_getElem? hj, List.mem_cons_self⟩

/-- **Whatever happens, balancer and network stay together.** -/
theorem step (hf : Joined f) (h : Step f e f') : Joined f' where
  stocked := by
    rcases h.balancer hf.sane with hsame | ⟨e', hb, -⟩
    · exact hsame ▸ hf.stocked
    · exact hf.stocked.step hb
  numbered := by
    rcases h.balancer hf.sane with hsame | ⟨e', hb, -⟩
    · exact hsame ▸ hf.numbered
    · exact hf.numbered.step hb
  truthful := by
    rcases h.balancer hf.sane with hsame | ⟨e', hb, he, -⟩
    · exact hsame ▸ hf.truthful
    · exact hf.truthful.step hb he
  sane := hf.sane_step h
  wires := hf.wires_step h
  orders := hf.orders_step h
  named _ _ := hf.named_step h
  asked _ _ _ := hf.asked_step h
  closed _ := hf.closed_step h

end Joined

/-! ### Runs -/

/-- A fleet that has done nothing yet: it dials with these options and is in this network. -/
def opened (o : Options) (n : Network σ) : Fleet σ := { options := o, network := { n with wires := [] } }

/-- A fleet after some events. Events that cannot happen do nothing. -/
def run (o : Options) (n : Network σ) (es : List Event) : Fleet σ := es.foldl apply (opened o n)

/-- **What holds before some events, and after every one of them, holds after all.** -/
theorem foldl_keeps {P : Fleet σ → Prop} {es : List Event}
    (hstep : ∀ f e f', e ∈ es → Step f e f' → P f → P f') (hf : P f) : P (es.foldl apply f) := by
  induction es generalizing f with
  | nil => exact hf
  | cons e es ih =>
    refine ih (fun f e' f' he => hstep f e' f' (List.mem_cons_of_mem _ he)) ?_
    rw [apply]
    cases hs : f.step e with
    | none => exact hf
    | some f' => exact hstep f e f' List.mem_cons_self (.of_step hs) hf

theorem joined_opened (o : Options) (n : Network σ) : Joined (opened o n) where
  stocked := Balancer.stocked_empty
  numbered := by
    intro i x g hx
    simp [opened] at hx
  truthful := by
    intro g x hx
    simp [opened] at hx
  sane := by
    intro k w hw
    simp [opened] at hw
  wires := rfl
  orders := rfl
  named := by
    rintro k i ⟨w, hw, -⟩
    simp [opened] at hw
  asked := by
    intro i x k hx
    simp [opened] at hx
  closed := nofun

theorem Joined.foldl (hf : Joined f) (es : List Event) : Joined (es.foldl apply f) :=
  foldl_keeps (fun _ _ _ _ h hf => hf.step h) hf

/-- **What every step of a balancer keeps is kept by whatever happens to a fleet.** -/
theorem Joined.balancer_foldl {P : Balancer → Prop} (hf : Joined f)
    (hstep : ∀ b e b', Balancer.Step b e b' → P b → P b') (hp : P f.balancer) (es : List Event) :
    P (es.foldl apply f).balancer := by
  suffices h : Joined (es.foldl apply f) ∧ P (es.foldl apply f).balancer from h.2
  refine foldl_keeps (P := fun f => Joined f ∧ P f.balancer) ?_ ⟨hf, hp⟩
  rintro f e f' - hs ⟨hf, hp⟩
  refine ⟨hf.step hs, ?_⟩
  rcases hs.balancer hf.sane with hsame | ⟨e', hb, -⟩
  · exact hsame ▸ hp
  · exact hstep _ _ _ hb hp

theorem joined_run (o : Options) (n : Network σ) (es : List Event) : Joined (run o n es) :=
  (joined_opened o n).foldl es

end Fleet
end Callwire
