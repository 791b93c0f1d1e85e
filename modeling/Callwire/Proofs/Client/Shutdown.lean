/-
# A client that is shut down

Once a client is shut down its table of pending calls is empty for good, and the calls
that were in it have failed. A call whose turn comes when the client is closed or shut
down fails without a number, and no frame of it is handed over. A client that takes no
more calls never takes one again, and of all who close it only the first succeeds.

Key definitions: `Client.closeResults`.
Key theorems: `Client.shutdown_step`, `Client.calls_of_shutdown`, `Client.fails_for_good`,
`Client.shutdown_leaves_nothing_pending`.
-/
import Callwire.Proofs.Client.Table

namespace Callwire
namespace Client

variable {c c' : Client} {e : Event} {id : Nat} {x : Call}

/-! ### The flags -/

theorem flags_enter {target : String} {body : Bytes} :
    (c.enter id target body).closing = c.closing ∧ (c.enter id target body).shutdown = c.shutdown := by
  rcases enter_cases c id target body with ⟨-, he⟩ | ⟨-, he⟩ <;> exact he ▸ ⟨rfl, rfl⟩

theorem flags_withdraw {s : UInt64} {why : Fault} :
    (c.withdraw id s why).closing = c.closing ∧ (c.withdraw id s why).shutdown = c.shutdown := by
  rw [withdraw]
  split <;> exact ⟨rfl, rfl⟩

theorem flags_deliver {h : Header} {body : Bytes} :
    (c.deliver h body).closing = c.closing ∧ (c.deliver h body).shutdown = c.shutdown := by
  rw [deliver]
  split <;> exact ⟨rfl, rfl⟩

theorem closing_eq (hs : Step c e c') (he : e ≠ .close) : c'.closing = c.closing := by
  cases hs with
  | close => exact absurd rfl he
  | register _ _ _ => exact flags_enter.1
  | unsent _ _ _ => exact flags_withdraw.1
  | deliver _ _ _ => exact flags_deliver.1
  | _ => rfl

theorem closing_step (hs : Step c e c') (hc : c.closing = true) : c'.closing = true := by
  by_cases he : e = .close
  · subst he
    cases hs
    rfl
  · exact (closing_eq hs he).trans hc

/-- **A client that is shut down stays so.** -/
theorem shutdown_step (hs : Step c e c') (hc : c.shutdown = true) : c'.shutdown = true := by
  cases hs with
  | register _ _ _ => exact flags_enter.2.trans hc
  | unsent _ _ _ => exact flags_withdraw.2.trans hc
  | deliver _ _ _ => exact flags_deliver.2.trans hc
  | endReading _ _ | stop _ _ | watch _ => rfl
  | _ => exact hc

theorem closing_foldl (es : List Event) (hc : c.closing = true) : (es.foldl apply c).closing = true :=
  foldl_keeps (fun _ _ _ _ => closing_step) hc

theorem shutdown_foldl (es : List Event) (hc : c.shutdown = true) : (es.foldl apply c).shutdown = true :=
  foldl_keeps (fun _ _ _ _ => shutdown_step) hc

theorem isAvailable_eq_false_iff : c.isAvailable = false ↔ c.closing = true ∨ c.shutdown = true := by
  rw [isAvailable, Bool.and_eq_false_iff, Bool.not_eq_false', Bool.not_eq_false']

theorem isAvailable_foldl (es : List Event) (hc : c.isAvailable = false) :
    (es.foldl apply c).isAvailable = false := by
  rw [isAvailable_eq_false_iff] at hc ⊢
  exact hc.imp (closing_foldl es) (shutdown_foldl es)

/-! ### The calls -/

/-- **The event that shuts a client down fails the calls that are pending**, and changes
no other call. -/
theorem calls_of_shutdown (hs : Step c e c') (hc : c.shutdown = false) (hc' : c'.shutdown = true) :
    c'.calls = c.calls.map c.terminated := by
  have hstays : c'.shutdown ≠ c.shutdown := by
    rw [hc, hc']
    exact nofun
  cases hs with
  | register _ _ _ => exact absurd flags_enter.2 hstays
  | unsent _ _ _ => exact absurd flags_withdraw.2 hstays
  | deliver _ _ _ => exact absurd flags_deliver.2 hstays
  | endReading _ _ | stop _ _ | watch _ => rfl
  | _ => exact absurd rfl hstays

theorem Ordered.call?_of_shutdown (h : Ordered c) (hs : Step c e c') (hc : c.shutdown = false)
    (hc' : c'.shutdown = true) {p : UInt64 × Nat} (hp : p ∈ c.pending) :
    ∃ x, c'.call? p.2 = some x ∧ x.outcome = some (.error .shutdown) := by
  obtain ⟨x, hx, hid, -⟩ := h.pending p hp
  have hcall : c.call? p.2 = some x := hid ▸ call?_of_mem h.ids hx
  have hterm : c.terminated x = { x with outcome := some (.error .shutdown) } := by
    rw [terminated, if_pos (List.contains_iff_mem.mpr (List.mem_map.mpr ⟨p, hp, hid.symm⟩))]
  refine ⟨c.terminated x, ?_, hterm ▸ rfl⟩
  rw [call?_map id_terminated (calls_of_shutdown hs hc hc'), hcall, Option.map_some]

/-- A call that failed in a client that is shut down has failed for good. -/
theorem Ordered.outcome?_foldl (h : Ordered c) (hc : c.shutdown = true) (hx : c.call? id = some x)
    (ho : x.outcome ≠ none) {es : List Event} (hes : .abandon id ∉ es) :
    (es.foldl apply c).outcome? id = x.outcome := by
  let failed (d : Client) : Prop :=
    Ordered d ∧ d.shutdown = true ∧ ∃ y, d.call? id = some y ∧ y.outcome = x.outcome
  suffices hkeep : failed (es.foldl apply c) by
    obtain ⟨-, -, y, hy, hyo⟩ := hkeep
    rw [outcome?, hy, Option.bind_some, hyo]
  refine foldl_keeps (P := failed) ?_ ⟨h, hc, x, hx, rfl⟩
  rintro d e d' he hs ⟨hd, hsd, y, hy, hyo⟩
  -- nothing is pending, so no number can be another call's
  have hown : ∀ f, y.phase = .sending f → ∀ i, d.pending.lookup y.seq = some i → i = id := by
    intro f _ i hi
    rw [hd.shut hsd] at hi
    cases hi
  have hne : e ≠ .abandon id := fun heq => hes (heq ▸ he)
  refine ⟨hd.step hs, shutdown_step hs hsd, ?_⟩
  rcases hd.settled hs hy hown (hyo ▸ ho) hne with hy' | hy'
  · exact ⟨y, hy', hyo⟩
  · exact ⟨_, hy', hyo⟩

/-- **A call that failed and has no frame to hand over stays as it is**, whatever happens
to the client. -/
theorem Ordered.call?_foldl (h : Ordered c) (hx : c.call? id = some x) (hp : x.phase = .sent)
    (ho : x.outcome ≠ none) {es : List Event} (hes : .abandon id ∉ es) :
    (es.foldl apply c).call? id = some x := by
  suffices hkeep : Ordered (es.foldl apply c) ∧ (es.foldl apply c).call? id = some x from hkeep.2
  refine foldl_keeps (P := fun d => Ordered d ∧ d.call? id = some x) ?_ ⟨h, hx⟩
  rintro d e d' he hs ⟨hd, hxd⟩
  refine ⟨hd.step hs, ?_⟩
  have hne : e ≠ .abandon id := fun heq => hes (heq ▸ he)
  have hsame : { x with phase := .sent } = x := by rw [← hp]
  have hown : ∀ f, x.phase = .sending f → ∀ i, d.pending.lookup x.seq = some i → i = id := by
    intro f hf
    rw [hp] at hf
    cases hf
  rcases hd.settled hs hxd hown ho hne with hx' | hx'
  · exact hx'
  · exact hsame ▸ hx'

/-- A client that was closed or shut down turns the call away whose turn it is: only
that call changes. -/
theorem apply_register {body : Bytes} (hc : c.closing = true ∨ c.shutdown = true)
    (hx : c.call? id = some x) (hp : x.phase = .waiting body) (hs : c.isSending = false) :
    c.apply (.register id) = c.update id turnedAway := by
  obtain ⟨xid, target, seq, phase, out⟩ := x
  simp only at hp
  subst hp
  rw [apply, step, hx]
  simp only [hs, Bool.false_eq_true, if_false, Option.getD_some]
  rcases enter_cases c id target body with ⟨-, he⟩ | ⟨hn, -⟩
  · exact he
  · exact absurd (.inr hc) hn

/-- **A call that is turned away has no number and fails for good.** -/
theorem Ordered.fails_for_good {body : Bytes} (h : Ordered c) (hc : c.closing = true ∨ c.shutdown = true)
    (hx : c.call? id = some x) (hp : x.phase = .waiting body) (hs : c.isSending = false) :
    x.seq = 0 ∧ c.apply (.register id) = c.update id turnedAway ∧
      ∀ es : List Event, .abandon id ∉ es →
        (es.foldl apply (c.apply (.register id))).call? id = some (turnedAway x) := by
  refine ⟨(h.waiting x (mem_of_call? hx).1 body hp).1, apply_register hc hx hp hs, fun es hes => ?_⟩
  have hord : Ordered (c.apply (.register id)) := h.foldl [.register id]
  rw [apply_register hc hx hp hs] at hord ⊢
  exact hord.call?_foldl (call?_update (g := turnedAway) (fun _ => rfl) rfl hx) rfl nofun hes

/-! ### Closing -/

/-- What the one is told who closes the client by this event. -/
def told (c : Client) : Event → List (Except Fault Unit)
  | .close => [c.closeResult]
  | _ => []

/-- What the ones are told who close the client, in this order. -/
def closeResults (c : Client) : List Event → List (Except Fault Unit)
  | [] => []
  | e :: es => c.told e ++ closeResults (c.apply e) es

theorem closeResults_of_closing (es : List Event) (hc : c.closing = true) :
    ∃ n, c.closeResults es = .replicate n (.error .shutdown) := by
  induction es generalizing c with
  | nil => exact ⟨0, rfl⟩
  | cons e es ih =>
    obtain ⟨n, hn⟩ := ih (c := c.apply e) (closing_foldl [e] hc)
    cases e with
    | close => exact ⟨n + 1, by rw [closeResults, hn, told, closeResult, if_pos hc]; rfl⟩
    | _ => exact ⟨n, hn⟩

theorem closing_apply (hc : c.closing = false) (he : e ≠ .close) : (c.apply e).closing = false := by
  rw [apply]
  cases hs : c.step e with
  | none => exact hc
  | some c' => exact (closing_eq (.of_step hs) he).trans hc

/-- **Of all who close a client exactly the first succeeds.** -/
theorem closeResults_eq (es : List Event) (hc : c.closing = false) :
    c.closeResults es = [] ∨ ∃ n, c.closeResults es = .ok () :: .replicate n (.error .shutdown) := by
  induction es generalizing c with
  | nil => exact .inl rfl
  | cons e es ih =>
    by_cases he : e = .close
    · subst he
      obtain ⟨n, hn⟩ := closeResults_of_closing (c := c.apply .close) es rfl
      exact .inr ⟨n, by rw [closeResults, hn, told, closeResult, if_neg (by simp [hc])]; rfl⟩
    · have htold : c.told e = [] := by
        cases e with
        | close => exact absurd rfl he
        | _ => rfl
      rw [closeResults, htold, List.nil_append]
      exact ih (closing_apply hc he)

/-! ### Every run -/

/-- **Shutdown leaves nothing pending.** Whatever happened to a client:

* once it is shut down, it is so for good, and no call is pending again;
* the event that shuts it down fails every call that is pending then;
* a call whose turn comes when the client is closed or shut down fails; it has no number,
  nothing else about the client changes, and the call stays as it is, so that no frame
  of it is ever handed over;
* a client that takes no more calls never takes one again;
* of all who close it exactly the first succeeds. -/
theorem shutdown_leaves_nothing_pending (o : Options) (es : List Event) :
    ((run o es).shutdown = true →
      ∀ es', (run o (es ++ es')).shutdown = true ∧ (run o (es ++ es')).pending = []) ∧
    (∀ e, (run o es).shutdown = false → (run o (es ++ [e])).shutdown = true →
      ∀ p ∈ (run o es).pending, ∀ es', .abandon p.2 ∉ es' →
        (run o (es ++ e :: es')).outcome? p.2 = some (.error .shutdown)) ∧
    ((run o es).closing = true ∨ (run o es).shutdown = true →
      ∀ id x body, (run o es).call? id = some x → x.phase = .waiting body →
        (run o es).isSending = false →
        x.seq = 0 ∧ run o (es ++ [.register id]) = (run o es).update id turnedAway ∧
          ∀ es', .abandon id ∉ es' →
            (run o (es ++ .register id :: es')).call? id = some (turnedAway x)) ∧
    ((run o es).isAvailable = false → ∀ es', (run o (es ++ es')).isAvailable = false) ∧
    ((start o).closeResults es = [] ∨
      ∃ n, (start o).closeResults es = .ok () :: .replicate n (.error .shutdown)) := by
  have hord : Ordered (run o es) := ordered_run o es
  refine ⟨fun hs es' => ?_, fun e hs hs' p hp es' hes => ?_, fun hc id x body hx hp hs => ?_,
    fun ha es' => ?_, closeResults_eq es rfl⟩
  · have hshut : (run o (es ++ es')).shutdown = true := by
      rw [run_append]
      exact shutdown_foldl es' hs
    exact ⟨hshut, (ordered_run o _).shut hshut⟩
  · rw [run_append] at hs' ⊢
    rw [List.foldl_cons]
    change ((run o es).apply e).shutdown = true at hs'
    have hord' : Ordered ((run o es).apply e) := hord.foldl [e]
    cases hstep : (run o es).step e with
    | none =>
      rw [apply, hstep, Option.getD_none, hs] at hs'
      cases hs'
    | some c' =>
      have happly : (run o es).apply e = c' := by rw [apply, hstep, Option.getD_some]
      rw [happly] at hs' hord' ⊢
      obtain ⟨x, hx, ho⟩ := hord.call?_of_shutdown (.of_step hstep) hs hs' hp
      rw [hord'.outcome?_foldl hs' hx (by simp [ho]) hes, ho]
  · simp only [run_append, List.foldl_cons, List.foldl_nil]
    exact hord.fails_for_good hc hx hp hs
  · rw [run_append]
    exact isAvailable_foldl es' ha

/-- One call is pending and another waits when a client is closed. It is shut down, and
then the other call has its turn and the client is closed again. -/
theorem shutdown_leaves_nothing_pending_len :
    let es : List Event := [.begin 1 "Foo.Len" (.text "ab"), .register 1, .begin 2 "Foo.Len" (.text "c"),
      .post 1, .close]
    (run .default (es ++ [.stop, .register 2])).pending = [] ∧
      (run .default (es ++ [.stop, .register 2])).outcome? 1 = some (.error .shutdown) ∧
      (run .default (es ++ [.register 2, .stop])).outcome? 2 = some (.error .shutdown) ∧
      (run .default (es ++ [.stop])).isAvailable = false ∧
      (start .default).closeResults (es ++ [.close]) = [.ok (), .error .shutdown] := by
  intro es
  obtain ⟨-, hfail, hturn, haway, -⟩ := shutdown_leaves_nothing_pending .default es
  obtain ⟨hempty, -⟩ := shutdown_leaves_nothing_pending .default (es ++ [.stop])
  obtain ⟨-, -, -, -, hclose⟩ := shutdown_leaves_nothing_pending .default (es ++ [.close])
  have hcall : (run .default es).call? 2 = some ⟨2, "Foo.Len", 0, .waiting [161, 99], none⟩ := rfl
  obtain ⟨-, -, hstays⟩ := hturn (.inl rfl) 2 _ _ hcall rfl (by decide +kernel)
  have htwice : ((start .default).closeResults (es ++ [.close])).length = 2 := by decide +kernel
  refine ⟨?_, ?_, ?_, ?_, ?_⟩
  · exact (hempty (by decide +kernel) [.register 2]).2
  · exact hfail .stop (by decide +kernel) (by decide +kernel) (1, 1) (by decide +kernel) [.register 2] nofun
  · rw [outcome?, hstays [.stop] nofun]
    rfl
  · exact haway (by decide +kernel) [.stop]
  · rcases hclose with hclose | ⟨n, hclose⟩
    · rw [hclose] at htwice
      cases htwice
    · rw [hclose, List.length_cons, List.length_replicate] at htwice
      rw [hclose, Nat.succ.inj htwice]
      rfl

end Client
end Callwire
