/-
# What comes of a broadcast

A broadcast calls every address of a list, each as often as it stands there. Its calls get
their outcomes in some order, whatever dials and servers do, and its caller may cancel it at
any time. What the caller is told depends on these outcomes and their order alone: the
first fault, or success if there is none; and the first reply is put into the caller's slot,
once. After the first fault no call is sent any more. Those that were sent before are
answered by their clients, or given up if the caller cancels, and the broadcast waits for
all of them.

Key definitions: `Fleet.completions`, `Fleet.Ends`.
Key theorems: `Fleet.tally_foldl`, `Fleet.stopped_foldl`, `Fleet.ends_foldl`,
`Fleet.broadcast_outcome`.
-/
import Callwire.Proofs.Fleet.Pool

namespace Callwire
namespace Fleet

variable {σ : Type} {f f' : Fleet σ} {e : Event} {es : List Event} {i k g first : Nat}
  {addresses : List String} {r : Except Fault Datum}

/-- The outcomes that calls get in a run, in the order in which they get them. -/
def completions (f : Fleet σ) : List Event → List (Nat × Except Fault Datum)
  | [] => []
  | e :: es => Balancer.ended f.balancer (f.apply e).balancer ++ completions (f.apply e) es

/-- A call that is on its way ends with this: with what its client tells, or because its
caller has cancelled it. -/
def Ends (f : Fleet σ) (i k : Nat) (r : Except Fault Datum) : Prop :=
  f.balancer.phase? i = some (.calling k) ∧
    ((∃ w order out, f.network.wires[k]? = some w ∧ f.orders[i]? = some order ∧
        w.client.outcome? i = some out ∧
        r = Client.readReply w.client.options.codec order.reply out) ∨
      ∃ x, f.balancer.errands[i]? = some x ∧ f.balancer.isCancelled x = true ∧
        r = .error (.cancelled .call))

theorem completions_concat (f : Fleet σ) (es : List Event) (e : Event) :
    completions f (es ++ [e]) =
      completions f es ++
        Balancer.ended (es.foldl apply f).balancer ((es.foldl apply f).apply e).balancer := by
  induction es generalizing f with
  | nil => exact List.append_nil _
  | cons e' es ih => rw [List.cons_append, completions, ih, completions, List.append_assoc, List.foldl_cons]

/-- **What a broadcast has on record is what its calls told, in the order in which they
told it.** -/
theorem tally_foldl (hf : Joined f) (es : List Event)
    (ht : f.balancer.Tally g first addresses []) :
    (es.foldl apply f).balancer.Tally g first addresses
      ((completions f es).filter fun p => p.1 ∈ List.range' first addresses.length) := by
  induction es using List.reverseRecOn with
  | nil => exact ht
  | append_singleton es e ih =>
    rw [completions_concat, List.filter_append, List.foldl_concat]
    rcases (hf.foldl es).balancer_apply e with hsame | ⟨e', hb⟩
    · rw [hsame, Balancer.ended_self, List.filter_nil, List.append_nil]
      exact ih
    · exact ih.step hb

/-- Only its caller cancels a broadcast. -/
theorem cancelled_foldl (hf : Joined f) (es : List Event) {w : Broadcast}
    (hw : f.balancer.broadcasts[g]? = some w) :
    ∃ w', (es.foldl apply f).balancer.broadcasts[g]? = some w' ∧
      (w'.cancelled = true → w.cancelled = true ∨ .withdraw g ∈ es) := by
  let fair (f : Fleet σ) : Prop := Joined f ∧ ∃ w', f.balancer.broadcasts[g]? = some w' ∧
    (w'.cancelled = true → w.cancelled = true ∨ .withdraw g ∈ es)
  suffices h : fair (es.foldl apply f) from h.2
  refine foldl_keeps ?_ ⟨hf, w, hw, .inl⟩
  rintro f e f' he hs ⟨hf, v, hv, hfrom⟩
  refine ⟨hf.step hs, ?_⟩
  rcases hs.balancer hf.sane with hsame | ⟨e', hb, -, hmeans⟩
  · exact ⟨v, hsame ▸ hv, hfrom⟩
  · obtain ⟨v', hv', -, hcancelled⟩ := hb.exists_record hv
    refine ⟨v', hv', fun htrue => ?_⟩
    rcases hcancelled htrue with hc | hg
    · exact hfrom hc
    · exact .inr (hmeans g hg ▸ he)

/-- **A call that was not sent when its broadcast stopped is never sent**, and no client
ever has it. -/
theorem stopped_foldl (hf : Joined f) (es : List Event) (hs : f.balancer.IsStopped i)
    (hn : ∀ k, f.balancer.phase? i ≠ some (.calling k)) :
    (∀ k, (es.foldl apply f).balancer.phase? i ≠ some (.calling k)) ∧
      ∀ (k : Nat) (w : Wire), (es.foldl apply f).network.wires[k]? = some w →
        w.client.call? i = none ∧ ∀ p ∈ w.client.pending, p.2 ≠ i := by
  have hunsent : ∀ k, (es.foldl apply f).balancer.phase? i ≠ some (.calling k) :=
    (hf.balancer_foldl (P := fun b => b.IsStopped i ∧ ∀ k, b.phase? i ≠ some (.calling k))
      (fun _ _ _ hb h => ⟨h.1.step hb, h.1.not_calling hb h.2⟩) ⟨hs, hn⟩ es).2
  have hlast := hf.foldl es
  refine ⟨hunsent, fun k w hw => ?_⟩
  have hno : i ∉ w.client.calls.map (·.id) := fun hi => hunsent k (hlast.named k i ⟨w, hw, hi⟩)
  refine ⟨Client.call?_eq_none_iff.mpr hno, fun p hp hpi => ?_⟩
  obtain ⟨x, hx, hid, -⟩ := (hlast.sane k w hw).ordered.pending p hp
  exact hno (List.mem_map.mpr ⟨x, hx, hid.trans hpi⟩)

/-- A call of a broadcast that is on its way is with its client. -/
theorem Joined.hasCall_of_calling (hf : Joined f) {told : List (Nat × Except Fault Datum)}
    (ht : f.balancer.Tally g first addresses told) (hi : i ∈ List.range' first addresses.length)
    (hk : f.balancer.phase? i = some (.calling k)) : f.network.HasCall k i := by
  obtain ⟨x, hx, hg⟩ := ht.isPart hi
  obtain ⟨y, hy, hp⟩ := Balancer.phase?_eq_some_iff.mp hk
  cases hx.symm.trans hy
  exact hf.asked i x k hx hp (by rw [hg]; exact Option.some_ne_none g)

theorem Step.ends (h : Step f e f') (hi : f.balancer.phase? i = some (.calling k)) :
    f'.balancer.phase? i = some (.calling k) ∨ ∃ r, f'.balancer.outcome? i = some r ∧ f.Ends i k r := by
  cases h with
  | world _ => exact .inl hi
  | call hb | broadcast hb | connect _ _ hb =>
    refine (hb.calling hi).imp_right ?_
    rintro ⟨r, he, -⟩
    cases he
  | plain he hb =>
    refine (hb.calling hi).imp_right ?_
    rintro ⟨r, rfl, -⟩
    cases he
  | ask he hb =>
    refine (hb.calling hi).imp_right ?_
    rintro ⟨r, rfl, hr⟩
    refine ⟨r, hr, hi, ?_⟩
    cases he with
    | take hp hw ho hout =>
      cases hi.symm.trans hp
      exact .inl ⟨_, _, _, hw, ho, hout, rfl⟩
    | giveUp hx _ hc => exact .inr ⟨_, hx, hc, rfl⟩

/-- **A call that is on its way runs to its end**, or it is still on its way. -/
theorem ends_foldl (hf : Joined f) (es : List Event) (hi : f.balancer.phase? i = some (.calling k)) :
    (es.foldl apply f).balancer.phase? i = some (.calling k) ∨
      ∃ (l : List Event) (e : Event) (l' : List Event) (r : Except Fault Datum),
        es = l ++ e :: l' ∧ (l.foldl apply f).Ends i k r ∧
          (es.foldl apply f).balancer.outcome? i = some r := by
  induction es using List.reverseRecOn with
  | nil => exact .inl hi
  | append_singleton es e ih =>
    rw [List.foldl_concat]
    have hes := hf.foldl es
    rcases ih with hcalling | ⟨l, e₀, l', r, hl, hends, hr⟩
    · rcases apply_cases (es.foldl apply f) e with hsame | hs
      · exact .inl (hsame.symm ▸ hcalling)
      · rcases hs.ends hcalling with hstill | ⟨r, hr, hends⟩
        · exact .inl hstill
        · exact .inr ⟨es, e, [], r, rfl, hends, hr⟩
    · refine .inr ⟨l, e₀, l' ++ [e], r, by rw [hl, List.append_assoc, List.cons_append], hends, ?_⟩
      rcases hes.balancer_apply e with hsame | ⟨e', hb⟩
      · exact hsame.symm ▸ hr
      · exact hb.outcome?_eq hr

theorem orders_foldl (es : List Event) {order : Order} (ho : f.orders[i]? = some order) :
    (es.foldl apply f).orders[i]? = some order := by
  refine foldl_keeps (P := fun g => g.orders[i]? = some order) ?_ ho
  intro g e g' _ h ho
  have hlt := (List.getElem?_eq_some_iff.mp ho).1
  cases h with
  | call _ | broadcast _ => exact (List.getElem?_append_left hlt).trans ho
  | _ => exact ho

/-- **A broadcast is told by what its calls told, and by the order in which they did.** A
fleet that did anything before begins a broadcast, and then anything happens:

* there is a call for each address of the list, in this order, and each of its outcomes is
  told once, when it comes;
* the broadcast succeeds exactly when all its calls did. It fails exactly when all its calls
  have an outcome, with the fault that was told before any other;
* if this says that the broadcast goes no further, its caller has cancelled it;
* what was put into the caller's slot is the first reply that was told, and nothing else;
* once a fault was told, a call that is not on its way never is: no client has a call of this
  number, then or later, and none is pending under it;
* a call that is on its way is with its client. It stays there until it ends with what the
  client tells of it, or with the word of the caller that it is cancelled, and before that
  the broadcast has no outcome. -/
theorem broadcast_outcome (o : Options) (n : Network σ) (before : List Event)
    (addresses : List String) (order : Order) (cancelled : Bool) (after : List Event) :
    let f := run o n before
    let g := f.balancer.broadcasts.length
    let first := f.balancer.errands.length
    let parts := List.range' first addresses.length
    let begun := f.apply (.broadcast addresses order cancelled)
    let now := after.foldl apply begun
    let told := (completions begun after).filter fun p => p.1 ∈ parts
    let outcomes := told.map (·.2)
    (∀ (j : Nat) (a : String), addresses[j]? = some a →
      now.orders[first + j]? = some order ∧
      ∃ x, now.balancer.errands[first + j]? = some x ∧ x.address = a ∧ x.broadcast = some g) ∧
    (told.map (·.1)).Nodup ∧
    (∀ i r, (i, r) ∈ told ↔ i ∈ parts ∧ now.balancer.outcome? i = some r) ∧
    (now.balancer.broadcastOutcome? g = some (.ok ()) ↔
      ∀ i ∈ parts, ∃ d, now.balancer.outcome? i = some (.ok d)) ∧
    (∀ why, now.balancer.broadcastOutcome? g = some (.error why) ↔
      (∀ i ∈ parts, (now.balancer.outcome? i).isSome = true) ∧
        ∃ l l', outcomes = l ++ .error why :: l' ∧ ∀ r ∈ l, ∃ d, r = .ok d) ∧
    (now.balancer.broadcastOutcome? g = some (.error (.cancelled .broadcast)) →
      cancelled = true ∨ .withdraw g ∈ after) ∧
    (∃ w, now.balancer.broadcasts[g]? = some w ∧
      w.written = (outcomes.filterMap (·.toOption)).take 1) ∧
    (∀ early late, after = early ++ late →
      let mid := early.foldl apply begun
      ∀ i ∈ parts,
        ((∃ j why, (j, .error why) ∈ completions begun early ∧ j ∈ parts) →
          (∀ k, mid.balancer.phase? i ≠ some (.calling k)) →
          ∀ (k : Nat) (w : Wire), now.network.wires[k]? = some w →
            w.client.call? i = none ∧ ∀ p ∈ w.client.pending, p.2 ≠ i) ∧
        ∀ k, mid.balancer.phase? i = some (.calling k) →
          mid.network.HasCall k i ∧
          ((now.balancer.phase? i = some (.calling k) ∧ now.balancer.broadcastOutcome? g = none) ∨
            ∃ (l : List Event) (e : Event) (l' : List Event) (r : Except Fault Datum),
              late = l ++ e :: l' ∧ (l.foldl apply mid).Ends i k r ∧
                now.balancer.outcome? i = some r)) := by
  intro f g first parts begun now told outcomes
  have hf : Joined f := joined_run o n before
  have hstep : f.step (.broadcast addresses order cancelled) = some begun := rfl
  have hbegun : Joined begun := hf.step (.of_step hstep)
  have hstart : begun.balancer.Tally g first addresses [] :=
    Balancer.tally_nil hf.numbered (c := cancelled) (.of_step rfl)
  have htally : now.balancer.Tally g first addresses told := tally_foldl hbegun after hstart
  refine ⟨fun j a ha => ⟨orders_foldl after ?_, htally.parts j a ha⟩, htally.nodup, htally.mem,
    htally.succeeds_iff, fun why => ?_, fun hfail => ?_, ?_, ?_⟩
  · have hlt : j < addresses.length := (List.getElem?_eq_some_iff.mp ha).1
    show (f.orders ++ List.replicate addresses.length order)[first + j]? = some order
    rw [List.getElem?_append_right (by rw [hf.orders]; exact Nat.le_add_right _ _), hf.orders,
      Nat.add_sub_cancel_left, List.getElem?_replicate, if_pos hlt]
  · rw [htally.broadcastOutcome?_eq_some_iff, htally.told_iff, eq_comm (a := Except.error why),
      verdict_eq_error_iff]
  · obtain ⟨w, hw, hc⟩ := htally.cancelled (hbegun.foldl after).truthful hfail
    have hrecord : begun.balancer.broadcasts[g]? = some { cancelled := cancelled } :=
      List.getElem?_concat_length
    obtain ⟨w', hw', hfrom⟩ := cancelled_foldl hbegun after hrecord
    cases hw.symm.trans hw'
    exact hfrom hc
  · obtain ⟨w, hw, htells⟩ := htally.record
    exact ⟨w, hw, htells.written⟩
  · intro early late hsplit mid i hi
    have hmid : Joined mid := hbegun.foldl early
    have hnow : now = late.foldl apply mid := by rw [← List.foldl_append, ← hsplit]
    have hthen := tally_foldl hbegun early hstart
    refine ⟨?_, fun k hk => ⟨?_, ?_⟩⟩
    · rintro ⟨j, why, hm, hj⟩ hn
      rw [hnow]
      have htold : (j, .error why) ∈ (completions begun early).filter fun p => p.1 ∈ parts :=
        List.mem_filter.mpr ⟨hm, by simpa using hj⟩
      exact (stopped_foldl hmid late (hthen.isStopped htold hi) hn).2
    · exact hmid.hasCall_of_calling hthen hi hk
    · rw [hnow]
      refine (ends_foldl hmid late hk).imp_left fun hstill => ⟨hstill, ?_⟩
      rw [← hnow] at hstill ⊢
      exact htally.broadcastOutcome?_eq_none hi hstill

end Fleet

namespace Sample

/-- A place is called twice, and another once where nobody listens. -/
def threePlaces : List String := ["tcp@a", "tcp@a", "tcp@c"]

/-- The first call is sent, and then nobody is found at the other place. -/
def firstSent : List Fleet.Event :=
  [.forward 0, .forward 0, .connect 0, .forward 0, .network (.client 0 (.register 0)), .forward 2,
    .forward 2, .forward 2]

/-- What a server says to the first request of a client: three. -/
def three : Bytes := ((Frame.ofHeader .messagePack ⟨"", 1, ""⟩ [3]).toOption.map Frame.toBytes).getD []

/-- The number that a reply is. -/
def number? : Datum → Option Int
  | .int n => some n
  | _ => none

theorem eq_of_number? {d : Datum} {n : Int} (h : number? d = some n) : d = .int n := by
  cases d <;> simp_all [number?]

/-- The second call goes no further, and then the first is answered. -/
def thenAnswered : List Fleet.Event :=
  [.forward 1, .peer 0 (.receive three), .network (.client 0 .read), .forward 0]

end Sample

namespace Fleet

/-- The call that was on its way has its reply put into the slot, though the broadcast fails
with the fault that came first; the call that was not has never been with a client. -/
theorem broadcast_outcome_late :
    let begun := (run .default Sample.quietPlaces []).apply
      (.broadcast Sample.threePlaces Sample.sumOrder false)
    let mid := Sample.firstSent.foldl apply begun
    let events := Sample.firstSent ++ Sample.thenAnswered
    let now := events.foldl apply begun
    (completions begun events).map (·.1) = [2, 1, 0] ∧
    now.balancer.broadcastOutcome? 0 = some (.error (.stream .refused)) ∧
    (∃ w, now.balancer.broadcasts[0]? = some w ∧ w.written = [.int 3]) ∧
    mid.network.HasCall 0 0 ∧
    ∀ (k : Nat) (w : Wire), now.network.wires[k]? = some w →
      w.client.call? 1 = none ∧ ∀ p ∈ w.client.pending, p.2 ≠ 1 := by
  intro begun mid events now
  obtain ⟨-, -, hmem, -⟩ := broadcast_outcome .default Sample.quietPlaces [] Sample.threePlaces
    Sample.sumOrder false Sample.firstSent
  obtain ⟨-, -, -, -, -, -, -, hparts⟩ := broadcast_outcome .default Sample.quietPlaces []
    Sample.threePlaces Sample.sumOrder false events
  have horder : (completions begun events).map (·.1) = [2, 1, 0] := by decide +kernel
  have houtcome : now.balancer.broadcastOutcome? 0 = some (.error (.stream .refused)) := by decide +kernel
  have hslot : now.balancer.broadcasts[0]?.map (·.written.map Sample.number?) = some [some 3] := by
    decide +kernel
  have hrefused : (mid.balancer.outcome? 2).bind fault? = some (.stream .refused) := by decide +kernel
  have hunsent : (mid.balancer.phase? 1).map (·.rank) = some 0 := by decide +kernel
  have hsent : (mid.balancer.phase? 0).map (fun p => (p.rank, p.client?)) = some (5, some 0) := by
    decide +kernel
  have hcalling : mid.balancer.phase? 0 = some (.calling 0) := by
    obtain ⟨p, hp, hrank⟩ := Option.map_eq_some_iff.mp hsent
    rw [hp, Errand.Phase.eq_calling (Prod.mk.inj hrank).1 (Prod.mk.inj hrank).2]
  have hwaiting : ∀ k, mid.balancer.phase? 1 ≠ some (.calling k) := by
    intro k hk
    rw [hk] at hunsent
    cases hunsent
  have htold : (2, .error (.stream .refused)) ∈ completions begun Sample.firstSent := by
    obtain ⟨r, hr, hwhy⟩ := Option.bind_eq_some_iff.mp hrefused
    rw [fault?_eq_some_iff] at hwhy
    exact (List.mem_filter.mp ((hmem 2 _).mpr ⟨by decide, hwhy ▸ hr⟩)).1
  obtain ⟨w, hw, hthree⟩ := Option.map_eq_some_iff.mp hslot
  have hwritten : w.written = [.int 3] := by
    obtain ⟨d, hd, hnumber⟩ := List.map_eq_singleton_iff.mp hthree
    rw [hd, Sample.eq_of_number? hnumber]
  have hfirst := (hparts Sample.firstSent Sample.thenAnswered rfl 0 (by decide)).2 0 hcalling
  have hsecond := (hparts Sample.firstSent Sample.thenAnswered rfl 1 (by decide)).1
    ⟨2, .stream .refused, htold, by decide⟩ hwaiting
  -- both sides are to be spelled out, so that they need not be evaluated
  subst now mid begun
  exact ⟨horder, houtcome, ⟨w, hw, hwritten⟩, hfirst.1, hsecond⟩

end Fleet
end Callwire
