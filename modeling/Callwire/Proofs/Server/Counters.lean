/-
# How often a method was called

A request is counted when it is taken, before it waits for a permit, and at no other time:
not when its handler starts, acts, fails, crashes or is too late, nor when its answer
cannot be framed. So at all times a method's counter shows how many of the requests that
were taken so far, on all connections together, are calls of it. The counter is a word of
64 bits.

Key definitions: `Connection.request?`.
Key theorems: `Registry.tally?_dispatch`, `Connection.tally?_step`, `Connection.asked_watch`,
`Connection.Accounts.assigned`, `Server.tally?_chronicle`, `Server.calls_counted`.
-/
import Callwire.Proofs.Counters
import Callwire.Proofs.Server.Totals

namespace Callwire

variable {σ : Type}

/-! ### What an event counts -/

namespace Registry

/-- **A frame that is taken is counted where it is a call, and nowhere else.** -/
theorem tally?_dispatch (r : Registry σ) (terms : Terms) (f : Frame) (service method : String) :
    (Connection.dispatch terms r f).2.tally? service method =
      (r.tally? service method).map fun n =>
        n + if r.calls service method (terms.codec, f) then 1 else 0 := by
  have hkeep : (Connection.dispatch terms r f).2 = r → r.calls service method (terms.codec, f) = false →
      (Connection.dispatch terms r f).2.tally? service method = (r.tally? service method).map fun n =>
        n + if r.calls service method (terms.codec, f) then 1 else 0 := by
    intro hr hc
    simp [hr, hc]
  cases hh : f.readHeader terms.codec with
  | error why => exact hkeep (by simp only [Connection.dispatch, hh]) (by simp only [calls, hh])
  | ok h =>
    cases hi : r.invoke terms.codec h.target f.body with
    | error why =>
      have ha : r.assign terms.codec h.target f.body = .error why := by
        rw [assign, hi]
        rfl
      refine hkeep ?_ (calls_of_assign_error hh ha)
      cases hf : Answer.failure? terms.codec h why <;> simp only [Connection.dispatch, hh, hi, hf]
    | ok p =>
      obtain ⟨i, r'⟩ := p
      have ha : r.assign terms.codec h.target f.body = .ok i := by
        rw [assign, hi]
        rfl
      obtain ⟨s, e, hf, hcalls⟩ := calls_of_assign_ok (q := (terms.codec, f)) hh ha
      have hr : r' = r.update s.name (·.count e.name) := by
        rw [invoke, hf] at hi
        simp only at hi
        split at hi
        · cases hi
        · cases hi
          rfl
      have hiff : (s.name = service ∧ e.name = method) ↔
          r.calls service method (terms.codec, f) = true := by
        rw [hcalls, eq_comm, @eq_comm _ e.name]
      simp only [Connection.dispatch, hh, hi, hr, tally?_count, hiff]

end Registry

namespace Connection

variable {now : Nat} {r r' reg : Registry σ} {c c' : Connection σ} {e : Event} {k : Server.Config}
  {o : Option (Journal σ)} {terms : Terms} {service method : String}

/-- The request that an event takes: the next frame, if its header can be read. -/
def request? (c : Connection σ) : Event → Option (Codec × Frame)
  | .read =>
    match c.stage, c.buffer.next with
    | .serving terms .reading, (.ok (some f), _) =>
      if (f.readHeader terms.codec).isOk then some (terms.codec, f) else none
    | _, _ => none
  | _ => none

/-- **An event counts the request that it takes, where it is a call, and nothing else.** -/
theorem tally?_step (h : Step now r c e c' r') (service method : String) :
    r'.tally? service method = (r.tally? service method).map fun n =>
      n + .ofNat ((c.request? e).toList.countP (r.calls service method)) := by
  have hkeep : ∀ {e : Event} {r' : Registry σ}, c.request? e = none →
      r'.tally? service method = r.tally? service method →
      r'.tally? service method = (r.tally? service method).map fun n =>
        n + .ofNat ((c.request? e).toList.countP (r.calls service method)) := by
    intro e r' hnone hr
    simp [hnone, hr]
  cases h with
  | receive _ | hangUp | lose | write _ _ _ | release _ _ _ _ | refuse _ _ | drop _ _ | start _ _ _
    | expire _ _ _ | post _ _ | discard _ _ => exact hkeep rfl rfl
  | head hst _ | options hst _ => exact hkeep (by simp only [request?, hst]) rfl
  | stop hst hn =>
    refine hkeep ?_ rfl
    rcases hn with ⟨why, hn⟩ | ⟨hn, -⟩ <;> simp only [request?, hst, hn]
  | finish _ _ _ | retire _ => exact hkeep rfl (Registry.tally?_act _ _ _ _)
  | @frame terms f b hst hn =>
    rw [Registry.tally?_dispatch]
    cases hh : f.readHeader terms.codec with
    | error why =>
      have hnone : c.request? .read = none := by simp [request?, hst, hn, hh, Except.isOk, Except.toBool]
      have hc : r.calls service method (terms.codec, f) = false := by simp only [Registry.calls, hh]
      simp [hnone, hc]
    | ok h =>
      have hsome : c.request? .read = some (terms.codec, f) := by
        simp [request?, hst, hn, hh, Except.isOk, Except.toBool]
      rw [hsome, Option.toList_some, List.countP_singleton]
      cases r.calls service method (terms.codec, f) <;> rfl

theorem request?_cases (c : Connection σ) (e : Event) :
    c.request? e = none ∨
      ∃ terms f, c.terms? = some terms ∧ c.request? e = some (terms.codec, f) := by
  cases e with
  | read =>
    simp only [request?]
    split
    · rename_i terms f b hst hn
      split
      · exact .inr ⟨terms, f, by simp only [terms?, hst], rfl⟩
      · exact .inl rfl
    · exact .inl rfl
  | _ => exact .inl rfl

theorem requests_note {j : Journal σ} (h : Step now r c e c' r') :
    Journal.requests (j.note r c e c').exchanges =
      Journal.requests j.exchanges ++ (c.request? e).toList.map (·.2) := by
  have hkeep : ∀ {e : Event} {c' : Connection σ}, c.request? e = none →
      Journal.requests (j.note r c e c').exchanges = Journal.requests j.exchanges →
      Journal.requests (j.note r c e c').exchanges =
        Journal.requests j.exchanges ++ (c.request? e).toList.map (·.2) := by
    intro e c' hnone hj
    rw [hnone, hj]
    simp
  cases h with
  | receive _ | hangUp | lose | write _ _ _ | release _ _ _ _ | retire _ => exact hkeep rfl rfl
  | head hst _ | options hst _ =>
    exact hkeep (by simp only [request?, hst]) (by simp only [Journal.note, hst])
  | @frame terms f b hst hn =>
    simp only [Journal.note, request?, hst, hn]
    cases hh : f.readHeader terms.codec with
    | error why => simp [Except.isOk, Except.toBool]
    | ok h =>
      have hreq : ∀ d : Connection σ, (Exchange.begin terms r d f h).request = f := by
        intro d
        unfold Exchange.begin
        split <;> rfl
      simp [Journal.requests, hreq, Except.isOk, Except.toBool]
  | stop hst hn =>
    rcases hn with ⟨why, hn⟩ | ⟨hn, -⟩ <;>
      exact hkeep (by simp only [request?, hst, hn]) (by simp only [Journal.note, hst, hn])
  | refuse hst _ | drop hst _ =>
    exact hkeep rfl (by simp only [Journal.note, hst, exchanges_handOver])
  | start _ _ _ => exact hkeep rfl Journal.requests_enter
  | finish _ hc _ => exact hkeep rfl (by simp only [Journal.note, hc, Journal.requests_settle])
  | expire hst _ _ => exact hkeep rfl (by rw [note_expire hst]; exact Journal.requests_settle _ _)
  | post ha _ | discard ha _ =>
    exact hkeep rfl (by simp only [Journal.note, ha, exchanges_handOver])

/-- **What was asked grows by the request that an event takes.** -/
theorem asked_watch (h : c.step now r e = some (c', r')) (hk : Known reg k c o) :
    c'.asked (Journal.watch r c e c' o) = c.asked o ++ (c.request? e).toList := by
  cases o with
  | none =>
    have ht : c.Tunnelling k := hk
    have hterms : c.terms? = none := by
      rcases ht.stage with ⟨hd, hst⟩ | hst <;> simp only [terms?, hst]
    have hnone : c.request? e = none := by
      obtain hnone | ⟨terms, f, hs, -⟩ := request?_cases c e
      · exact hnone
      · rw [hterms] at hs
        cases hs
    have hasked : c.asked none = [] := by
      unfold asked
      split <;> trivial
    rw [hnone, hasked]
    unfold asked
    simp only [Journal.watch]
    split
    · rename_i hj
      split at hj
      · cases hj
        rfl
      · cases hj
    · rfl
  | some j =>
    have hkept : Kept reg k c j := hk
    have hreqs := requests_note (j := j) (.of_step h)
    cases hs : c.terms? with
    | none =>
      have hnone : c.request? e = none := by
        obtain hnone | ⟨terms, f, hs', -⟩ := request?_cases c e
        · exact hnone
        · rw [hs] at hs'
          cases hs'
      rw [(hkept.unserved hs).exchanges, hnone] at hreqs
      have hasked : c.asked (some j) = [] := by simp only [asked, hs]
      rw [hasked, hnone]
      simp only [Journal.watch, asked]
      split
      · rename_i terms j' hs' hj
        cases hj
        rw [hreqs]
        rfl
      · rfl
    | some terms =>
      have hs' := terms?_step (.of_step h) hs
      simp only [Journal.watch, asked, hs, hs', hreqs, List.map_append, List.map_map]
      obtain hnone | ⟨terms', f, ht, hsome⟩ := request?_cases c e
      · rw [hnone]
        rfl
      · obtain rfl : terms = terms' := Option.some.inj (hs.symm.trans ht)
        rw [hsome]
        rfl

/-- A request is refused exactly if it asks for nothing that there is. -/
theorem Accounts.assigned {xs : List (Exchange σ)} (ha : Accounts reg terms c xs) {x : Exchange σ}
    (hx : x ∈ xs) :
    (∃ why, x.verdict = some (.refused why) ∧
      reg.assign terms.codec x.header.target x.request.body = .error why) ∨
    ((∀ why, x.verdict ≠ some (.refused why)) ∧
      ∃ i, reg.assign terms.codec x.header.target x.request.body = .ok i) := by
  have hopen : ∀ ys, Open c.running ys → x ∈ ys → x.verdict = none →
      ∃ i, reg.assign terms.codec x.header.target x.request.body = .ok i := by
    intro ys ho hy hv
    obtain ⟨call, hcall, ht⟩ := ho x hy hv
    obtain ⟨y, hyx, hyt, -, -, hjob⟩ := ha.running call hcall
    obtain rfl := Journal.eq_of_ticket ha.nodup hx hyx ht hyt
    exact ⟨call.job, ha.job x hx _ hjob⟩
  have hdecided := ha.decided x hx
  unfold Exchange.Decided at hdecided
  cases hv : x.verdict with
  | some v =>
    rw [hv] at hdecided
    obtain ⟨-, hgrounds⟩ := hdecided
    cases v with
    | refused why => exact .inl ⟨why, rfl, hgrounds⟩
    | returned o =>
      obtain ⟨i, st, hi, -⟩ := hgrounds
      exact .inr ⟨nofun, i, hi⟩
    | late budget => exact .inr ⟨nofun, hgrounds.2⟩
  | none =>
    have hw := ha.waiting
    unfold Waiting at hw
    split at hw
    · obtain ⟨y, rest, rfl, -, -, -, hjob, ho⟩ := hw
      rcases List.mem_cons.mp hx with rfl | hrest
      · exact .inr ⟨nofun, _, ha.job x hx _ hjob⟩
      · exact .inr ⟨nofun, hopen rest ho hrest hv⟩
    · exact .inr ⟨nofun, hopen xs hw hx hv⟩

end Connection

/-! ### In every run -/

namespace Server

theorem registry_ofServices (k : Config) (offers : List (Offer σ)) :
    (ofServices k (offers.map Offer.service)).registry = Registry.run (offers.map .offer) := by
  rw [ofServices, Registry.run, List.foldl_map, List.foldl_map]
  rfl

variable {k : Config} {reg : Registry σ} {as : List Act} {service method : String}

/-- **At all times a counter shows what it showed at first and how many of the requests that
were taken are calls of its method.** -/
theorem tally?_chronicle (k : Config) (reg : Registry σ) (as : List Act) (service method : String) :
    let p := chronicle k reg as
    p.registry.tally? service method = (reg.tally? service method).map fun n =>
      n + .ofNat (p.asked.countP (reg.calls service method)) := by
  refine chronicle_induction (P := fun p =>
    p.registry.tally? service method = (reg.tally? service method).map fun n =>
      n + .ofNat (p.asked.countP (reg.calls service method))) ?_ ?_ as
  · simp [Chronicle.asked]
  intro as p' hm ih
  have hplan := plan_chronicle k reg as
  cases hm with
  | wait _ => exact ih
  | arrive tunnelled =>
    have hfresh : ∀ k : Config, (Connection.fresh (σ := σ) k.maxBody k.maxCalls k.capacity tunnelled).asked
        (if tunnelled = true then none else some {}) = [] := by
      intro k
      cases tunnelled <;> rfl
    simpa only [Chronicle.asked, List.flatMap_append, List.flatMap_cons, List.flatMap_nil,
      List.append_nil, hfresh] using ih
  | @change xs ys c c' o e r' he hc =>
    have hx : (c, o) ∈ (chronicle k reg as).entries := by
      rw [he]
      exact List.mem_append_right _ List.mem_cons_self
    have hasked := Connection.asked_watch hc (known_of_mem_chronicle hx)
    have hstep := Connection.tally?_step (.of_step hc) service method
    have hcalls : ∀ qs : List (Codec × Frame),
        qs.countP ((chronicle k reg as).registry.calls service method) =
          qs.countP (reg.calls service method) := fun qs =>
      List.countP_congr fun q _ => by rw [Registry.calls_congr hplan]
    simp only [Chronicle.asked, he, List.flatMap_append, List.flatMap_cons, List.countP_append] at ih
    simp only [Chronicle.asked, List.flatMap_append, List.flatMap_cons, List.countP_append, hasked]
    rw [hstep, ih, hcalls, Option.map_map]
    congr 1
    funext n
    simp only [Function.comp_apply, UInt64.ofNat_add]
    ac_rfl
  | collect n he =>
    have hsame : ∀ (c : Connection σ) o, (c.collect n).asked o = c.asked o := fun _ _ => rfl
    simpa only [Chronicle.asked, he, List.flatMap_append, List.flatMap_cons, hsame] using ih

theorem asked_prefix {c : Connection σ} {o : Option (Journal σ)}
    (hx : (c, o) ∈ (chronicle k reg as).entries) :
    c.asked o <+: (Connection.gistOf? o).elim [] k.requests := by
  have hk := known_of_mem_chronicle hx
  obtain ⟨hsound, -⟩ := faithful_of_mem_chronicle hx
  unfold Connection.asked
  split
  · rename_i terms j hs
    have hkept : Connection.Kept reg k c j := hk
    have hserved := hkept.served hs
    obtain ⟨asked, rest, hopens, rfl, -⟩ := hserved.heard
    have hreqs := hserved.requests_readable hopens
    simp only [Connection.gistOf?, Option.bind_some, Options.gist?,
      Options.opening?_eq_some_iff.mpr hopens, Option.map_some, Option.elim_some, Config.requests]
    rw [if_pos (hsound (by simp [hs]))]
    exact hreqs.map _
  · exact List.nil_prefix

/-- **Calls are counted.** A server has services, and whatever happens to it and to its
connections, with any streams, codecs, budgets and handlers, and in any order, at all times:

* the counter of a method shows how many of the requests that were taken so far, on all
  connections, are calls of it, in a word of 64 bits;
* an address has no counter exactly if it is not that of a method of a service;
* a request that is refused, because it names nothing or its argument cannot be read, is a
  call of no method; any other is a call of exactly one, whether it waits, runs, has any
  outcome, is too late or has no answer;
* the requests that were taken on a connection are the first of its stream. -/
theorem calls_counted (k : Config) (offers : List (Offer σ)) (as : List Act) :
    let start := ofServices k (offers.map Offer.service)
    let taken := Registry.taken (offers.map .offer)
    let p := chronicle k start.registry as
    p.server = as.foldl act start ∧
    (∀ o ∈ taken, ∀ m ∈ o.methods,
      p.registry.calls? (o.name ++ "." ++ m.1) =
        some (p.asked.countP (start.registry.calls o.name m.1) % 2 ^ 64)) ∧
    (∀ target, p.registry.calls? target = none ↔
      ¬ ∃ o ∈ taken, ∃ m ∈ o.methods, target = o.name ++ "." ++ m.1) ∧
    (∀ c j terms, (c, some j) ∈ p.entries → c.terms? = some terms → ∀ x ∈ j.exchanges,
      ((∃ why, x.verdict = some (.refused why)) ∧
        ∀ service method, start.registry.calls service method (terms.codec, x.request) = false) ∨
      ((∀ why, x.verdict ≠ some (.refused why)) ∧
        ∃ o ∈ taken, ∃ m ∈ o.methods, x.header.target = o.name ++ "." ++ m.1 ∧
          ∀ service method, start.registry.calls service method (terms.codec, x.request) = true ↔
            service = o.name ∧ method = m.1)) ∧
    ∀ x ∈ p.entries, x.1.asked x.2 <+: (Connection.gistOf? x.2).elim [] k.requests := by
  intro start taken p
  have hstart : start.registry = Registry.run (offers.map .offer) := registry_ofServices k offers
  have hoffers : ∀ e ∈ offers.map Registry.Event.offer, ∃ o : Offer σ, e = .offer o := by
    intro e he
    obtain ⟨o, -, rfl⟩ := List.mem_map.mp he
    exact ⟨o, rfl⟩
  refine ⟨server_chronicle k start.registry as, fun o ho m hm => ?_, fun target => ?_,
    fun c j terms hx hs x hxs => ?_, fun x hx => asked_prefix hx⟩
  · have hpoint := ((Registry.sound_of_mem_taken ho).reachable m hm).2
    have hzero : start.registry.tally? o.name m.1 = some 0 := by
      rw [hstart]
      exact Registry.tally?_of_mem_taken hoffers ho hm
    have htally : p.registry.tally? o.name m.1 = _ := tally?_chronicle k start.registry as o.name m.1
    rw [hzero, Option.map_some, zero_add] at htally
    rw [Registry.calls?_address hpoint, htally]
    rfl
  · exact Registry.calls?_eq_none_iff ((plan_chronicle k start.registry as).trans (by rw [hstart]))
  · have hkept : Connection.Kept start.registry k c j := known_of_mem_chronicle hx
    have haccounts := (hkept.served hs).accounts
    have hread := haccounts.read x hxs
    rcases haccounts.assigned hxs with ⟨why, hv, ha⟩ | ⟨hv, i, ha⟩
    · exact .inl ⟨⟨why, hv⟩, fun service method =>
        Registry.calls_of_assign_error (q := (terms.codec, x.request)) hread ha⟩
    · obtain ⟨s, e, hf, hcalls⟩ :=
        Registry.calls_of_assign_ok (q := (terms.codec, x.request)) hread ha
      rw [hstart] at hf
      obtain ⟨o, ho, hm, htarget, -, hout, -⟩ := Registry.find_eq_ok_iff.mp hf
      have hname : s.name = o.name := congrArg Prod.fst hout
      exact .inr ⟨hv, o, ho, _, hm, htarget, hname ▸ hcalls⟩

end Server

namespace Sample

/-- The service with a method that takes its time, as an offer. -/
def sleepOffer : Offer Receiver := ⟨"Foo", {}, [("Sleep", Kind.sleep.method)]⟩

/-- A request for a method that is not there. -/
def napRequest : Frame := ⟨(⟨"Foo.Nap", 1, ""⟩ : Header).bytes .json, [0x35]⟩

/-- One call is too late and another runs; then a connection comes that speaks the other
codec, and its only request is refused. -/
def refusedRun : List Server.Act :=
  lateRun ++ .event (.arrive false) ::
    [.receive ({ Options.default with codec := .json }.line ++ napRequest.toBytes), .read, .read].map
      fun e => .event (.connection 1 e)

end Sample

namespace Server

/-- Of three requests, the one that is too late and the one that runs are counted. -/
theorem calls_counted_refused :
    let start := ofServices Sample.narrow ([Sample.sleepOffer].map Offer.service)
    let p := chronicle Sample.narrow start.registry Sample.refusedRun
    p.asked.length = 3 ∧ p.registry.calls? "Foo.Sleep" = some 2 ∧ p.registry.calls? "Foo.Nap" = none := by
  intro start p
  obtain ⟨-, hcount, hnone, -, -⟩ := calls_counted Sample.narrow [Sample.sleepOffer] Sample.refusedRun
  have htaken : Registry.taken ([Sample.sleepOffer].map .offer) = [Sample.sleepOffer] := rfl
  rw [htaken] at hcount hnone
  have hthree : p.asked.length = 3 ∧ p.asked.countP (start.registry.calls "Foo" "Sleep") = 2 := by
    decide +kernel
  refine ⟨hthree.1, ?_, ?_⟩
  · have haddress : "Foo" ++ "." ++ "Sleep" = "Foo.Sleep" := by decide
    have hsleep : p.registry.calls? ("Foo" ++ "." ++ "Sleep") =
        some (p.asked.countP (start.registry.calls "Foo" "Sleep") % 2 ^ 64) :=
      hcount _ List.mem_cons_self ("Sleep", Sample.Kind.sleep.method) List.mem_cons_self
    rw [← haddress, hsleep, hthree.2, Nat.mod_eq_of_lt (by decide)]
  · exact (hnone "Foo.Nap").mpr (by decide)

end Server
end Callwire
