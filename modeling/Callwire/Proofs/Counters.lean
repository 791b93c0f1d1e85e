/-
# The counter of a method

A request is a call of a method if its address leads to the method and its argument can be
read. One that asks for nothing that there is is a call of no method, any other of exactly
one. The address of a method leads to its counter. The counter goes up with a call of the
method, and with nothing else: not with a call of another method, nor when a handler acts.

Key definitions: `Registry.tally?`, `Registry.calls`.
Key theorems: `Registry.calls?_address`, `Registry.tally?_count`, `Registry.tally?_act`,
`Registry.calls_iff`, `Registry.calls_of_assign_ok`, `Registry.calls?_eq_none_iff`.
-/
import Callwire.Frame
import Callwire.Proofs.Dispatch

namespace Callwire

variable {σ : Type}

theorem Service.find?_count (s : Service σ) (counted name : String) :
    (s.count counted).find? name =
      (s.find? name).map fun e => if e.name = counted then { e with calls := e.calls + 1 } else e := by
  unfold Service.find? Service.count
  rw [List.find?_map]
  congr 2
  funext e
  simp only [Function.comp_apply]
  split <;> rfl

namespace Registry

variable {r r' reg : Registry σ} {codec : Codec} {target service method : String} {body : Bytes}
  {s : Service σ} {e : Entry σ} {q : Codec × Frame} {h : Header} {i : Invocation σ}

/-! ### The counter of a method -/

/-- The counter of a method of a service. -/
def tally? (r : Registry σ) (service method : String) : Option UInt64 :=
  ((r.service? service).bind (·.find? method)).map (·.calls)

theorem calls?_address (hm : '.' ∉ method.toList) :
    r.calls? (service ++ "." ++ method) = (r.tally? service method).map UInt64.toNat := by
  rw [calls?, find_address hm, tally?]
  cases hs : r.service? service with
  | none => rfl
  | some s =>
    simp only [Option.bind_some]
    cases s.find? method <;> rfl

theorem tally?_act (r : Registry σ) (i : Invocation σ) (service method : String) :
    (r.act i).2.tally? service method = r.tally? service method := by
  rw [act]
  split
  · rfl
  · rename_i s hs
    have hname : ∀ s' : Service σ,
        ({ s' with receiver := (i.behaviour.act s.receiver).1 } : Service σ).name = s'.name := fun _ => rfl
    simp only [tally?]
    rw [service?_update hname]
    cases r.service? service with
    | none => rfl
    | some s' =>
      simp only [Option.map_some, Option.bind_some]
      split <;> rfl

/-- The counter of one method goes up, and no other. -/
theorem tally?_count (r : Registry σ) (counted called service method : String) :
    (r.update counted (·.count called)).tally? service method =
      (r.tally? service method).map fun n =>
        n + if counted = service ∧ called = method then 1 else 0 := by
  have hname : ∀ s : Service σ, (s.count called).name = s.name := fun _ => rfl
  unfold tally?
  rw [service?_update hname]
  cases hs : r.service? service with
  | none => rfl
  | some s =>
    have hsname : s.name = service := by simpa using List.find?_some hs
    simp only [Option.map_some, Option.bind_some, hsname]
    by_cases hc : service = counted
    · rw [if_pos hc, Service.find?_count]
      cases he : s.find? method with
      | none => rfl
      | some e =>
        have hename : e.name = method := by simpa using List.find?_some he
        by_cases hm : called = method
        · simp [hename, hm, hc]
        · simp [hename, hm, Ne.symm hm, hc]
    · have hc' : ¬ (counted = service ∧ called = method) := fun h => hc h.1.symm
      simp only [if_neg hc, if_neg hc', Option.map_map, Function.comp_def, add_zero]

/-! ### Which method a request is a call of -/

/-- The request is a call of a method: its address leads to the method, and its argument can
be read. -/
def calls (r : Registry σ) (service method : String) (q : Codec × Frame) : Bool :=
  match q.2.readHeader q.1 with
  | .error _ => false
  | .ok h =>
    match r.find h.target with
    | .error _ => false
    | .ok (s, e) =>
      s.name == service && e.name == method && (q.1.decode e.method.argument q.2.body).toBool

theorem calls_iff :
    r.calls service method q = true ↔
      ∃ h s e d, q.2.readHeader q.1 = .ok h ∧ r.find h.target = .ok (s, e) ∧
        s.name = service ∧ e.name = method ∧ q.1.decode e.method.argument q.2.body = .ok d := by
  unfold calls
  constructor
  · intro hc
    split at hc
    · cases hc
    · rename_i h hh
      split at hc
      · cases hc
      · rename_i s e hf
        simp only [Bool.and_eq_true, beq_iff_eq] at hc
        obtain ⟨⟨hs, he⟩, hd⟩ := hc
        cases hd' : q.1.decode e.method.argument q.2.body with
        | error why => simp [hd', Except.toBool] at hd
        | ok d => exact ⟨h, s, e, d, hh, hf, hs, he, hd'⟩
  · rintro ⟨h, s, e, d, hh, hf, rfl, rfl, hd⟩
    simp [hh, hf, hd, Except.toBool]

theorem calls_of_assign_error {why : Fault} (hh : q.2.readHeader q.1 = .ok h)
    (ha : r.assign q.1 h.target q.2.body = .error why) : r.calls service method q = false := by
  rw [← Bool.not_eq_true, calls_iff]
  rintro ⟨h', s, e, d, hh', hf, -, -, hd⟩
  obtain rfl : h = h' := Except.ok.inj (hh.symm.trans hh')
  rw [assign_eq, hf] at ha
  simp [Except.map, hd] at ha

/-- **A request that asks for a call is a call of one method.** -/
theorem calls_of_assign_ok (hh : q.2.readHeader q.1 = .ok h)
    (ha : r.assign q.1 h.target q.2.body = .ok i) :
    ∃ s e, r.find h.target = .ok (s, e) ∧
      ∀ service method, r.calls service method q = true ↔ service = s.name ∧ method = e.name := by
  rw [assign_eq] at ha
  cases hf : r.find h.target with
  | error why => simp [hf, Except.map] at ha
  | ok p =>
    obtain ⟨s, e⟩ := p
    simp only [hf, Except.map] at ha
    cases hd : q.1.decode e.method.argument q.2.body with
    | error why => simp [hd] at ha
    | ok d =>
      refine ⟨s, e, rfl, fun service method => calls_iff.trans ⟨?_, ?_⟩⟩
      · rintro ⟨h', s', e', d', hh', hf', rfl, rfl, -⟩
        obtain rfl : h = h' := Except.ok.inj (hh.symm.trans hh')
        rw [hf] at hf'
        cases hf'
        exact ⟨rfl, rfl⟩
      · rintro ⟨rfl, rfl⟩
        exact ⟨h, s, e, d, hh, hf, rfl, rfl, hd⟩

theorem calls_congr (hp : r.plan = r'.plan) : r.calls service method q = r'.calls service method q := by
  have hone : ∀ {r r' : Registry σ}, r.plan = r'.plan → r.calls service method q = true →
      r'.calls service method q = true := by
    intro r r' hp hc
    obtain ⟨h, s, e, d, hh, hf, rfl, rfl, hd⟩ := calls_iff.mp hc
    have hfind := find_congr hp h.target
    rw [hf] at hfind
    cases hf' : r'.find h.target with
    | error why => simp [hf', Except.map] at hfind
    | ok p =>
      simp only [hf', Except.map, Except.ok.injEq, Prod.mk.injEq] at hfind
      obtain ⟨hname, hmethod⟩ := hfind
      obtain ⟨htarget, hm, -, -⟩ := address_of_find hf
      obtain ⟨htarget', hm', -, -⟩ := address_of_find hf'
      obtain ⟨-, hename⟩ := address_inj hm hm' (htarget.symm.trans htarget')
      exact calls_iff.mpr ⟨h, p.1, p.2, d, hh, hf', hname.symm, hename.symm, hmethod ▸ hd⟩
  exact Bool.eq_iff_iff.mpr ⟨hone hp, hone hp.symm⟩

/-! ### Services that were just offered -/

variable {es : List (Event σ)} {o : Offer σ} {m : String × Method σ}

/-- Before any call every counter shows zero. -/
theorem tally?_of_mem_taken (hes : ∀ e ∈ es, ∃ o, e = .offer o) (ho : o ∈ taken es) (hm : m ∈ o.methods) :
    (run es).tally? o.name m.1 = some 0 := by
  have hservices : (run es).services = (taken es).map Offer.service := services_takenFrom hes
  have hnames : ((run es).services.map (·.name)).Nodup := by
    rw [hservices, List.map_map]
    simpa only [Function.comp_def, Offer.name_service] using nodup_taken es
  have hservice : (run es).service? o.service.name = some o.service :=
    find?_of_mem Service.name hnames (hservices ▸ List.mem_map_of_mem ho)
  have hdistinct := (sound_of_mem_taken ho).distinct
  have hentries : o.service.entries = o.methods.map fun m => ⟨m.1, m.2, 0⟩ := Offer.entries_service hdistinct
  have hmethods : (o.service.entries.map (·.name)).Nodup := by
    rw [hentries, List.map_map]
    exact hdistinct
  have hmem : (⟨m.1, m.2, 0⟩ : Entry σ) ∈ o.service.entries := hentries ▸ List.mem_map_of_mem hm
  have hentry : o.service.find? m.1 = some ⟨m.1, m.2, 0⟩ := find?_of_mem Entry.name hmethods hmem
  rw [Offer.name_service] at hservice
  rw [tally?, hservice, Option.bind_some, hentry]
  rfl

/-- **An address has no counter exactly if it leads to no method**, with any services of this
outline. -/
theorem calls?_eq_none_iff {r : Registry σ} {target : String} (hp : r.plan = (run es).plan) :
    r.calls? target = none ↔
      ¬ ∃ o ∈ taken es, ∃ m ∈ o.methods, target = o.name ++ "." ++ m.1 := by
  have hfind : r.calls? target = none ↔ ∃ why, (run es).find target = .error why := by
    have hcongr := find_congr hp target
    rw [calls?]
    cases hf : r.find target with
    | error why =>
      cases hf' : (run es).find target with
      | error why' => simp
      | ok p => simp [hf, hf', Except.map] at hcongr
    | ok p =>
      cases hf' : (run es).find target with
      | error why' => simp [hf, hf', Except.map] at hcongr
      | ok p' => simp
  rw [hfind]
  constructor
  · rintro ⟨why, hf⟩ ⟨o, ho, m, hm, rfl⟩
    obtain ⟨s, e, hf', -⟩ := exists_find ho hm
    rw [hf] at hf'
    cases hf'
  · intro hno
    cases hf : (run es).find target with
    | error why => exact ⟨why, rfl⟩
    | ok p =>
      obtain ⟨o, ho, hm, htarget, -⟩ := find_eq_ok_iff.mp hf
      exact absurd ⟨o, ho, _, hm, htarget⟩ hno

end Registry
end Callwire
