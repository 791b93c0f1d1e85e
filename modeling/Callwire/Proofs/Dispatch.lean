/-
# Which method an address leads to

A service is offered to the table with the methods that were added to it, one by one. It
is taken if each of its methods can be reached by an address of its own: its name is new
and not empty, it has a method, and no name of a method was given twice, is empty, or
holds a point. An address is the name of a service, a point and the name of a method.
The name of a service may hold points anywhere, that of a method does not, so an address
leads to one method of one service that was taken, and every such method has its address.

Offers that are not taken leave no trace. Calls that are counted and act in between
change neither the names nor the methods behind them.

Key definitions: `Offer`, `Offer.service`, `Offer.Sound`, `Registry.Event`, `Registry.run`,
`Registry.taken`.
Key theorems: `Offer.check_eq_ok_iff`, `Registry.plan_run`, `Registry.find_eq_ok_iff`,
`Registry.find_eq_error_iff`, `Registry.dispatch_table`.
-/
import Callwire.Proofs.Registry
import Callwire.Service.Sample

namespace Callwire

variable {σ : Type}

/-- A service that is offered: its name, its receiver, and its methods in the order in
which they were added. -/
structure Offer (σ : Type) where
  name : String
  receiver : σ
  methods : List (String × Method σ)

namespace Offer

/-- The service that is built of it. -/
def service (o : Offer σ) : Service σ :=
  o.methods.foldl (fun s m => s.add m.1 m.2) { name := o.name, receiver := o.receiver }

/-- Every method can be reached by an address of its own. -/
structure Sound (o : Offer σ) : Prop where
  name : o.name ≠ ""
  methods : o.methods ≠ []
  distinct : (o.methods.map (·.1)).Nodup
  reachable : ∀ m ∈ o.methods, m.1 ≠ "" ∧ '.' ∉ m.1.toList

end Offer

/-! ### Building a service -/

namespace Service

variable {s : Service σ} {ms : List (String × Method σ)}

theorem name_foldl_add : (ms.foldl (fun s m => s.add m.1 m.2) s).name = s.name := by
  induction ms generalizing s with
  | nil => rfl
  | cons m ms ih => exact ih

theorem find?_eq_none_iff {name : String} : s.find? name = none ↔ name ∉ s.entries.map (·.name) := by
  simp [find?, List.find?_eq_none]

theorem put_of_not_mem {e : Entry σ} {es : List (Entry σ)} (h : e.name ∉ es.map (·.name)) :
    e.put es = es ++ [e] := by
  induction es with
  | nil => rfl
  | cons x xs ih =>
    rw [List.map_cons, List.mem_cons, not_or] at h
    rw [Entry.put, if_neg (Ne.symm h.1), ih h.2, List.cons_append]

theorem repeated_foldl_add (h : s.repeated ≠ []) :
    (ms.foldl (fun s m => s.add m.1 m.2) s).repeated ≠ [] := by
  induction ms generalizing s with
  | nil => exact h
  | cons m ms ih =>
    refine ih ?_
    simp only [Service.add]
    split
    · simp
    · exact h

/-- **No name is given twice exactly if all are new and differ**, and then the methods
stand in the order in which they were added. -/
theorem repeated_foldl_add_eq_nil_iff (h : s.repeated = []) :
    ((ms.foldl (fun s m => s.add m.1 m.2) s).repeated = [] ↔
      (ms.map (·.1)).Nodup ∧ ∀ m ∈ ms, m.1 ∉ s.entries.map (·.name)) ∧
    ((ms.foldl (fun s m => s.add m.1 m.2) s).repeated = [] →
      (ms.foldl (fun s m => s.add m.1 m.2) s).entries = s.entries ++ ms.map fun m => ⟨m.1, m.2, 0⟩) := by
  induction ms generalizing s with
  | nil => simp [h]
  | cons m ms ih =>
    rw [List.foldl_cons]
    cases hf : s.find? m.1 with
    | some e =>
      have hgiven : (s.add m.1 m.2).repeated ≠ [] := by simp [add, hf]
      have hmem : m.1 ∈ s.entries.map (·.name) := by
        by_contra hn
        rw [find?_eq_none_iff.mpr hn] at hf
        cases hf
      refine ⟨⟨fun hr => absurd hr (repeated_foldl_add hgiven), fun hr => ?_⟩,
        fun hr => absurd hr (repeated_foldl_add hgiven)⟩
      exact absurd hmem (hr.2 m List.mem_cons_self)
    | none =>
      have hnew := find?_eq_none_iff.mp hf
      have hr : (s.add m.1 m.2).repeated = [] := by simp [add, hf, h]
      have he : (s.add m.1 m.2).entries = s.entries ++ [⟨m.1, m.2, 0⟩] := put_of_not_mem hnew
      obtain ⟨hiff, hentries⟩ := ih hr
      refine ⟨hiff.trans ?_, fun hn => ?_⟩
      · rw [he]
        simp only [List.map_append, List.map_cons, List.map_nil, List.mem_append, List.mem_singleton,
          not_or, List.nodup_cons, List.forall_mem_cons, List.mem_map]
        constructor
        · rintro ⟨hnd, hall⟩
          refine ⟨⟨?_, hnd⟩, by simpa using hnew, fun x hx => (hall x hx).1⟩
          rintro ⟨x, hx, hxm⟩
          exact (hall x hx).2 hxm
        · rintro ⟨⟨hm, hnd⟩, -, hall⟩
          exact ⟨hnd, fun x hx => ⟨hall x hx, fun hxm => hm ⟨x, hx, hxm⟩⟩⟩
      · rw [hentries hn, he, List.append_assoc, List.singleton_append, List.map_cons]

theorem badName_eq_false_iff {name : String} :
    badName name = false ↔ name ≠ "" ∧ '.' ∉ name.toList := by
  simp [badName]

theorem check_eq_ok_iff :
    s.check = .ok () ↔ s.name ≠ "" ∧ s.entries ≠ [] ∧ s.repeated = [] ∧
      ∀ e ∈ s.entries, e.name ≠ "" ∧ '.' ∉ e.name.toList := by
  rw [check]
  by_cases hn : s.name = ""
  · simp [hn]
  · by_cases he : s.entries = []
    · simp [hn, he]
    · cases hr : s.repeated with
      | cons m ms => simp [hn, he]
      | nil =>
        simp only [String.isEmpty_iff, hn, if_false, List.isEmpty_iff, he, ne_eq, not_false_eq_true,
          true_and]
        simp only [← badName_eq_false_iff, ← Bool.not_eq_true]
        rw [← List.find?_eq_none]
        cases s.entries.find? fun e => badName e.name <;> simp

end Service

namespace Offer

variable {o : Offer σ}

theorem name_service (o : Offer σ) : o.service.name = o.name := Service.name_foldl_add

theorem repeated_service_eq_nil_iff :
    o.service.repeated = [] ↔ (o.methods.map (·.1)).Nodup := by
  rw [service, (Service.repeated_foldl_add_eq_nil_iff rfl).1]
  simp

theorem entries_service (h : (o.methods.map (·.1)).Nodup) :
    o.service.entries = o.methods.map fun m => ⟨m.1, m.2, 0⟩ :=
  (Service.repeated_foldl_add_eq_nil_iff rfl).2 (repeated_service_eq_nil_iff.mpr h)

/-- **A service can be registered exactly if each of its methods can be reached.** -/
theorem check_eq_ok_iff : o.service.check = .ok () ↔ o.Sound := by
  rw [Service.check_eq_ok_iff, name_service, repeated_service_eq_nil_iff]
  constructor
  · rintro ⟨hn, he, hd, hall⟩
    rw [entries_service hd] at he hall
    rw [List.forall_mem_map] at hall
    exact ⟨hn, by simpa using he, hd, hall⟩
  · intro h
    rw [entries_service h.distinct, List.forall_mem_map]
    exact ⟨h.name, by simpa using h.methods, h.distinct, h.reachable⟩

theorem Sound.outline (h : o.Sound) : Registry.outline o.service = (o.name, o.methods) := by
  rw [Registry.outline, name_service, entries_service h.distinct, List.map_map]
  simp [Function.comp_def]

end Offer

/-! ### The history of a table -/

namespace Registry

/-- What can happen to a table: a service is offered to it, the argument of a request is
read, or a call acts. -/
inductive Event (σ : Type) where
  | offer (o : Offer σ)
  | invoke (codec : Codec) (target : String) (body : Bytes)
  | act (i : Invocation σ)

/-- The table after an event. -/
def apply (r : Registry σ) : Event σ → Registry σ
  | .offer o => (r.register o.service).toOption.getD r
  | .invoke codec target body => ((r.invoke codec target body).toOption.map (·.2)).getD r
  | .act i => (r.act i).2

/-- A table after some events; it is empty at first. -/
def run (es : List (Event σ)) : Registry σ := es.foldl apply {}

/-- The offers of a history that were taken, in this order. -/
def takenFrom : Registry σ → List (Event σ) → List (Offer σ)
  | _, [] => []
  | r, e :: es =>
    (match e with
      | .offer o => if (r.register o.service).toOption.isSome then [o] else []
      | _ => []) ++ takenFrom (r.apply e) es

/-- The offers that were taken since the table was empty. -/
def taken (es : List (Event σ)) : List (Offer σ) := takenFrom {} es

variable {r r' : Registry σ} {o : Offer σ} {es : List (Event σ)} {target : String}

theorem run_append (es es' : List (Event σ)) : run (es ++ es') = es'.foldl apply (run es) :=
  List.foldl_append

theorem service?_eq_none_iff {name : String} : r.service? name = none ↔ name ∉ r.plan.map (·.1) := by
  simp [service?, plan, outline, List.find?_eq_none]

theorem register_eq_ok_iff :
    r.register o.service = .ok r' ↔
      o.Sound ∧ o.name ∉ r.plan.map (·.1) ∧ r' = ⟨r.services ++ [o.service]⟩ := by
  rw [register, ← service?_eq_none_iff, ← Offer.check_eq_ok_iff, Offer.name_service]
  cases o.service.check with
  | error why => simp
  | ok _ =>
    cases r.service? o.name with
    | some s => simp
    | none => simp [eq_comm]

/-- An offer is taken, and its service stands at the end, or nothing changes. -/
theorem apply_offer (r : Registry σ) (o : Offer σ) :
    (o.Sound ∧ o.name ∉ r.plan.map (·.1) ∧ (r.register o.service).toOption.isSome = true ∧
      r.apply (.offer o) = ⟨r.services ++ [o.service]⟩) ∨
    ((r.register o.service).toOption.isSome = false ∧ r.apply (.offer o) = r) := by
  cases h : r.register o.service with
  | error why => exact .inr ⟨rfl, by rw [apply, h]; rfl⟩
  | ok r' =>
    obtain ⟨hs, hn, rfl⟩ := register_eq_ok_iff.mp h
    exact .inl ⟨hs, hn, rfl, by rw [apply, h]; rfl⟩

/-- **The table shows the offers that were taken, and nothing else**; they are sound, and
their names differ. -/
theorem plan_takenFrom (es : List (Event σ)) (hn : (r.plan.map (·.1)).Nodup) :
    (es.foldl apply r).plan = r.plan ++ (takenFrom r es).map (fun o => (o.name, o.methods)) ∧
      ((es.foldl apply r).plan.map (·.1)).Nodup ∧ ∀ o ∈ takenFrom r es, o.Sound := by
  induction es generalizing r with
  | nil => exact ⟨by simp [takenFrom], hn, by simp [takenFrom]⟩
  | cons e es ih =>
    have hsame : (r.apply e).plan = r.plan → takenFrom r (e :: es) = takenFrom (r.apply e) es →
        ((e :: es).foldl apply r).plan =
          r.plan ++ (takenFrom r (e :: es)).map (fun o => (o.name, o.methods)) ∧
        (((e :: es).foldl apply r).plan.map (·.1)).Nodup ∧ ∀ o ∈ takenFrom r (e :: es), o.Sound := by
      intro hp ht
      rw [List.foldl_cons, ht, ← hp]
      exact ih (by rw [hp]; exact hn)
    cases e with
    | invoke codec target body =>
      refine hsame ?_ rfl
      rw [apply]
      cases h : r.invoke codec target body with
      | error why => rfl
      | ok p => exact plan_invoke h
    | act i => exact hsame (plan_act i) rfl
    | offer o =>
      rcases apply_offer r o with ⟨hs, hnew, hsome, ha⟩ | ⟨hnone, ha⟩
      · have hp : (r.apply (.offer o)).plan = r.plan ++ [(o.name, o.methods)] := by
          rw [ha, plan, List.map_append, List.map_singleton, hs.outline, plan]
        have ht : takenFrom r (.offer o :: es) = o :: takenFrom (r.apply (.offer o)) es := by
          rw [takenFrom]
          simp only [hsome, if_true, List.singleton_append]
        have hnd : ((r.apply (.offer o)).plan.map (·.1)).Nodup := by
          rw [hp, List.map_append, List.map_singleton]
          refine List.nodup_append.mpr ⟨hn, List.nodup_singleton _, fun x hx y hy => ?_⟩
          rw [List.mem_singleton.mp hy]
          rintro rfl
          exact hnew hx
        obtain ⟨hplan, hnodup, hsound⟩ := ih hnd
        rw [List.foldl_cons, ht]
        refine ⟨?_, hnodup, ?_⟩
        · rw [hplan, hp, List.append_assoc, List.singleton_append, List.map_cons]
        · rw [List.forall_mem_cons]
          exact ⟨hs, hsound⟩
      · refine hsame (by rw [ha]) ?_
        rw [takenFrom]
        simp only [hnone, Bool.false_eq_true, if_false, List.nil_append]

theorem plan_run (es : List (Event σ)) :
    (run es).plan = (taken es).map fun o => (o.name, o.methods) := by
  have h := (plan_takenFrom es (r := ({} : Registry σ)) List.nodup_nil).1
  rwa [show ({} : Registry σ).plan = [] from rfl, List.nil_append] at h

theorem nodup_taken (es : List (Event σ)) : ((taken es).map (·.name)).Nodup := by
  have h := (plan_takenFrom es (r := ({} : Registry σ)) List.nodup_nil).2.1
  change ((run es).plan.map (·.1)).Nodup at h
  rw [plan_run, List.map_map] at h
  exact h

theorem sound_of_mem_taken (h : o ∈ taken es) : o.Sound :=
  (plan_takenFrom es (r := ({} : Registry σ)) List.nodup_nil).2.2 o h

/-- Before any call the table holds the services just as they were built. -/
theorem services_takenFrom (hes : ∀ e ∈ es, ∃ o, e = .offer o) :
    (es.foldl apply r).services = r.services ++ (takenFrom r es).map Offer.service := by
  induction es generalizing r with
  | nil => simp [takenFrom]
  | cons e es ih =>
    obtain ⟨⟨o, rfl⟩, hrest⟩ := List.forall_mem_cons.mp hes
    rw [List.foldl_cons, ih hrest, takenFrom]
    rcases apply_offer r o with ⟨-, -, hsome, ha⟩ | ⟨hnone, ha⟩
    · simp [hsome, ha]
    · simp [hnone, ha]

theorem find?_of_mem {α : Type} (key : α → String) {xs : List α} {x : α} (hn : (xs.map key).Nodup)
    (hx : x ∈ xs) : xs.find? (key · == key x) = some x := by
  cases hf : xs.find? (key · == key x) with
  | none => simpa using List.find?_eq_none.mp hf x hx
  | some y =>
    have hkey : key y = key x := by simpa using List.find?_some hf
    rw [List.inj_on_of_nodup_map hn (List.mem_of_find?_eq_some hf) hx hkey]

/-! ### Addresses -/

theorem toList_address (n m : String) : (n ++ "." ++ m).toList = n.toList ++ '.' :: m.toList := by simp

theorem splitLast?_address {n m : String} (hm : '.' ∉ m.toList) :
    Text.splitLast? '.' (n ++ "." ++ m).toList = some (n.toList, m.toList) :=
  Text.splitLast?_eq_some_iff.mpr ⟨toList_address n m, hm⟩

/-- **Two methods never share an address.** -/
theorem address_inj {n m n' m' : String} (hm : '.' ∉ m.toList) (hm' : '.' ∉ m'.toList)
    (h : n ++ "." ++ m = n' ++ "." ++ m') : n = n' ∧ m = m' := by
  have hs := splitLast?_address (n := n) hm
  rw [h, splitLast?_address hm', Option.some.injEq, Prod.mk.injEq] at hs
  exact ⟨String.toList_inj.mp hs.1.symm, String.toList_inj.mp hs.2.symm⟩

/-- A text without a point is no address, and every other one is cut at its last point. -/
theorem address_cases (target : String) :
    '.' ∉ target.toList ∨ ∃ n m, target = n ++ "." ++ m ∧ '.' ∉ m.toList := by
  cases h : Text.splitLast? '.' target.toList with
  | none => exact .inl (Text.splitLast?_eq_none_iff.mp h)
  | some p =>
    obtain ⟨ht, hm⟩ := Text.splitLast?_eq_some_iff.mp h
    refine .inr ⟨String.ofList p.1, String.ofList p.2, String.toList_inj.mp ?_, by simpa using hm⟩
    rw [toList_address, ht]
    simp

theorem find_of_no_point (h : '.' ∉ target.toList) : r.find target = .error (.illFormed target) := by
  rw [find, Text.splitLast?_eq_none_iff.mpr h]

theorem find_address {n m : String} (hm : '.' ∉ m.toList) :
    r.find (n ++ "." ++ m) =
      match r.service? n with
      | none => .error (.unknownService n)
      | some s =>
        match s.find? m with
        | none => .error (.unknownMethod m)
        | some e => .ok (s, e) := by
  have hcut := splitLast?_address (n := n) hm
  cases hs : r.service? n with
  | none => simp only [find, hcut, String.ofList_toList, hs]
  | some s =>
    cases he : s.find? m with
    | none => simp only [find, hcut, String.ofList_toList, hs, he]
    | some e => simp only [find, hcut, String.ofList_toList, hs, he]

theorem service?_of_mem_taken (h : o ∈ taken es) :
    ∃ s, (run es).service? o.name = some s ∧ outline s = (o.name, o.methods) := by
  have hfind := outline_service? (r := run es) o.name
  rw [plan_run, List.find?_map, Function.comp_def, find?_of_mem Offer.name (nodup_taken es) h,
    Option.map_some, Option.map_eq_some_iff] at hfind
  exact hfind

/-- An address that leads to a method is that of the method. -/
theorem address_of_find {r : Registry σ} {s : Service σ} {e : Entry σ} (h : r.find target = .ok (s, e)) :
    target = s.name ++ "." ++ e.name ∧ '.' ∉ e.name.toList ∧ r.service? s.name = some s ∧
      s.find? e.name = some e := by
  rcases address_cases target with hno | ⟨n, m, rfl, hm⟩
  · rw [find_of_no_point hno] at h
    cases h
  · rw [find_address hm] at h
    cases hs : r.service? n with
    | none => simp [hs] at h
    | some s' =>
      cases he : s'.find? m with
      | none => simp [hs, he] at h
      | some e' =>
        simp only [hs, he, Except.ok.injEq, Prod.mk.injEq] at h
        obtain ⟨rfl, rfl⟩ := h
        have hsname : s'.name = n := by simpa using List.find?_some hs
        have hename : e'.name = m := by simpa using List.find?_some he
        rw [hsname, hename]
        exact ⟨rfl, hm, hs, he⟩

/-- **An address leads to a method exactly if it is the name of a service that was taken,
a point, and the name of a method that was added to it.** -/
theorem find_eq_ok_iff {s : Service σ} {e : Entry σ} :
    (run es).find target = .ok (s, e) ↔
      ∃ o ∈ taken es, (e.name, e.method) ∈ o.methods ∧ target = o.name ++ "." ++ e.name ∧
        (run es).service? o.name = some s ∧ outline s = (o.name, o.methods) ∧
        s.find? e.name = some e := by
  constructor
  · intro h
    obtain ⟨htarget, -, hs, he⟩ := address_of_find h
    have hn : s.name ∈ (run es).plan.map (·.1) := by
      by_contra hn
      rw [service?_eq_none_iff.mpr hn] at hs
      cases hs
    rw [plan_run, List.map_map] at hn
    obtain ⟨o, ho, hname⟩ := List.mem_map.mp hn
    obtain ⟨s', hs', hout⟩ := service?_of_mem_taken ho
    have hname : o.name = s.name := hname
    cases hs.symm.trans (hname ▸ hs')
    have hmem : (e.name, e.method) ∈ (outline s).2 :=
      List.mem_map.mpr ⟨e, List.mem_of_find?_eq_some he, rfl⟩
    rw [hout] at hmem
    exact ⟨o, ho, hmem, hname ▸ htarget, hname ▸ hs, hout, he⟩
  · rintro ⟨o, ho, hm, rfl, hs, hout, he⟩
    rw [find_address ((sound_of_mem_taken ho).reachable _ hm).2, hs]
    simp only [he]

/-- Every method of a service that was taken can be reached. -/
theorem exists_find (ho : o ∈ taken es) {m : String × Method σ} (hm : m ∈ o.methods) :
    ∃ s e, (run es).find (o.name ++ "." ++ m.1) = .ok (s, e) ∧ outline s = (o.name, o.methods) ∧
      (e.name, e.method) = m := by
  obtain ⟨s, hs, hout⟩ := service?_of_mem_taken ho
  have hsound := sound_of_mem_taken ho
  have hfind := outline_find? s m.1
  rw [hout, find?_of_mem Prod.fst hsound.distinct hm, Option.map_eq_some_iff] at hfind
  obtain ⟨e, he, hem⟩ := hfind
  refine ⟨s, e, ?_, hout, hem⟩
  rw [find_address (hsound.reachable m hm).2, hs]
  simp only [he]

/-- **Why an address leads nowhere**: it has no point, or no service was taken under what
stands before the last point, or that service has no method of the name behind it. -/
theorem find_eq_error_iff {why : DispatchFault} :
    (run es).find target = .error why ↔
      ('.' ∉ target.toList ∧ why = .illFormed target) ∨
      ∃ n m, target = n ++ "." ++ m ∧ '.' ∉ m.toList ∧
        ((n ∉ (taken es).map (·.name) ∧ why = .unknownService n) ∨
          ∃ o ∈ taken es, o.name = n ∧ m ∉ o.methods.map (·.1) ∧ why = .unknownMethod m) := by
  have hnames : (run es).plan.map (·.1) = (taken es).map (·.name) := by
    rw [plan_run, List.map_map]
    rfl
  have hmethod : ∀ {o : Offer σ} {s : Service σ} {m : String}, outline s = (o.name, o.methods) →
      (s.find? m = none ↔ m ∉ o.methods.map (·.1)) := by
    intro o s m hout
    rw [Service.find?_eq_none_iff, ← (Prod.mk.inj hout).2, List.map_map]
    rfl
  constructor
  · intro h
    rcases address_cases target with hno | ⟨n, m, rfl, hm⟩
    · rw [find_of_no_point hno, Except.error.injEq] at h
      exact .inl ⟨hno, h.symm⟩
    · refine .inr ⟨n, m, rfl, hm, ?_⟩
      rw [find_address hm] at h
      by_cases hn : n ∈ (taken es).map (·.name)
      · obtain ⟨o, ho, rfl⟩ := List.mem_map.mp hn
        obtain ⟨s, hs, hout⟩ := service?_of_mem_taken ho
        cases he : s.find? m with
        | none =>
          simp only [hs, he, Except.error.injEq] at h
          exact .inr ⟨o, ho, rfl, (hmethod hout).mp he, h.symm⟩
        | some e => simp [hs, he] at h
      · rw [service?_eq_none_iff.mpr (hnames ▸ hn)] at h
        exact .inl ⟨hn, (Except.error.inj h).symm⟩
  · rintro (⟨hno, rfl⟩ | ⟨n, m, rfl, hm, ⟨hn, rfl⟩ | ⟨o, ho, rfl, hno, rfl⟩⟩)
    · exact find_of_no_point hno
    · rw [find_address hm, service?_eq_none_iff.mpr (hnames ▸ hn)]
    · obtain ⟨s, hs, hout⟩ := service?_of_mem_taken ho
      rw [find_address hm, hs]
      simp only [(hmethod hout).mpr hno]

/-- **The table is an address book.** Whatever was offered to it, and whatever calls were
counted and acted in between:

* an offer is taken exactly if it is sound and no offer was taken under its name;
* an offer that is not taken changes nothing that comes later;
* an address leads to a method exactly if it is the name of a service that was taken, a
  point, and the name of a method that was added to it, and then it leads to this very
  service and method; before any call the service is just as it was built;
* every method of every service that was taken has its address;
* an address that leads nowhere has no point, or no service was taken under what stands
  before the last point, or that service has no method of the name behind it;
* two methods never share an address. -/
theorem dispatch_table (es : List (Event σ)) :
    (∀ o : Offer σ, (∃ r, (run es).register o.service = .ok r) ↔
      o.Sound ∧ o.name ∉ (taken es).map (·.name)) ∧
    (∀ (o : Offer σ) (why : Fault) (es' : List (Event σ)), (run es).register o.service = .error why →
      run (es ++ .offer o :: es') = run (es ++ es')) ∧
    (∀ target s e, (run es).find target = .ok (s, e) ↔
      ∃ o ∈ taken es, (e.name, e.method) ∈ o.methods ∧ target = o.name ++ "." ++ e.name ∧
        (run es).service? o.name = some s ∧ outline s = (o.name, o.methods) ∧
        s.find? e.name = some e) ∧
    (∀ target s e, (run es).find target = .ok (s, e) → (∀ x ∈ es, ∃ o, x = .offer o) →
      ∃ o ∈ taken es, s = o.service ∧ target = o.name ++ "." ++ e.name) ∧
    (∀ o ∈ taken es, ∀ m ∈ o.methods, ∃ s e, (run es).find (o.name ++ "." ++ m.1) = .ok (s, e) ∧
      outline s = (o.name, o.methods) ∧ (e.name, e.method) = m) ∧
    (∀ target why, (run es).find target = .error why ↔
      ('.' ∉ target.toList ∧ why = .illFormed target) ∨
      ∃ n m, target = n ++ "." ++ m ∧ '.' ∉ m.toList ∧
        ((n ∉ (taken es).map (·.name) ∧ why = .unknownService n) ∨
          ∃ o ∈ taken es, o.name = n ∧ m ∉ o.methods.map (·.1) ∧ why = .unknownMethod m)) ∧
    ∀ o ∈ taken es, ∀ m ∈ o.methods, ∀ o' ∈ taken es, ∀ m' ∈ o'.methods,
      o.name ++ "." ++ m.1 = o'.name ++ "." ++ m'.1 → o = o' ∧ m = m' := by
  refine ⟨fun o => ?_, fun o why es' h => ?_, fun _ _ _ => find_eq_ok_iff, fun target s e h hes => ?_,
    fun o ho m hm => exists_find ho hm, fun _ _ => find_eq_error_iff, fun o ho m hm o' ho' m' hm' h => ?_⟩
  · have hnames : (run es).plan.map (·.1) = (taken es).map (·.name) := by
      rw [plan_run, List.map_map]
      rfl
    simp only [register_eq_ok_iff, hnames]
    exact ⟨fun ⟨_, hs, hn, _⟩ => ⟨hs, hn⟩, fun ⟨hs, hn⟩ => ⟨_, hs, hn, rfl⟩⟩
  · rw [run_append, run_append, List.foldl_cons, apply, h]
    rfl
  · obtain ⟨o, ho, -, rfl, hs, hout, -⟩ := find_eq_ok_iff.mp h
    have hmem : s ∈ (run es).services := List.mem_of_find?_eq_some hs
    rw [run, services_takenFrom hes, List.nil_append] at hmem
    obtain ⟨o', ho', rfl⟩ := List.mem_map.mp hmem
    have hname : o'.name = o.name := by
      rw [(sound_of_mem_taken ho').outline] at hout
      exact (Prod.mk.inj hout).1
    exact ⟨o', ho', rfl, by rw [hname]⟩
  · obtain ⟨hn, hname⟩ := address_inj ((sound_of_mem_taken ho).reachable m hm).2
      ((sound_of_mem_taken ho').reachable m' hm').2 h
    obtain rfl := List.inj_on_of_nodup_map (nodup_taken es) ho ho' hn
    exact ⟨rfl, List.inj_on_of_nodup_map (sound_of_mem_taken ho).distinct hm hm' hname⟩

end Registry

namespace Sample

/-- A service with points around its name. -/
def pointed : Offer Receiver := ⟨".a.", {}, [("Len", Kind.len.method)]⟩

/-- Another service of this name. -/
def pointedAgain : Offer Receiver := ⟨".a.", { id := 1 }, [("Sum", Kind.sum.method)]⟩

end Sample

namespace Registry

/-- A name with points around it is taken once, and its method has one address. -/
theorem dispatch_table_pointed :
    let es : List (Event Sample.Receiver) := [.offer Sample.pointed]
    let call : Event Sample.Receiver := .invoke .messagePack ".a..Len" [161, 97]
    (¬ ∃ r, (run es).register Sample.pointedAgain.service = .ok r) ∧
    run (es ++ [.offer Sample.pointedAgain, call]) = run (es ++ [call]) ∧
    (∃ e, (run es).find ".a..Len" = .ok (Sample.pointed.service, e) ∧ e.name = "Len") ∧
    (run es).find ".a.Len" = .error (.unknownService ".a") ∧
    (run es).find ".a..Sum" = .error (.unknownMethod "Sum") := by
  intro es call
  have htaken : taken es = [Sample.pointed] := rfl
  obtain ⟨hregister, hfail, -, hbuilt, hreach, herror, -⟩ := dispatch_table es
  rw [htaken] at hregister hbuilt hreach herror
  have hagain : ¬ ∃ r, (run es).register Sample.pointedAgain.service = .ok r :=
    fun h => ((hregister _).mp h).2 (by decide)
  refine ⟨hagain, ?_, ?_, ?_, ?_⟩
  · cases h : (run es).register Sample.pointedAgain.service with
    | error why => exact hfail _ why [call] h
    | ok r => exact absurd ⟨r, h⟩ hagain
  · obtain ⟨s, e, hfind, -, he⟩ := hreach _ List.mem_cons_self _ List.mem_cons_self
    obtain ⟨o, ho, rfl, -⟩ := hbuilt _ s e hfind (by simp [es])
    rw [List.mem_singleton.mp ho] at hfind
    exact ⟨e, hfind, (Prod.mk.inj he).1⟩
  · exact (herror _ _).mpr (.inr ⟨".a", "Len", rfl, by decide, .inl ⟨by decide, rfl⟩⟩)
  · exact (herror _ _).mpr (.inr ⟨".a.", "Sum", rfl, by decide,
      .inr ⟨_, List.mem_cons_self, rfl, by decide, rfl⟩⟩)

end Registry
end Callwire
