/-
# What a request asks for does not change

Calls change receivers and counts, never the names of services or the methods
behind them. So what a request asks for depends on the request alone, whatever
the services have done before, and a call that was taken has a receiver to act
on when its time comes.

Key definitions: `Registry.plan`, `Registry.assign`.
Key theorems: `Registry.plan_act`, `Registry.plan_invoke`,
`Registry.assign_congr`, `Registry.exists_act`, `Registry.service?_update`.
-/
import Mathlib
import Callwire.Service.Registry

namespace Callwire
namespace Registry

variable {σ : Type} {r r' : Registry σ}

/-- The names of a service and of its methods, and the methods. -/
def outline (s : Service σ) : String × List (String × Method σ) :=
  (s.name, s.entries.map fun e => (e.name, e.method))

/-- All services in outline. -/
def plan (r : Registry σ) : List (String × List (String × Method σ)) := r.services.map outline

/-- The call that a request asks for, or why there is none. -/
def assign (r : Registry σ) (codec : Codec) (target : String) (body : Bytes) :
    Except Fault (Invocation σ) :=
  (r.invoke codec target body).map (·.1)

theorem plan_update {name : String} {f : Service σ → Service σ} (h : ∀ s, outline (f s) = outline s) :
    (r.update name f).plan = r.plan := by
  rw [plan, update, plan, List.map_map]
  refine List.map_congr_left fun s _ => ?_
  simp only [Function.comp_apply]
  split
  · exact h s
  · rfl

theorem plan_act (i : Invocation σ) : (r.act i).2.plan = r.plan := by
  rw [act]
  split
  · rfl
  · exact plan_update fun _ => rfl

theorem outline_count (s : Service σ) (name : String) : outline (s.count name) = outline s := by
  simp only [outline, Service.count, List.map_map, Prod.mk.injEq, true_and]
  refine List.map_congr_left fun e _ => ?_
  simp only [Function.comp_apply]
  split <;> rfl

theorem plan_invoke {codec : Codec} {target : String} {body : Bytes} {i : Invocation σ}
    (h : r.invoke codec target body = .ok (i, r')) : r'.plan = r.plan := by
  rw [invoke] at h
  split at h
  · cases h
  · split at h
    · cases h
    · cases h
      exact plan_update fun s => outline_count s _

theorem outline_service? (name : String) :
    (r.service? name).map outline = r.plan.find? (·.1 == name) := by
  rw [service?, plan, List.find?_map]
  rfl

theorem outline_find? (s : Service σ) (name : String) :
    (s.find? name).map (fun e => (e.name, e.method)) = (outline s).2.find? (·.1 == name) := by
  rw [Service.find?, outline, List.find?_map]
  rfl

theorem find_congr (h : r.plan = r'.plan) (target : String) :
    (r.find target).map (fun p => (p.1.name, p.2.method)) =
      (r'.find target).map fun p => (p.1.name, p.2.method) := by
  rw [find, find]
  cases Text.splitLast? '.' target.toList with
  | none => rfl
  | some p =>
    obtain ⟨service, method⟩ := p
    simp only
    have hs := outline_service? (r := r) (String.ofList service)
    rw [h, ← outline_service?] at hs
    cases h1 : r.service? (String.ofList service) with
    | none =>
      cases h2 : r'.service? (String.ofList service) with
      | none => rfl
      | some s' => simp [h1, h2] at hs
    | some s =>
      cases h2 : r'.service? (String.ofList service) with
      | none => simp [h1, h2] at hs
      | some s' =>
        simp only [h1, h2, Option.map_some, Option.some.injEq] at hs
        have he := outline_find? s (String.ofList method)
        rw [hs, ← outline_find?] at he
        have hn : s.name = s'.name := congrArg Prod.fst hs
        simp only
        cases h3 : s.find? (String.ofList method) with
        | none =>
          cases h4 : s'.find? (String.ofList method) with
          | none => rfl
          | some e' => simp [h3, h4] at he
        | some e =>
          cases h4 : s'.find? (String.ofList method) with
          | none => simp [h3, h4] at he
          | some e' =>
            simp only [h3, h4, Option.map_some, Option.some.injEq, Prod.mk.injEq] at he
            simp [Except.map, hn, he.2]

theorem assign_eq (codec : Codec) (target : String) (body : Bytes) :
    r.assign codec target body =
      match (r.find target).map (fun p => (p.1.name, p.2.method)) with
      | .error e => .error (.dispatch e)
      | .ok (name, m) =>
        match codec.decode m.argument body with
        | .error why => .error (.body why)
        | .ok d => .ok ⟨name, m.run d⟩ := by
  rw [assign, invoke]
  cases r.find target with
  | error e => rfl
  | ok p =>
    simp only [Except.map]
    cases codec.decode p.2.method.argument body <;> rfl

/-- **What a request asks for is the same with the same services.** -/
theorem assign_congr (h : r.plan = r'.plan) (codec : Codec) (target : String) (body : Bytes) :
    r.assign codec target body = r'.assign codec target body := by
  rw [assign_eq, assign_eq, find_congr h]

theorem service?_of_find {target : String} {p : Service σ × Entry σ} (h : r.find target = .ok p) :
    r.service? p.1.name = some p.1 := by
  rw [find] at h
  split at h
  · cases h
  · split at h
    · cases h
    · rename_i s hs
      split at h
      · cases h
      · cases h
        have hn := List.find?_some hs
        simp only [beq_iff_eq] at hn
        rwa [hn]

theorem mem_of_find {target : String} {p : Service σ × Entry σ} (h : r.find target = .ok p) :
    p.1 ∈ r.services ∧ p.2 ∈ p.1.entries := by
  rw [find] at h
  split at h
  · cases h
  · split at h
    · cases h
    · rename_i s hs
      split at h
      · cases h
      · rename_i e he
        cases h
        exact ⟨List.mem_of_find?_eq_some hs, List.mem_of_find?_eq_some he⟩

/-- A call that was taken has a service to act on, whatever happened since. -/
theorem exists_service (hp : r.plan = r'.plan) {codec : Codec} {target : String} {body : Bytes}
    {i : Invocation σ} (h : r.assign codec target body = .ok i) :
    ∃ s, r'.service? i.service = some s := by
  have hs : (r.service? i.service).isSome := by
    rw [assign, invoke] at h
    cases hf : r.find target with
    | error e => simp [hf, Except.map] at h
    | ok p =>
      simp only [hf] at h
      cases hd : codec.decode p.2.method.argument body with
      | error why => simp [hd, Except.map] at h
      | ok d =>
        simp only [hd, Except.map, Except.ok.injEq] at h
        rw [← h, service?_of_find hf]
        rfl
  have ho := outline_service? (r := r) i.service
  rw [hp, ← outline_service?] at ho
  cases hs' : r'.service? i.service with
  | none =>
    rw [hs', Option.map_none, Option.map_eq_none_iff] at ho
    rw [ho] at hs
    cases hs
  | some s => exact ⟨s, rfl⟩

/-- A call that was taken acts on a receiver. -/
theorem exists_act (hp : r.plan = r'.plan) {codec : Codec} {target : String} {body : Bytes}
    {i : Invocation σ} (h : r.assign codec target body = .ok i) :
    ∃ st : σ, (r'.act i).1 = (i.behaviour.act st).2 := by
  obtain ⟨s, hs⟩ := exists_service hp h
  exact ⟨s.receiver, by rw [act, hs]⟩

/-- A call that was taken is one of a method with an argument. -/
theorem exists_method {codec : Codec} {target : String} {body : Bytes} {i : Invocation σ}
    (h : r.assign codec target body = .ok i) :
    ∃ s ∈ r.services, ∃ e ∈ s.entries, ∃ d, i = ⟨s.name, e.method.run d⟩ := by
  rw [assign_eq] at h
  cases hf : r.find target with
  | error why => simp [hf, Except.map] at h
  | ok p =>
    obtain ⟨hs, he⟩ := mem_of_find hf
    simp only [hf, Except.map] at h
    cases hd : codec.decode p.2.method.argument body with
    | error why => simp [hd] at h
    | ok d =>
      simp only [hd, Except.ok.injEq] at h
      exact ⟨p.1, hs, p.2, he, d, h.symm⟩

/-- A change that keeps the name of a service changes it where it stands. -/
theorem service?_update {name : String} {f : Service σ → Service σ} (hf : ∀ s, (f s).name = s.name)
    (n : String) :
    (r.update name f).service? n = (r.service? n).map fun s => if s.name = name then f s else s := by
  unfold service? update
  rw [List.find?_map]
  congr 2
  funext s
  simp only [Function.comp_apply]
  by_cases hs : s.name = name
  · rw [if_pos hs, hf]
  · rw [if_neg hs]

end Registry
end Callwire
