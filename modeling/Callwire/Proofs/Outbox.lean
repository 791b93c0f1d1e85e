/-
# What a writer writes

The frames that were handed to an outbox are, in the order in which they were
handed over, on its wire, in its batch or in its queue. Nothing else is, and
nothing is missing unless a write has failed. A writer that has closed its side
has written everything.

Key definitions: `Outbox.Carries`, `Outbox.Orderly`.
Key theorems: `Outbox.step_cases`, `Outbox.Carries.step`, `Outbox.Carries.send`,
`Outbox.Carries.collect`, `Outbox.Orderly.step`, `Outbox.exists_step`.
-/
import Callwire.Proofs.Frames

namespace Callwire
namespace Outbox

open Callwire.Frame (bytesOf_append bytesOf_concat)

/-- What a writer does, with all that it needs to do it. -/
theorem step_cases {o o' : Outbox} {e : Event} (h : o.step e = some o') :
    o.state = .working ∧
      ((∃ f queue b, e = .take ∧ o.queue = f :: queue ∧ o.batch.add? (.ofFrame f) = some b ∧
          o' = { o with batch := b, queue := queue }) ∨
        (∃ n, e = .write n ∧ 0 < n ∧ n ≤ o.batch.left.length ∧
          o' = { o with wire := o.wire ++ o.batch.left.take n, batch := o.batch.advance n }) ∨
        (e = .fail ∧ o.batch.parcels ≠ [] ∧ o' = { o with state := .failed, batch := .empty, queue := [] }) ∨
        (e = .close ∧ o.released ∧ o.batch.parcels = [] ∧ o.queue = [] ∧
          o' = { o with state := .closed })) := by
  cases e with
  | take =>
    simp only [step] at h
    split at h
    · cases h
    · rename_i f queue hq
      rw [Option.ite_none_right_eq_some] at h
      obtain ⟨b, hb, rfl⟩ := Option.map_eq_some_iff.mp h.2
      have hs := h.1
      exact ⟨hs, .inl ⟨f, queue, b, rfl, hq, hb, rfl⟩⟩
  | write n =>
    simp only [step, Option.ite_none_right_eq_some, Option.some.injEq] at h
    obtain ⟨⟨hs, hn, hl⟩, rfl⟩ := h
    exact ⟨hs, .inr (.inl ⟨n, rfl, hn, hl, rfl⟩)⟩
  | fail =>
    simp only [step, Option.ite_none_right_eq_some, Option.some.injEq] at h
    obtain ⟨⟨hs, hb⟩, rfl⟩ := h
    exact ⟨hs, .inr (.inr (.inl ⟨rfl, hb, rfl⟩))⟩
  | close =>
    simp only [step, Option.ite_none_right_eq_some, Option.some.injEq] at h
    obtain ⟨⟨hs, hr, hb, hq⟩, rfl⟩ := h
    exact ⟨hs, .inr (.inr (.inr ⟨rfl, hr, hb, hq, rfl⟩))⟩

theorem send_queued {o o' : Outbox} {f : Frame} (h : o.send f = .queued o') :
    o.state = .working ∧ o' = { o with queue := o.queue ++ [f] } := by
  rw [send] at h
  split at h
  · cases h
  · rename_i hs
    split at h
    · cases h
      exact ⟨by simpa using hs, rfl⟩
    · cases h

theorem send_refused {o : Outbox} {f : Frame} (h : o.send f = .refused) : o.state ≠ .working := by
  rw [send] at h
  split at h
  · assumption
  · split at h <;> cases h

theorem send_full {o : Outbox} {f : Frame} (h : o.send f = .full) :
    o.state = .working ∧ o.capacity ≤ o.queue.length := by
  rw [send] at h
  split at h
  · cases h
  · rename_i hs
    split at h
    · cases h
    · exact ⟨by simpa using hs, by omega⟩

/-! ### The bytes -/

/-- What was taken off the wire, what is on it, the batch and the queue are all
bytes that were ever handed over, unless a write has failed. -/
def Carries (o : Outbox) (gone all : Bytes) : Prop :=
  ∃ rest, gone ++ o.wire ++ o.batch.left ++ bytesOf o.queue ++ rest = all ∧
    (o.state ≠ .failed → rest = [])

/-- **What a writer does loses no byte and changes no order.** -/
theorem Carries.step {o o' : Outbox} {e : Event} {gone all : Bytes} (hc : o.Carries gone all)
    (h : o.step e = some o') : o'.Carries gone all := by
  obtain ⟨rest, hall, hrest⟩ := hc
  obtain ⟨hs, hcases⟩ := step_cases h
  have hr : rest = [] := hrest (by simp [hs])
  subst hr
  rcases hcases with ⟨f, queue, b, -, hq, hb, rfl⟩ | ⟨n, -, -, -, rfl⟩ | ⟨-, -, rfl⟩ | ⟨-, -, -, -, rfl⟩
  · have hleft : b.left = o.batch.left ++ f.toBytes := (Batch.left_add? hb).1
    refine ⟨[], ?_, fun _ => rfl⟩
    rw [← hall, hleft, hq, Frame.bytesOf_cons]
    simp only [List.append_assoc]
  · have hleft : gone ++ (o.wire ++ o.batch.left.take n) ++ (o.batch.advance n).left =
        gone ++ o.wire ++ o.batch.left := by
      rw [Batch.left_advance]
      simp only [List.append_assoc, List.take_append_drop]
    exact ⟨[], by rw [← hall, ← hleft], fun _ => rfl⟩
  · refine ⟨o.batch.left ++ bytesOf o.queue, ?_, fun hn => absurd rfl hn⟩
    rw [← hall, Batch.left_empty, Frame.bytesOf_nil]
    simp only [List.append_assoc, List.append_nil]
  · exact ⟨[], hall, fun _ => rfl⟩

theorem Carries.send {o o' : Outbox} {f : Frame} {gone all : Bytes} (hc : o.Carries gone all)
    (h : o.send f = .queued o') : o'.Carries gone (all ++ f.toBytes) := by
  obtain ⟨rest, hall, hrest⟩ := hc
  obtain ⟨hs, rfl⟩ := send_queued h
  have hr : rest = [] := hrest (by simp [hs])
  subst hr
  exact ⟨[], by rw [← hall]; simp [bytesOf_concat], fun _ => rfl⟩

theorem Carries.collect {o : Outbox} {gone all : Bytes} (hc : o.Carries gone all) (n : Nat) :
    { o with wire := o.wire.drop n }.Carries (gone ++ o.wire.take n) all := by
  obtain ⟨rest, hall, hrest⟩ := hc
  have hw : gone ++ o.wire.take n ++ o.wire.drop n = gone ++ o.wire := by
    rw [List.append_assoc, List.take_append_drop]
  exact ⟨rest, by rw [← hall, ← hw], hrest⟩

theorem Carries.prefix_all {o : Outbox} {gone all : Bytes} (hc : o.Carries gone all) : gone <+: all := by
  obtain ⟨rest, hall, -⟩ := hc
  exact ⟨o.wire ++ o.batch.left ++ bytesOf o.queue ++ rest, by rw [← hall]; simp⟩

theorem Carries.wire_eq {o : Outbox} {all : Bytes} (hc : o.Carries [] all) (hs : o.state ≠ .failed)
    (hb : o.batch.parcels = []) (hq : o.queue = []) : o.wire = all := by
  obtain ⟨rest, hall, hrest⟩ := hc
  have hr := hrest hs
  subst hr
  rw [← hall, Batch.left_eq_nil_iff.mpr hb, hq]
  simp [bytesOf]

/-! ### The end -/

/-- A writer that has closed its side has nothing left, and nobody can hand over
more. -/
def Orderly (o : Outbox) : Prop :=
  o.state = .closed → o.released ∧ o.batch.parcels = [] ∧ o.queue = []

theorem Orderly.step {o o' : Outbox} {e : Event} (h : o.step e = some o') : o'.Orderly := by
  obtain ⟨hs, hcases⟩ := step_cases h
  rcases hcases with ⟨f, queue, b, -, -, -, rfl⟩ | ⟨n, -, -, -, rfl⟩ | ⟨-, -, rfl⟩ | ⟨-, hr, hb, hq, rfl⟩
  · exact fun hc => by rw [hs] at hc; cases hc
  · exact fun hc => by rw [hs] at hc; cases hc
  · exact fun hc => by cases hc
  · exact fun _ => ⟨hr, hb, hq⟩

theorem Orderly.send {o o' : Outbox} {f : Frame} (h : o.send f = .queued o') : o'.Orderly := by
  obtain ⟨hs, rfl⟩ := send_queued h
  exact fun hc => by rw [hs] at hc; cases hc

theorem step_released {o o' : Outbox} {e : Event} (h : o.step e = some o') :
    o'.released = o.released ∧ o'.capacity = o.capacity := by
  obtain ⟨-, hcases⟩ := step_cases h
  rcases hcases with ⟨f, queue, b, -, -, -, rfl⟩ | ⟨n, -, -, -, rfl⟩ | ⟨-, -, rfl⟩ | ⟨-, -, -, -, rfl⟩ <;>
    exact ⟨rfl, rfl⟩

end Outbox
end Callwire
