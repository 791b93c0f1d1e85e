/-
# Time that jumps to the next timer

A machine under a clock does first all that it can do at once. Time passes
only when nothing else can happen, and then it jumps to the earliest timer, so
nothing is ever late. How far a run goes is bounded by `fuel`, which the
machine's state gives.

Key definitions: `Clockwork`, `Clockwork.settle`, `Clockwork.runUntil`,
`Clockwork.runWhile`.
-/
namespace Callwire

/-- A machine under a clock: the next thing that it can do at once, its
earliest timer after now, and its state when the time is another. -/
structure Clockwork (α : Type) where
  next? : α → Option α
  timer? : α → Option Nat
  moveTo : Nat → α → α
  fuel : α → Nat

namespace Clockwork

variable {α : Type}

/-- Does at most `fuel` things that can be done at once. -/
def settle (k : Clockwork α) : Nat → α → α
  | 0, a => a
  | fuel + 1, a =>
    match k.next? a with
    | none => a
    | some b => settle k fuel b

/-- Does all that can be done at once. -/
def quiet (k : Clockwork α) (a : α) : α := k.settle (k.fuel a) a

/-- Goes from timer to timer while `wanted` holds and no timer is beyond `limit`. -/
def jump (k : Clockwork α) (limit : Option Nat) (wanted : α → Bool) : Nat → α → α
  | 0, a => a
  | fuel + 1, a =>
    match k.timer? a with
    | none => a
    | some t =>
      if wanted a ∧ limit.all (t ≤ ·) then
        jump k limit wanted fuel (k.quiet (k.moveTo t a))
      else a

/-- Runs the machine up to a time. -/
def runUntil (k : Clockwork α) (target : Nat) (a : α) : α :=
  let a := k.quiet a
  k.moveTo target (k.jump (some target) (fun _ => true) (k.fuel a) a)

/-- Runs the machine as long as `wanted` holds and there are timers. -/
def runWhile (k : Clockwork α) (wanted : α → Bool) (a : α) : α :=
  let a := k.quiet a
  k.jump none wanted (k.fuel a) a

end Clockwork
end Callwire
