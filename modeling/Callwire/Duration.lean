/-
# Spans of time

A span is a number of nanoseconds. Shown, it stands in the largest unit of
seconds, milliseconds, microseconds and nanoseconds of which it holds at least
one, with the decimals it needs.

Key definitions: `Duration`, `Duration.ofMillis`, `Duration.millis`, `Duration.text`.
Key theorems: `Duration.millis_ofMillis`.
-/
namespace Callwire

/-- A span of time. -/
structure Duration where
  nanos : Nat
deriving DecidableEq, Repr, Inhabited

namespace Duration

/-- No time, which bounds nothing. -/
def zero : Duration := ⟨0⟩

/-- A span of milliseconds. -/
def ofMillis (n : Nat) : Duration := ⟨n * 1000000⟩

/-- A span of seconds. -/
def ofSeconds (n : Nat) : Duration := ⟨n * 1000000000⟩

/-- The whole milliseconds of a span. -/
def millis (d : Duration) : Nat := d.nanos / 1000000

theorem millis_ofMillis (n : Nat) : (ofMillis n).millis = n := by
  simp [ofMillis, millis]

/-- The digits of a fraction with `places` digits, without the zeros at its end. -/
def decimals (places n : Nat) : List Char :=
  let ds := Nat.toDigits 10 n
  let all := List.replicate (places - ds.length) '0' ++ ds
  (all.reverse.dropWhile (· == '0')).reverse

/-- `n` units of `10^places` nanoseconds and a unit's name. -/
def inUnit (n places : Nat) (unit : String) : String :=
  let rest := decimals places (n % Nat.pow 10 places)
  let fraction := if rest.isEmpty then "" else "." ++ String.ofList rest
  toString (n / Nat.pow 10 places) ++ fraction ++ unit

/-- The span as shown in messages. -/
def text (d : Duration) : String :=
  if 1000000000 ≤ d.nanos then inUnit d.nanos 9 "s"
  else if 1000000 ≤ d.nanos then inUnit d.nanos 6 "ms"
  else if 1000 ≤ d.nanos then inUnit d.nanos 3 "µs"
  else inUnit d.nanos 0 "ns"

end Duration
end Callwire
