import Switchboard.Decimal.Shortest

/-!
# Lengths of time

* `Span` : a length of time in nanoseconds;
* `Span.ofMillis`, `Span.seconds`, `Span.ceilMillis` : the units it is measured in;
* `Span.ofSeconds` : the span nearest to a double, a tie going to the even nanosecond;
* `Span.text` : a span in the largest unit that leaves a whole part.
-/

namespace Switchboard

/-- A length of time in nanoseconds. -/
structure Span where
  nanos : Nat
  deriving DecidableEq, Repr, Inhabited

namespace Span

/-- A number of milliseconds. -/
def ofMillis (ms : Nat) : Span := ⟨ms * 1000000⟩

/-- Whole seconds of a span. -/
def wholeSeconds (s : Span) : Nat := s.nanos / 1000000000

/-- Nanoseconds beyond the whole seconds. -/
def subNanos (s : Span) : Nat := s.nanos % 1000000000

/-- A span in seconds, as a double: the whole seconds and the rest are rounded one by one. -/
def seconds (s : Span) : Float :=
  Float.ofNat s.wholeSeconds + Float.ofNat s.subNanos / Float.ofNat 1000000000

/-- A span in whole milliseconds, rounded up. -/
def ceilMillis (s : Span) : Nat := (s.nanos + 999999) / 1000000

/-- A quotient rounded to the nearest integer, a tie going to the even one. -/
def roundEven (num den : Nat) : Nat :=
  let floor := num / den
  let rest := num % den
  if 2 * rest < den ∨ (2 * rest = den ∧ floor % 2 = 0) then floor else floor + 1

/-- The span nearest to a number of seconds; nothing for a negative one. -/
def ofSeconds (x : Float) : Span :=
  if x.toBits < 0x8000000000000000 then
    let b := Binary.ofBits x.toBits
    if 0 ≤ b.exponent then ⟨b.significand * Nat.pow 2 b.exponent.toNat * 1000000000⟩
    else ⟨roundEven (b.significand * 1000000000) (Nat.pow 2 (-b.exponent).toNat)⟩
  else ⟨0⟩

/-- The digits of `n` in `places` places, without the zeros at their end. -/
def fractionDigits (places n : Nat) : String :=
  let digits := toString n
  let padded := "".pushn '0' (places - digits.length) ++ digits
  String.ofList (padded.toList.reverse.dropWhile (· == '0')).reverse

/-- A whole part, a part in `places` decimal places, and a unit. -/
def inUnit (whole places rest : Nat) (unit : String) : String :=
  let fraction := fractionDigits places rest
  toString whole ++ (if fraction.isEmpty then "" else "." ++ fraction) ++ unit

/-- A span in the largest of seconds, milliseconds, microseconds and nanoseconds that leaves a
whole part. -/
def text (s : Span) : String :=
  if 1000000000 ≤ s.nanos then inUnit s.wholeSeconds 9 s.subNanos "s"
  else if 1000000 ≤ s.nanos then inUnit (s.nanos / 1000000) 6 (s.nanos % 1000000) "ms"
  else if 1000 ≤ s.nanos then inUnit (s.nanos / 1000) 3 (s.nanos % 1000) "µs"
  else toString s.nanos ++ "ns"

end Span

end Switchboard
