import Switchboard.Breaker.Registry

/-!
# Calls through a breaker

* `TimedCall` : work that takes some time and has a result, or breaks off;
* `BreakerRegistry.call` : refuse it, or do it and record its end, unless it is given up before.
-/

namespace Switchboard

/-- Work that takes so many milliseconds and has a result, or breaks off without one. -/
structure TimedCall (α : Type) where
  duration : Nat := 0
  result : Option (Except Fault α)

/-- How a call through a breaker ended. -/
inductive CallEnd (α : Type) where
  | refused (f : Fault)
  | returned (result : Except Fault α)
  | brokeOff
  | givenUp

namespace BreakerRegistry

/-- A call through the breaker of a name, given up after `patience` milliseconds if it takes longer
than that; also the time when it ended. -/
def call {α : Type} (r : BreakerRegistry) (name : String) (now : Nat) (work : TimedCall α)
    (patience : Option Nat := none) : BreakerRegistry × CallEnd α × Nat :=
  match r.enter name now with
  | (r, .error f) => (r, .refused f, now)
  | (r, .ok permit) =>
    let settleAt := fun (time : Nat) (how : Settlement) =>
      r.update name fun b => b.settle time permit how
    match patience.filter (· < work.duration), work.result with
    | some ms, _ => (settleAt (now + ms) .abandoned, .givenUp, now + ms)
    | none, none =>
      (settleAt (now + work.duration) .abandoned, .brokeOff, now + work.duration)
    | none, some result =>
      (settleAt (now + work.duration) (Breaker.settlementOf result), .returned result,
        now + work.duration)

end BreakerRegistry

end Switchboard
