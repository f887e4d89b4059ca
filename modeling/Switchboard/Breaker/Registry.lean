import Switchboard.Breaker.Basic

/-!
# Named breakers

* `NamedBreaker` : a breaker with its name and limits;
* `BreakerRegistry` : one breaker for each name, made on first use;
* `BreakerRegistry.ensure`, `BreakerRegistry.update` : make a breaker; change it;
* `BreakerRegistry.sorted` : all breakers by name.
-/

namespace Switchboard

/-- A breaker with its name and limits. -/
structure NamedBreaker where
  name : String
  policy : BreakerPolicy
  breaker : Breaker := {}
  deriving DecidableEq, Repr, Inhabited

namespace NamedBreaker

/-- Let a call through, or refuse it. -/
def enter (b : NamedBreaker) (now : Nat) : NamedBreaker × Except Fault Permit :=
  let (breaker, answer) := b.breaker.enter b.policy now
  ({ b with breaker }, answer.mapError (·.fault b.name))

/-- The end of a call that was let through. -/
def settle (b : NamedBreaker) (now : Nat) (permit : Permit) (how : Settlement) : NamedBreaker :=
  { b with breaker := b.breaker.settle b.policy now permit how }

/-- The state of a breaker and its limits in JSON. -/
def toJson (b : NamedBreaker) (now : Nat) : Json :=
  .obj [
    ("name", .str b.name),
    ("state", .str b.breaker.state.name),
    ("state_str", .str b.breaker.state.name),
    ("failure_count", .nat b.breaker.failureCount),
    ("failure_threshold", .nat b.policy.failureThreshold),
    ("recovery_timeout_ms", .nat b.policy.recoveryTimeout),
    ("half_open_calls", .nat b.breaker.halfOpenCalls),
    ("last_failure_ms_ago", Json.ofOption .nat (b.breaker.lastFailure.map fun t => now - t))]

end NamedBreaker

/-- One breaker for each name. -/
structure BreakerRegistry where
  /-- The limits of breakers made without limits of their own. -/
  standard : BreakerPolicy
  breakers : List NamedBreaker := []
  deriving DecidableEq, Repr, Inhabited

namespace BreakerRegistry

/-- The breaker of a name. -/
def get? (r : BreakerRegistry) (name : String) : Option NamedBreaker :=
  r.breakers.find? (·.name == name)

/-- Make the breaker of a name, unless there is one. -/
def ensureWith (r : BreakerRegistry) (name : String) (policy : BreakerPolicy) : BreakerRegistry :=
  if (r.get? name).isSome then r else { r with breakers := r.breakers ++ [{ name, policy }] }

/-- Make the breaker of a name with the standard limits, unless there is one. -/
def ensure (r : BreakerRegistry) (name : String) : BreakerRegistry := r.ensureWith name r.standard

/-- The breaker of a name, as it would be made. -/
def getD (r : BreakerRegistry) (name : String) : NamedBreaker :=
  (r.get? name).getD { name, policy := r.standard }

/-- Put a breaker in the place of the one with its name. -/
def put (r : BreakerRegistry) (b : NamedBreaker) : BreakerRegistry :=
  { r with breakers := r.breakers.map fun old => if old.name == b.name then b else old }

/-- Change the breaker of a name. -/
def update (r : BreakerRegistry) (name : String) (change : NamedBreaker → NamedBreaker) :
    BreakerRegistry :=
  let r := r.ensure name
  r.put (change (r.getD name))

/-- Let a call through the breaker of a name, or refuse it. -/
def enter (r : BreakerRegistry) (name : String) (now : Nat) :
    BreakerRegistry × Except Fault Permit :=
  let r := r.ensure name
  let (b, answer) := (r.getD name).enter now
  (r.put b, answer)

/-- Close every breaker. -/
def resetAll (r : BreakerRegistry) : BreakerRegistry :=
  { r with breakers := r.breakers.map fun b => { b with breaker := b.breaker.reset } }

/-- All breakers by name. -/
def sorted (r : BreakerRegistry) : List NamedBreaker :=
  r.breakers.mergeSort fun a b => a.name ≤ b.name

end BreakerRegistry

end Switchboard
