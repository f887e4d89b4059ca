import Switchboard.Fault
import Switchboard.Settings
import Switchboard.Time.Span

/-!
# Circuit breakers

A breaker stands before a service. Closed, it lets every call through and counts failures in a
row; at the threshold it opens and refuses calls until the recovery time has passed since the last
failure. Then it is half-open and lets a few trial calls through: one success closes it, one
failure opens it again. Times are milliseconds.

* `BreakerPolicy` : the limits; `Breaker` : the state; `Permit` : a call that was let through;
* `Breaker.enter` : let a call through or refuse it;
* `Breaker.settle` : the end of a call; a trial given up counts as failed while its half-open
  period lasts;
* `Breaker.recordSuccess`, `Breaker.recordFailure`, `Breaker.reset` : the other events.
-/

namespace Switchboard

/-- When a breaker opens and how it recovers. -/
structure BreakerPolicy where
  /-- Failures in a row that open the breaker. -/
  failureThreshold : Nat
  /-- Milliseconds from the last failure until calls are tried again. -/
  recoveryTimeout : Nat
  /-- Trial calls let through at a time. -/
  halfOpenMaxCalls : Nat
  deriving DecidableEq, Repr, Inhabited

namespace BreakerPolicy

/-- The limits of a settings section, just as they stand. -/
def exactly (s : BreakerSettings) : BreakerPolicy :=
  ⟨s.failureThreshold.toNat, s.recoveryTimeoutMs.toNat, s.halfOpenMaxCalls.toNat⟩

/-- The limits of a settings section; both counts are at least one. -/
def ofSettings (s : BreakerSettings) : BreakerPolicy :=
  ⟨max s.failureThreshold.toNat 1, s.recoveryTimeoutMs.toNat, max s.halfOpenMaxCalls.toNat 1⟩

end BreakerPolicy

/-- Whether calls are let through, refused or tried. -/
inductive BreakerState where
  | closed
  | opened
  | halfOpen
  deriving DecidableEq, Repr, Inhabited

/-- The name of a state. -/
def BreakerState.name : BreakerState → String
  | closed => "closed"
  | opened => "open"
  | halfOpen => "half_open"

/-- What a breaker remembers. -/
structure Breaker where
  state : BreakerState := .closed
  failureCount : Nat := 0
  /-- When the last failure was recorded. -/
  lastFailure : Option Nat := none
  /-- Trial calls under way. -/
  halfOpenCalls : Nat := 0
  /-- How often the breaker became half-open. -/
  epoch : Nat := 0
  deriving DecidableEq, Repr, Inhabited

/-- How a call was let through. -/
inductive Admission where
  | normal
  /-- As one of the few calls of a half-open breaker. -/
  | trial
  deriving DecidableEq, Repr, Inhabited

/-- A call that was let through; trials belong to the half-open period they started in. -/
structure Permit where
  admission : Admission
  epoch : Nat
  deriving DecidableEq, Repr, Inhabited

/-- Why a call was refused. -/
inductive Rejection where
  /-- The breaker is open for at least so many more seconds. -/
  | opened (retryAfter : Nat)
  /-- All trial calls are under way. -/
  | probing
  deriving DecidableEq, Repr, Inhabited

/-- The fault of a call refused by the breaker of the given name. -/
def Rejection.fault (name : String) : Rejection → Fault
  | opened retryAfter =>
    .unavailable ("Circuit breaker '" ++ name ++ "' is open") (some (UInt64.ofNat retryAfter))
      none none
  | probing =>
    .unavailable ("Circuit breaker '" ++ name ++ "' is half-open, probe in flight") (some 5)
      none none

/-- How a call that was let through ended. -/
inductive Settlement where
  | success
  | failure
  /-- Given up without an outcome. -/
  | abandoned
  deriving DecidableEq, Repr, Inhabited

/-- Milliseconds as whole seconds, rounded up. Beyond `2 ^ 44` seconds the number of milliseconds
is first rounded to a double's 53 bits of seconds. -/
def secondsUp (ms : Nat) : Nat :=
  if ms < Nat.pow 2 44 * 1000 then (ms + 999) / 1000
  else
    let bits := Nat.log2 (ms / 1000) + 1
    if bits ≤ 53 then
      let scale := Nat.pow 2 (53 - bits)
      (Span.roundEven (ms * scale) 1000 + (scale - 1)) / scale
    else
      let unit := Nat.pow 2 (bits - 53)
      Span.roundEven (ms / 1000) unit * unit

namespace Breaker

/-- The milliseconds for which an open breaker still refuses calls. -/
def refusalLeft (p : BreakerPolicy) (now : Nat) (b : Breaker) : Option Nat :=
  match b.state, b.lastFailure with
  | .opened, some t =>
    if now - t < p.recoveryTimeout then some (p.recoveryTimeout - (now - t)) else none
  | _, _ => none

/-- Start a half-open period. -/
def beginHalfOpen (b : Breaker) : Breaker :=
  { b with state := .halfOpen, halfOpenCalls := 0, epoch := b.epoch + 1 }

/-- Let a call through, or refuse it. An open breaker becomes half-open once the recovery time
has passed. -/
def enter (p : BreakerPolicy) (now : Nat) (b : Breaker) : Breaker × Except Rejection Permit :=
  match b.refusalLeft p now with
  | some left => (b, .error (.opened (max (secondsUp left) 1)))
  | none =>
    let b := if b.state = .opened then b.beginHalfOpen else b
    if b.state = .halfOpen then
      if p.halfOpenMaxCalls ≤ b.halfOpenCalls then (b, .error .probing)
      else ({ b with halfOpenCalls := b.halfOpenCalls + 1 }, .ok ⟨.trial, b.epoch⟩)
    else (b, .ok ⟨.normal, b.epoch⟩)

/-- A call succeeded: a half-open breaker closes, a closed one forgets its failures. -/
def recordSuccess (b : Breaker) : Breaker :=
  match b.state with
  | .halfOpen =>
    { b with state := .closed, failureCount := 0, halfOpenCalls := 0, lastFailure := none }
  | .closed => { b with failureCount := 0 }
  | .opened => b

/-- A call failed: a half-open breaker opens again, a closed one opens at the threshold. -/
def recordFailure (p : BreakerPolicy) (now : Nat) (b : Breaker) : Breaker :=
  let b := { b with failureCount := b.failureCount + 1, lastFailure := some now }
  match b.state with
  | .halfOpen => { b with state := .opened, halfOpenCalls := 0 }
  | .closed => if p.failureThreshold ≤ b.failureCount then { b with state := .opened } else b
  | .opened => b

/-- A trial was given up: the breaker opens again if the trial's half-open period still lasts. -/
def abandonTrial (now epoch : Nat) (b : Breaker) : Breaker :=
  if b.state = .halfOpen ∧ b.epoch = epoch then
    { b with
      state := .opened
      failureCount := b.failureCount + 1
      lastFailure := some now
      halfOpenCalls := 0 }
  else b

/-- The end of a call that was let through. -/
def settle (p : BreakerPolicy) (now : Nat) (permit : Permit) (how : Settlement) (b : Breaker) :
    Breaker :=
  match how with
  | .success => b.recordSuccess
  | .failure => b.recordFailure p now
  | .abandoned =>
    match permit.admission with
    | .trial => b.abandonTrial now permit.epoch
    | .normal => b

/-- Close the breaker and forget its failures. -/
def reset (b : Breaker) : Breaker :=
  { b with state := .closed, failureCount := 0, lastFailure := none, halfOpenCalls := 0 }

/-- How a call ends whose work has a result. -/
def settlementOf {ε α : Type} : Except ε α → Settlement
  | .ok _ => .success
  | .error _ => .failure

end Breaker

end Switchboard
