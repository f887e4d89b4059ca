import Switchboard.Http.Basic
import Switchboard.Settings
import Switchboard.Time.Span

/-!
# Trying again

* `RetryPolicy` : which ends of an exchange are tried again; `RetryPolicy.delay` : the pause after
  an attempt, growing by a constant factor up to a limit;
* `RetryPolicy.verdict` : try again, or the result of the request;
* `RetryPolicy.run` : a request with all its attempts, over exchanges that take any time.
-/

namespace Switchboard

/-- Which exchanges are tried again, how often and after what pause. -/
structure RetryPolicy where
  maxRetries : Nat
  baseDelay : Span
  maxDelay : Span
  exponentialBase : Float
  retryOnTimeout : Bool
  retryOnConnectionError : Bool
  retryOnStatusCodes : List UInt16
  deriving DecidableEq, Inhabited

namespace RetryPolicy

/-- `acc * x ^ n` by repeated squaring, from the lowest bit of `n`. -/
def power (acc x : Float) (n : Nat) : Float :=
  if n = 0 then acc
  else power (if n % 2 = 1 then acc * x else acc) (x * x) (n / 2)
termination_by n

/-- The policy of a settings section. -/
def ofSettings (s : RetrySettings) : RetryPolicy where
  maxRetries := s.maxRetries.toNat
  baseDelay := .ofMillis s.baseDelayMs.toNat
  maxDelay := .ofMillis s.maxDelayMs.toNat
  exponentialBase := s.exponentialBase
  retryOnTimeout := s.retryOnTimeout
  retryOnConnectionError := s.retryOnConnectionError
  retryOnStatusCodes := s.retryOnStatusCodes

/-- Whether an answer with this status is tried again. -/
def retriesStatus (p : RetryPolicy) (status : UInt16) : Bool :=
  p.retryOnStatusCodes.contains status

/-- The statuses that are tried again, in order and without repetition. -/
def statusCodes (p : RetryPolicy) : List UInt16 :=
  p.retryOnStatusCodes.eraseDups.mergeSort (· ≤ ·)

/-- The pause after an attempt, counted from zero. -/
def delay (p : RetryPolicy) (attempt : Nat) : Span :=
  let factor := power 1.0 p.exponentialBase (min attempt (Nat.pow 2 31 - 1))
  let seconds := p.baseDelay.seconds * factor
  if seconds.isNaN || seconds.isInf || p.maxDelay.seconds ≤ seconds then p.maxDelay
  else .ofSeconds seconds

/-- The fault of a status that was tried too often. -/
def statusFault (url : String) (status : UInt16) (attempts : Nat) : Fault :=
  .unavailable ("Service error from " ++ url ++ ": HTTP " ++ toString status.toNat)
    (some (if status = 429 then 60 else 30)) (some status) (some (UInt32.ofNat attempts))

/-- The fault of a request that got no answer in time. -/
def timeoutFault (url : String) (attempts : Nat) : Fault :=
  .timeout ("Request to " ++ url ++ " timed out after " ++ toString attempts ++ " attempts")
    (some (UInt32.ofNat attempts))

/-- The fault of a request that found nobody to answer it. -/
def connectionFault (url : String) (attempts : Nat) : Fault :=
  .unavailable ("Failed to connect to " ++ url ++ " after " ++ toString attempts ++ " attempts")
    (some 60) none (some (UInt32.ofNat attempts))

/-- Whether the end of an exchange may be tried again. -/
def isRetryable (p : RetryPolicy) : Exchange → Bool
  | .answered r => p.retriesStatus r.status
  | .timedOut _ => p.retryOnTimeout
  | .notConnected _ => p.retryOnConnectionError
  | .failed _ => false

/-- The result of a request whose last exchange ended so, after so many attempts. -/
def result (p : RetryPolicy) (url : String) (attempts : Nat) : Exchange → Except Fault HttpResponse
  | .answered r =>
    if p.retriesStatus r.status then .error (statusFault url r.status attempts) else .ok r
  | .timedOut _ => .error (timeoutFault url attempts)
  | .notConnected _ => .error (connectionFault url attempts)
  | .failed text => .error (.network ("Request to " ++ url ++ " failed: " ++ text))

/-- An attempt: what was sent and when, how the exchange ended, and the pause made after it, if there
was another attempt. -/
structure Attempt where
  request : HttpRequest
  sentAt : Nat
  exchange : Exchange
  pause : Option Span := none
  deriving DecidableEq, Repr, Inhabited

/-- A request with all its attempts: its result and when it was there. -/
structure Outcome where
  attempts : List Attempt
  result : Except Fault HttpResponse
  endedAt : Nat
  deriving Inhabited

/-- Send a request until it settles or `left` retries are used up. `exchange i` is the end of the
exchange of attempt `i` and how long it takes, in milliseconds. -/
def runFrom (p : RetryPolicy) (request : HttpRequest) (exchange : Nat → Exchange × Nat) :
    (left attempt now : Nat) → Outcome
  | 0, attempt, now =>
    let (e, taken) := exchange attempt
    ⟨[⟨request, now, e, none⟩], p.result request.url (attempt + 1) e, now + taken⟩
  | left + 1, attempt, now =>
    let (e, taken) := exchange attempt
    if p.isRetryable e then
      let pause := p.delay attempt
      let rest := runFrom p request exchange left (attempt + 1) (now + taken + pause.ceilMillis)
      { rest with attempts := ⟨request, now, e, some pause⟩ :: rest.attempts }
    else ⟨[⟨request, now, e, none⟩], p.result request.url (attempt + 1) e, now + taken⟩

/-- Send a request until it settles or the retries are used up. -/
def run (p : RetryPolicy) (request : HttpRequest) (exchange : Nat → Exchange × Nat) (now : Nat) :
    Outcome :=
  p.runFrom request exchange p.maxRetries 0 now

end RetryPolicy

end Switchboard
