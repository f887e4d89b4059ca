import Switchboard.Breaker.Registry
import Switchboard.Http.Retry

/-!
# Requests behind a breaker

A breaker before a client that tries again counts a request once, whatever number of attempts it
took.

* `GuardedClient` : a retry policy behind a breaker; `GuardedClient.forService` : for one service;
* `GuardedClient.request` : refuse the request, or run it and record its result.
-/

namespace Switchboard

/-- A client that tries again, behind a breaker. -/
structure GuardedClient where
  retry : RetryPolicy
  breaker : NamedBreaker
  deriving Inhabited

namespace GuardedClient

/-- The client of a service, with the limits of the settings. -/
def forService (service : String) (s : ResilienceSettings) : GuardedClient where
  retry := .ofSettings s.retry
  breaker := { name := service, policy := .ofSettings s.breaker }

/-- Refuse a request, or run it and record its result. -/
def request (c : GuardedClient) (request : HttpRequest) (exchange : Nat → Exchange × Nat)
    (now : Nat) : GuardedClient × RetryPolicy.Outcome :=
  match c.breaker.enter now with
  | (breaker, .error fault) => ({ c with breaker }, ⟨[], .error fault, now⟩)
  | (breaker, .ok permit) =>
    let outcome := c.retry.run request exchange now
    let how := Breaker.settlementOf outcome.result
    ({ c with breaker := breaker.settle outcome.endedAt permit how }, outcome)

end GuardedClient

end Switchboard
