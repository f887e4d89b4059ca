import Switchboard.Http.Guarded
import Switchboard.Proofs.Breaker.Traffic
import Switchboard.Proofs.Http.Retries
import Switchboard.Proofs.Runs

/-!
# A guarded client in use

Requests come one after another, each some time after the one before it has ended. To the breaker a
request is one call, which comes and ends, however many exchanges it takes in between.

* `Session` : a client in use, over a transport that answers by a script; `Session.step` : one
  request;
* `Session.CountsOnce` : a request is refused, or runs and is recorded once; `countsOnce_step`;
* `Session.traffic`, `Session.calls` : what the breaker sees of a session and of a request;
* `traffic_step`, `one_outcome_per_request` : and that is all it sees.
-/

namespace Switchboard

/-- A client in use. -/
structure Session where
  client : GuardedClient
  now : Nat := 0
  /-- How many exchanges of the script were made. -/
  exchanged : Nat := 0

/-- A request that comes some time after the one before it has ended. -/
structure Visit where
  wait : Nat
  request : HttpRequest
  deriving DecidableEq, Repr

namespace Session

/-- When a request comes. -/
def arrival (s : Session) (e : Visit) : Nat := s.now + e.wait

/-- What becomes of the client and of a request, whose exchanges are the next ones of the script. -/
def serve (script : Nat → Exchange × Nat) (s : Session) (e : Visit) :
    GuardedClient × RetryPolicy.Outcome :=
  s.client.request e.request (fun i => script (s.exchanged + i)) (s.arrival e)

/-- One request. -/
def step (script : Nat → Exchange × Nat) (s : Session) (e : Visit) : Session where
  client := (s.serve script e).1
  now := (s.serve script e).2.endedAt
  exchanged := s.exchanged + (s.serve script e).2.attempts.length

/-- A request is refused without an exchange, which leaves the client as it was; or it is let
through, makes as many exchanges as its retries allow, and one outcome is recorded when it ends. -/
inductive CountsOnce (script : Nat → Exchange × Nat) (s : Session) (e : Visit) : Prop
  | refused (why : Rejection)
    (hentered : (s.client.breaker.breaker.enter s.client.breaker.policy (s.arrival e)).2 = .error why)
    (houtcome : (s.serve script e).2 = ⟨[], .error (why.fault s.client.breaker.name), s.arrival e⟩)
    (hclient : (s.step script e).client = s.client)
    (hexchanged : (s.step script e).exchanged = s.exchanged)
  | recorded (b : Breaker) (permit : Permit)
    (hentered : s.client.breaker.breaker.enter s.client.breaker.policy (s.arrival e) = (b, .ok permit))
    (houtcome : (s.serve script e).2 =
      s.client.retry.run e.request (fun i => script (s.exchanged + i)) (s.arrival e))
    (hfirst : s.exchanged + 1 ≤ (s.step script e).exchanged)
    (hlast : (s.step script e).exchanged ≤ s.exchanged + (s.client.retry.maxRetries + 1))
    (hrecorded : (s.step script e).client.breaker.breaker =
      match (s.serve script e).2.result with
      | .ok _ => b.recordSuccess
      | .error _ => b.recordFailure s.client.breaker.policy (s.step script e).now)

end Session

/-! ## One request -/

namespace GuardedClient

variable {c : GuardedClient} {request : HttpRequest} {exchange : Nat → Exchange × Nat} {now : Nat}
  {b : Breaker}

theorem request_of_refused {why : Rejection}
    (h : c.breaker.breaker.enter c.breaker.policy now = (b, .error why)) :
    c.request request exchange now =
      ({ c with breaker := { c.breaker with breaker := b } },
        ⟨[], .error (why.fault c.breaker.name), now⟩) := by
  simp [GuardedClient.request, NamedBreaker.enter, h, Except.mapError]

theorem request_of_entered {permit : Permit}
    (h : c.breaker.breaker.enter c.breaker.policy now = (b, .ok permit)) :
    let outcome := c.retry.run request exchange now
    c.request request exchange now =
      ({ c with
          breaker := { c.breaker with
            breaker := b.settle c.breaker.policy outcome.endedAt permit
              (Breaker.settlementOf outcome.result) } },
        outcome) := by
  simp [GuardedClient.request, NamedBreaker.enter, NamedBreaker.settle, h, Except.mapError]

end GuardedClient

namespace Session

variable {script : Nat → Exchange × Nat} {s : Session} {e : Visit} {b : Breaker}

theorem serve_of_refused (script : Nat → Exchange × Nat) {why : Rejection}
    (h : s.client.breaker.breaker.enter s.client.breaker.policy (s.arrival e) = (b, .error why)) :
    s.serve script e =
      ({ s.client with breaker := { s.client.breaker with breaker := b } },
        ⟨[], .error (why.fault s.client.breaker.name), s.arrival e⟩) :=
  GuardedClient.request_of_refused h

theorem serve_of_entered (script : Nat → Exchange × Nat) {permit : Permit}
    (h : s.client.breaker.breaker.enter s.client.breaker.policy (s.arrival e) = (b, .ok permit)) :
    let outcome :=
      s.client.retry.run e.request (fun i => script (s.exchanged + i)) (s.arrival e)
    s.serve script e =
      ({ s.client with
          breaker := { s.client.breaker with
            breaker := b.settle s.client.breaker.policy outcome.endedAt permit
              (Breaker.settlementOf outcome.result) } },
        outcome) :=
  GuardedClient.request_of_entered h

theorem countsOnce_step (hp : 1 ≤ s.client.breaker.policy.halfOpenMaxCalls) (e : Visit) :
    CountsOnce script s e := by
  rcases h : s.client.breaker.breaker.enter s.client.breaker.policy (s.arrival e) with
    ⟨b, why | permit⟩
  · obtain rfl := Breaker.enter_eq_error_of_probes hp h
    have hserve := serve_of_refused script h
    refine .refused why (by rw [h]) (by rw [hserve]) ?_ ?_
    · simp only [step, hserve]
    · simp only [step, hserve, List.length_nil, Nat.add_zero]
  · have hserve := serve_of_entered script h
    have hlength := s.client.retry.length_attempts e.request
      (fun i => script (s.exchanged + i)) (s.arrival e)
    have hmost := s.client.retry.retriesFrom_le (fun i => script (s.exchanged + i))
      s.client.retry.maxRetries 0
    refine .recorded b permit h (by rw [hserve]) ?_ ?_ ?_
    · simp only [step, hserve, hlength]
      omega
    · simp only [step, hserve, hlength]
      omega
    · simp only [step, hserve]
      split <;> rename_i hresult <;> rw [hresult] <;> rfl

/-! ## What the breaker sees -/

/-- The breaker of a session, with nobody under way. -/
def traffic (s : Session) : Traffic where
  now := s.now
  breaker := s.client.breaker.breaker

/-- A request as the breaker sees it: a call comes, and ends with one outcome if it was let
through. -/
def calls (script : Nat → Exchange × Nat) (s : Session) (e : Visit) : List BreakerEvent :=
  [.wait e.wait, .enter, .wait ((s.serve script e).2.endedAt - s.arrival e),
    .settle 0 (Breaker.settlementOf (s.serve script e).2.result)]

theorem policy_step (e : Visit) :
    (s.step script e).client.breaker.policy = s.client.breaker.policy := by
  rcases h : s.client.breaker.breaker.enter s.client.breaker.policy (s.arrival e) with
    ⟨b, why | permit⟩
  · simp only [step, serve_of_refused script h]
  · simp only [step, serve_of_entered script h]

theorem traffic_step (e : Visit) :
    (s.calls script e).foldl (Traffic.step s.client.breaker.policy) s.traffic =
      (s.step script e).traffic := by
  have hcome : s.traffic.step s.client.breaker.policy (.wait e.wait) =
      { s.traffic with now := s.arrival e } := rfl
  simp only [calls, List.foldl_cons, List.foldl_nil, hcome]
  rcases h : s.client.breaker.breaker.enter s.client.breaker.policy (s.arrival e) with
    ⟨b, why | permit⟩
  · rw [Traffic.step_enter_error h, Traffic.step_settle_none rfl]
    simp [Traffic.step, traffic, step, serve_of_refused script h]
  · have hended := s.client.retry.le_endedAt e.request
      (fun i => script (s.exchanged + i)) (s.arrival e)
    rw [Traffic.step_enter_ok h, Traffic.step_settle rfl]
    simp only [Traffic.step, traffic, step, serve_of_entered script h, Nat.add_sub_cancel' hended]
    rfl

/-- **A request is one call.** Each request of a session is refused or recorded once, and the
breaker goes through the session as one that is told of each request only that it comes and, if it
was let through, how it ends. -/
theorem one_outcome_per_request (script : Nat → Exchange × Nat) (s : Session)
    (hp : 1 ≤ s.client.breaker.policy.halfOpenMaxCalls) (visits : List Visit) :
    let met := encounters (step script) s visits
    (∀ m ∈ met, CountsOnce script m.before m.event) ∧
      (met.flatMap fun m => m.before.calls script m.event).foldl
          (Traffic.step s.client.breaker.policy) s.traffic =
        (visits.foldl (step script) s).traffic := by
  induction visits generalizing s with
  | nil => exact ⟨fun _ hm => absurd hm List.not_mem_nil, rfl⟩
  | cons e visits ih =>
    obtain ⟨hlater, htraffic⟩ := ih (s.step script e) (by rwa [policy_step])
    refine ⟨fun m hm => ?_, ?_⟩
    · rcases List.mem_cons.mp hm with rfl | hm
      · exact countsOnce_step hp e
      · exact hlater m hm
    · rw [policy_step] at htraffic
      rw [encounters, List.flatMap_cons, List.foldl_append, traffic_step]
      exact htraffic

/-- A request that is tried twice in vain is one failure, which opens a breaker that bears one. -/
theorem one_outcome_of_two_exchanges :
    let script : Nat → Exchange × Nat := fun _ => (.answered { status := 503 }, 2)
    let retry : RetryPolicy :=
      { maxRetries := 1
        baseDelay := .ofMillis 1
        maxDelay := .ofMillis 2
        exponentialBase := 2.0
        retryOnTimeout := true
        retryOnConnectionError := true
        retryOnStatusCodes := [503] }
    let s : Session := { client := ⟨retry, { name := "weather", policy := ⟨1, 60000, 1⟩ }⟩ }
    let visits : List Visit := [⟨3, .get "https://api.weather.gov"⟩]
    let met := encounters (step script) s visits
    let after := visits.foldl (step script) s
    1 ≤ s.client.breaker.policy.halfOpenMaxCalls ∧
      (∀ m ∈ met, CountsOnce script m.before m.event) ∧
      (met.flatMap fun m => m.before.calls script m.event).foldl
          (Traffic.step s.client.breaker.policy) s.traffic = after.traffic ∧
      after.exchanged = 2 ∧ after.client.breaker.breaker.failureCount = 1 ∧
      after.client.breaker.breaker.state = .opened := by
  intro script retry s visits met after
  have hp : 1 ≤ s.client.breaker.policy.halfOpenMaxCalls := by decide
  obtain ⟨hmet, htraffic⟩ := one_outcome_per_request script s hp visits
  exact ⟨hp, hmet, htraffic, rfl, rfl, rfl⟩

end Session

end Switchboard
