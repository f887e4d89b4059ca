import Switchboard.Breaker.Basic
import Switchboard.Console.Transcript
import Switchboard.Http.Retry

/-!
# The status of the program

* `status` : the settings in force, in words.
-/

namespace Switchboard.Console

/-- Milliseconds in words. -/
def millis (ms : Nat) : String := (Span.ofMillis ms).text

/-- The network, the collection of replies and the orchestration. -/
def networkLines (s : Settings) : List String :=
  [ "Network:",
    "  queue size:        " ++ toString s.network.queueSize.toNat,
    "  fallback:          " ++ s.network.fallback.getD "(disabled)",
    "",
    "Aggregator:",
    "  default timeout:   " ++ millis s.aggregator.defaultTimeoutMs.toNat,
    "  sweep interval:    " ++ millis s.aggregator.sweepInterval,
    "",
    "Orchestrator:",
    "  per capability:    " ++ millis s.orchestrator.capabilityTimeoutMs.toNat,
    "  per request:       " ++ millis s.orchestrator.requestTimeoutMs.toNat,
    ""]

/-- The limits of circuit breakers. -/
def breakerLines (p : BreakerPolicy) : List String :=
  [ "Circuit breaker:",
    "  failure threshold: " ++ toString p.failureThreshold,
    "  recovery timeout:  " ++ millis p.recoveryTimeout,
    "  half-open probes:  " ++ toString p.halfOpenMaxCalls,
    ""]

/-- The pauses between attempts, or a dash. -/
def backoffText (p : RetryPolicy) : String :=
  if p.maxRetries = 0 then "-"
  else ", ".intercalate ((List.range p.maxRetries).map fun i => (p.delay i).text)

/-- Which failures are tried again. -/
def retryLines (p : RetryPolicy) : List String :=
  let codes := p.statusCodes.map fun code => toString code.toNat
  [ "Retry:",
    "  max retries:       " ++ toString p.maxRetries,
    "  backoff:           " ++ backoffText p,
    "  on timeout:        " ++ truth p.retryOnTimeout,
    "  on connect error:  " ++ truth p.retryOnConnectionError,
    "  on status:         [" ++ ", ".intercalate codes ++ "]",
    ""]

/-- How external services are called. -/
def httpLines (s : ResilienceSettings) : List String :=
  [ "HTTP:",
    "  proxy:             " ++ s.proxy.getD "(none)"]
  ++ (if s.noProxy.isEmpty then [] else ["  no proxy:          " ++ ", ".intercalate s.noProxy])
  ++ ["  request timeout:   " ++ toString s.requestTimeoutMs.toNat ++ "ms"]

/-- The settings in force; `place` is the name of the settings file. -/
def status (place : String) (h : Home) : Transcript :=
  let isThere := h.configFile.isThere
  let head := lines [
    "jarvis status", "=============", "",
    "Config:    " ++ place ++ (if isThere then " ✓" else " ✗ (not found, using defaults)")]
  match h.settings with
  | .error f => { text := head, failure := some f, home := h }
  | .ok s =>
    let body := networkLines s ++ breakerLines (.ofSettings s.resilience.breaker)
      ++ retryLines (.ofSettings s.resilience.retry) ++ httpLines s.resilience
    let hint := if isThere then [] else ["", "Run `jarvis config init` to write a config file."]
    { text := head ++ lines ([""] ++ body ++ hint), home := h }

end Switchboard.Console
