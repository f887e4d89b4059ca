import Switchboard.Json.Record
import Switchboard.Text.Blank

/-!
# Settings

One section for each part of the program. Every field has a default, so a file names only what
it changes: a field that is missing has the default with which it is read, a section that is
missing has all the defaults of its structure.

* `NetworkSettings`, `AggregatorSettings`, `OrchestratorSettings`, `ResilienceSettings` with
  `BreakerSettings` and `RetrySettings` : the sections; `Settings` : all of them;
* `read` : a section from JSON; `toJson` : a section in JSON, every field written.
-/

namespace Switchboard

/-- The message queue and where unanswerable requests go. -/
structure NetworkSettings where
  /-- How many messages the queue holds. -/
  queueSize : UInt64 := 1000
  /-- The capability asked when nobody provides the requested one; blank for none. -/
  fallbackCapability : String := "chat"
  deriving DecidableEq, Inhabited

namespace NetworkSettings

/-- The capability asked when nobody provides the requested one. -/
def fallback (s : NetworkSettings) : Option String :=
  let name := Text.trim s.fallbackCapability
  if name.isEmpty then none else some name

/-- The section in JSON. -/
def toJson (s : NetworkSettings) : Json :=
  .obj [
    ("queueSize", .nat s.queueSize.toNat),
    ("fallbackCapability", .str s.fallbackCapability)]

/-- The section from JSON. -/
def read : Reading NetworkSettings := fun room w => do
  let r ← Record.of? ["queueSize", "fallbackCapability"] room w
  return {
    queueSize := ← r.orElse? "queueSize" 1000 .word64
    fallbackCapability := ← r.orElse? "fallbackCapability" "chat" .string }

end NetworkSettings

/-- How long replies are collected. -/
structure AggregatorSettings where
  defaultTimeoutMs : UInt64 := 30000
  /-- How often expired collections are resolved. -/
  sweepIntervalMs : UInt64 := 1000
  deriving DecidableEq, Inhabited

namespace AggregatorSettings

/-- Milliseconds from one sweep to the next, at least one. -/
def sweepInterval (s : AggregatorSettings) : Nat := max s.sweepIntervalMs.toNat 1

/-- The section in JSON. -/
def toJson (s : AggregatorSettings) : Json :=
  .obj [
    ("defaultTimeoutMs", .nat s.defaultTimeoutMs.toNat),
    ("sweepIntervalMs", .nat s.sweepIntervalMs.toNat)]

/-- The section from JSON. -/
def read : Reading AggregatorSettings := fun room w => do
  let r ← Record.of? ["defaultTimeoutMs", "sweepIntervalMs"] room w
  return {
    defaultTimeoutMs := ← r.orElse? "defaultTimeoutMs" 30000 .word64
    sweepIntervalMs := ← r.orElse? "sweepIntervalMs" 1000 .word64 }

end AggregatorSettings

/-- How long an orchestrated request may take. -/
structure OrchestratorSettings where
  /-- The budget of a single capability request. -/
  capabilityTimeoutMs : UInt64 := 15000
  /-- The budget of a whole request. -/
  requestTimeoutMs : UInt64 := 60000
  deriving DecidableEq, Inhabited

namespace OrchestratorSettings

/-- The section in JSON. -/
def toJson (s : OrchestratorSettings) : Json :=
  .obj [
    ("capabilityTimeoutMs", .nat s.capabilityTimeoutMs.toNat),
    ("requestTimeoutMs", .nat s.requestTimeoutMs.toNat)]

/-- The section from JSON. -/
def read : Reading OrchestratorSettings := fun room w => do
  let r ← Record.of? ["capabilityTimeoutMs", "requestTimeoutMs"] room w
  return {
    capabilityTimeoutMs := ← r.orElse? "capabilityTimeoutMs" 15000 .word64
    requestTimeoutMs := ← r.orElse? "requestTimeoutMs" 60000 .word64 }

end OrchestratorSettings

/-- When a circuit breaker opens and how it recovers. -/
structure BreakerSettings where
  failureThreshold : UInt32 := 5
  recoveryTimeoutMs : UInt64 := 60000
  halfOpenMaxCalls : UInt32 := 1
  deriving DecidableEq, Inhabited

namespace BreakerSettings

/-- The section in JSON. -/
def toJson (s : BreakerSettings) : Json :=
  .obj [
    ("failureThreshold", .nat s.failureThreshold.toNat),
    ("recoveryTimeoutMs", .nat s.recoveryTimeoutMs.toNat),
    ("halfOpenMaxCalls", .nat s.halfOpenMaxCalls.toNat)]

/-- The section from JSON. -/
def read : Reading BreakerSettings := fun room w => do
  let r ← Record.of? ["failureThreshold", "recoveryTimeoutMs", "halfOpenMaxCalls"] room w
  return {
    failureThreshold := ← r.orElse? "failureThreshold" 5 .word32
    recoveryTimeoutMs := ← r.orElse? "recoveryTimeoutMs" 60000 .word64
    halfOpenMaxCalls := ← r.orElse? "halfOpenMaxCalls" 1 .word32 }

end BreakerSettings

/-- Which failures are tried again, how often and after what delay. -/
structure RetrySettings where
  maxRetries : UInt32 := 3
  baseDelayMs : UInt64 := 1000
  maxDelayMs : UInt64 := 60000
  exponentialBase : Float := 2.0
  retryOnTimeout : Bool := true
  retryOnConnectionError : Bool := true
  retryOnStatusCodes : List UInt16 := [429, 500, 502, 503, 504]
  deriving DecidableEq, Inhabited

namespace RetrySettings

/-- The section in JSON. -/
def toJson (s : RetrySettings) : Json :=
  .obj [
    ("maxRetries", .nat s.maxRetries.toNat),
    ("baseDelayMs", .nat s.baseDelayMs.toNat),
    ("maxDelayMs", .nat s.maxDelayMs.toNat),
    ("exponentialBase", .ofFloat s.exponentialBase),
    ("retryOnTimeout", .bool s.retryOnTimeout),
    ("retryOnConnectionError", .bool s.retryOnConnectionError),
    ("retryOnStatusCodes", .arr (s.retryOnStatusCodes.map fun code => .nat code.toNat))]

/-- The fields of the section, in order. -/
def fieldNames : List String :=
  ["maxRetries", "baseDelayMs", "maxDelayMs", "exponentialBase", "retryOnTimeout",
    "retryOnConnectionError", "retryOnStatusCodes"]

/-- The section from JSON. -/
def read : Reading RetrySettings := fun room w => do
  let r ← Record.of? fieldNames room w
  return {
    maxRetries := ← r.orElse? "maxRetries" 3 .word32
    baseDelayMs := ← r.orElse? "baseDelayMs" 1000 .word64
    maxDelayMs := ← r.orElse? "maxDelayMs" 60000 .word64
    exponentialBase := ← r.orElse? "exponentialBase" 2.0 .double
    retryOnTimeout := ← r.orElse? "retryOnTimeout" true .bool
    retryOnConnectionError := ← r.orElse? "retryOnConnectionError" true .bool
    retryOnStatusCodes :=
      ← r.orElse? "retryOnStatusCodes" [429, 500, 502, 503, 504] (.list .word16) }

end RetrySettings

/-- How external services are called. -/
structure ResilienceSettings where
  breaker : BreakerSettings := {}
  retry : RetrySettings := {}
  /-- The proxy for calls to external services. -/
  proxy : Option String := none
  /-- Hosts that are called without the proxy. -/
  noProxy : List String := []
  requestTimeoutMs : UInt64 := 30000
  deriving DecidableEq, Inhabited

namespace ResilienceSettings

/-- The section in JSON. -/
def toJson (s : ResilienceSettings) : Json :=
  .obj [
    ("breaker", s.breaker.toJson),
    ("retry", s.retry.toJson),
    ("proxy", Json.ofOption .str s.proxy),
    ("noProxy", Json.strings s.noProxy),
    ("requestTimeoutMs", .nat s.requestTimeoutMs.toNat)]

/-- The section from JSON. -/
def read : Reading ResilienceSettings := fun room w => do
  let r ← Record.of? ["breaker", "retry", "proxy", "noProxy", "requestTimeoutMs"] room w
  return {
    breaker := ← r.orElse? "breaker" {} BreakerSettings.read
    retry := ← r.orElse? "retry" {} RetrySettings.read
    proxy := ← r.orElse? "proxy" none (Reading.nullable .string)
    noProxy := ← r.orElse? "noProxy" [] (.list .string)
    requestTimeoutMs := ← r.orElse? "requestTimeoutMs" 30000 .word64 }

end ResilienceSettings

/-- All settings. -/
structure Settings where
  network : NetworkSettings := {}
  aggregator : AggregatorSettings := {}
  orchestrator : OrchestratorSettings := {}
  resilience : ResilienceSettings := {}
  deriving DecidableEq, Inhabited

namespace Settings

/-- All settings in JSON. -/
def toJson (s : Settings) : Json :=
  .obj [
    ("network", s.network.toJson),
    ("aggregator", s.aggregator.toJson),
    ("orchestrator", s.orchestrator.toJson),
    ("resilience", s.resilience.toJson)]

/-- All settings from JSON. -/
def read : Reading Settings := fun room w => do
  let r ← Record.of? ["network", "aggregator", "orchestrator", "resilience"] room w
  return {
    network := ← r.orElse? "network" {} NetworkSettings.read
    aggregator := ← r.orElse? "aggregator" {} AggregatorSettings.read
    orchestrator := ← r.orElse? "orchestrator" {} OrchestratorSettings.read
    resilience := ← r.orElse? "resilience" {} ResilienceSettings.read }

end Settings

end Switchboard
