import Switchboard.Settings
import Switchboard.Proofs.Json.Remnants

/-!
# Settings with parts left out

A field may be missing from its section, and a section with all its fields. Either way the
settings that are read have the default of the field.

* `NetworkSettings.without`, …, `Settings.without` : settings with their defaults for what is
  missing;
* `RetrySettings.hasBase`, …, `Settings.hasBase` : the base of the delays, which JSON cannot hold
  unless it is finite, is missing or can be written;
* `NetworkSettings.restores`, …, `Settings.restores` : what is read of all that may be left of a
  section, and of all settings;
* `Settings.ofJson?_of_remnant` : settings are read, or refused for their base;
* `Settings.reads_what_is_left` : settings with a finite base.
-/

namespace Switchboard

open Reading

/-! ## Sections -/

/-- The section with its defaults where something is missing. -/
def NetworkSettings.without (s : NetworkSettings) (missing : Places) : NetworkSettings :=
  let d : NetworkSettings := {}
  { queueSize := missing.pick ["queueSize"] d.queueSize s.queueSize
    fallbackCapability :=
      missing.pick ["fallbackCapability"] d.fallbackCapability s.fallbackCapability }

theorem NetworkSettings.restores (s : NetworkSettings) :
    read.Restores s.toJson fun missing => some (s.without missing) := by
  refine .record rfl (by decide) fun gone r h => ?_
  have hsize := h.orElse?_plain "queueSize" 1000 (by simp) (takes_word64 s.queueSize) rfl
  have hfallback := h.orElse?_plain "fallbackCapability" "chat" (by simp)
    (takes_string s.fallbackCapability) rfl
  rw [hsize, hfallback]
  -- the defaults with which the fields are read are those of the section
  rfl

/-- The section with its defaults where something is missing. -/
def AggregatorSettings.without (s : AggregatorSettings) (missing : Places) : AggregatorSettings :=
  let d : AggregatorSettings := {}
  { defaultTimeoutMs := missing.pick ["defaultTimeoutMs"] d.defaultTimeoutMs s.defaultTimeoutMs
    sweepIntervalMs := missing.pick ["sweepIntervalMs"] d.sweepIntervalMs s.sweepIntervalMs }

theorem AggregatorSettings.restores (s : AggregatorSettings) :
    read.Restores s.toJson fun missing => some (s.without missing) := by
  refine .record rfl (by decide) fun gone r h => ?_
  have htimeout := h.orElse?_plain "defaultTimeoutMs" 30000 (by simp)
    (takes_word64 s.defaultTimeoutMs) rfl
  have hinterval := h.orElse?_plain "sweepIntervalMs" 1000 (by simp)
    (takes_word64 s.sweepIntervalMs) rfl
  rw [htimeout, hinterval]
  rfl

/-- The section with its defaults where something is missing. -/
def OrchestratorSettings.without (s : OrchestratorSettings) (missing : Places) :
    OrchestratorSettings :=
  let d : OrchestratorSettings := {}
  { capabilityTimeoutMs :=
      missing.pick ["capabilityTimeoutMs"] d.capabilityTimeoutMs s.capabilityTimeoutMs
    requestTimeoutMs := missing.pick ["requestTimeoutMs"] d.requestTimeoutMs s.requestTimeoutMs }

theorem OrchestratorSettings.restores (s : OrchestratorSettings) :
    read.Restores s.toJson fun missing => some (s.without missing) := by
  refine .record rfl (by decide) fun gone r h => ?_
  have hcapability := h.orElse?_plain "capabilityTimeoutMs" 15000 (by simp)
    (takes_word64 s.capabilityTimeoutMs) rfl
  have hrequest := h.orElse?_plain "requestTimeoutMs" 60000 (by simp)
    (takes_word64 s.requestTimeoutMs) rfl
  rw [hcapability, hrequest]
  rfl

/-- The section with its defaults where something is missing. -/
def BreakerSettings.without (s : BreakerSettings) (missing : Places) : BreakerSettings :=
  let d : BreakerSettings := {}
  { failureThreshold := missing.pick ["failureThreshold"] d.failureThreshold s.failureThreshold
    recoveryTimeoutMs :=
      missing.pick ["recoveryTimeoutMs"] d.recoveryTimeoutMs s.recoveryTimeoutMs
    halfOpenMaxCalls := missing.pick ["halfOpenMaxCalls"] d.halfOpenMaxCalls s.halfOpenMaxCalls }

theorem BreakerSettings.restores (s : BreakerSettings) :
    read.Restores s.toJson fun missing => some (s.without missing) := by
  refine .record rfl (by decide) fun gone r h => ?_
  have hthreshold := h.orElse?_plain "failureThreshold" 5 (by simp)
    (takes_word32 s.failureThreshold) rfl
  have hrecovery := h.orElse?_plain "recoveryTimeoutMs" 60000 (by simp)
    (takes_word64 s.recoveryTimeoutMs) rfl
  have hcalls := h.orElse?_plain "halfOpenMaxCalls" 1 (by simp)
    (takes_word32 s.halfOpenMaxCalls) rfl
  rw [hthreshold, hrecovery, hcalls]
  rfl

namespace RetrySettings

/-- The section with its defaults where something is missing. -/
def without (s : RetrySettings) (missing : Places) : RetrySettings :=
  let d : RetrySettings := {}
  { maxRetries := missing.pick ["maxRetries"] d.maxRetries s.maxRetries
    baseDelayMs := missing.pick ["baseDelayMs"] d.baseDelayMs s.baseDelayMs
    maxDelayMs := missing.pick ["maxDelayMs"] d.maxDelayMs s.maxDelayMs
    exponentialBase := missing.pick ["exponentialBase"] d.exponentialBase s.exponentialBase
    retryOnTimeout := missing.pick ["retryOnTimeout"] d.retryOnTimeout s.retryOnTimeout
    retryOnConnectionError :=
      missing.pick ["retryOnConnectionError"] d.retryOnConnectionError s.retryOnConnectionError
    retryOnStatusCodes :=
      missing.pick ["retryOnStatusCodes"] d.retryOnStatusCodes s.retryOnStatusCodes }

/-- The base is missing, or it is a number that can be written. -/
def hasBase (s : RetrySettings) (missing : Places) : Bool :=
  missing ["exponentialBase"] || s.exponentialBase.isFinite

theorem orElse?_exponentialBase (s : RetrySettings) {gone : Places} {r : Record} {fields : Fields}
    (h : r.Holds gone fields) (hmem : ("exponentialBase", .ofFloat s.exponentialBase) ∈ fields) :
    r.orElse? "exponentialBase" 2.0 .double =
      if s.hasBase gone.covers then
        some (gone.covers.pick ["exponentialBase"] 2.0 s.exponentialBase)
      else none := by
  have hplain : (Json.ofFloat s.exponentialBase).fields? = none := by
    unfold Json.ofFloat
    split <;> rfl
  have hleaf : double.Restores (.ofFloat s.exponentialBase) fun missing =>
      if missing [] || s.exponentialBase.isFinite then
        some (missing.pick [] 2.0 s.exponentialBase)
      else none :=
    .leaf (takes_double s.exponentialBase) hplain fun missing hthere => by
      rw [hthere, Bool.false_or, Places.pick, hthere, if_neg Bool.false_ne_true]
  exact h.orElse?_eq "exponentialBase" 2.0 hmem hleaf rfl

theorem restores (s : RetrySettings) :
    read.Restores s.toJson fun missing =>
      if s.hasBase missing then some (s.without missing) else none := by
  refine .record rfl (by decide) fun gone r h => ?_
  have hretries := h.orElse?_plain "maxRetries" 3 (by simp) (takes_word32 s.maxRetries) rfl
  have hbaseDelay := h.orElse?_plain "baseDelayMs" 1000 (by simp) (takes_word64 s.baseDelayMs) rfl
  have hmaxDelay := h.orElse?_plain "maxDelayMs" 60000 (by simp) (takes_word64 s.maxDelayMs) rfl
  have hbase := s.orElse?_exponentialBase h (by simp)
  have htimeout := h.orElse?_plain "retryOnTimeout" true (by simp) (takes_bool s.retryOnTimeout) rfl
  have hconnection := h.orElse?_plain "retryOnConnectionError" true (by simp)
    (takes_bool s.retryOnConnectionError) rfl
  have hcodes := h.orElse?_plain "retryOnStatusCodes" [429, 500, 502, 503, 504] (by simp)
    (takes_list s.retryOnStatusCodes fun code _ => takes_word16 code) rfl
  rw [hretries, hbaseDelay, hmaxDelay, hbase, htimeout, hconnection, hcodes]
  split <;> rfl

end RetrySettings

namespace ResilienceSettings

/-- The section with its defaults where something is missing. -/
def without (s : ResilienceSettings) (missing : Places) : ResilienceSettings :=
  let d : ResilienceSettings := {}
  { breaker := s.breaker.without (missing.under "breaker")
    retry := s.retry.without (missing.under "retry")
    proxy := missing.pick ["proxy"] d.proxy s.proxy
    noProxy := missing.pick ["noProxy"] d.noProxy s.noProxy
    requestTimeoutMs := missing.pick ["requestTimeoutMs"] d.requestTimeoutMs s.requestTimeoutMs }

/-- The base is missing, or it is a number that can be written. -/
def hasBase (s : ResilienceSettings) (missing : Places) : Bool :=
  s.retry.hasBase (missing.under "retry")

theorem restores (s : ResilienceSettings) :
    read.Restores s.toJson fun missing =>
      if s.hasBase missing then some (s.without missing) else none := by
  refine .record rfl (by decide) fun gone r h => ?_
  -- a section that is missing has the defaults that its fields have, missing one by one
  have hbreaker := h.orElse?_eq "breaker" {} (by simp) s.breaker.restores rfl
  have hretry := h.orElse?_eq "retry" {} (by simp) s.retry.restores rfl
  have hproxy := h.orElse?_plain "proxy" none (by simp) (takes_nullable_string s.proxy)
    (by cases s.proxy <;> rfl)
  have hnoProxy := h.orElse?_plain "noProxy" [] (by simp) (takes_strings s.noProxy) rfl
  have htimeout := h.orElse?_plain "requestTimeoutMs" 30000 (by simp)
    (takes_word64 s.requestTimeoutMs) rfl
  rw [hbreaker, hretry, hproxy, hnoProxy, htimeout, hasBase]
  split <;> rfl

end ResilienceSettings

/-! ## All settings -/

namespace Settings

/-- The settings with their defaults where something is missing. -/
def without (s : Settings) (missing : Places) : Settings where
  network := s.network.without (missing.under "network")
  aggregator := s.aggregator.without (missing.under "aggregator")
  orchestrator := s.orchestrator.without (missing.under "orchestrator")
  resilience := s.resilience.without (missing.under "resilience")

/-- The base is missing, or it is a number that can be written. -/
def hasBase (s : Settings) (missing : Places) : Bool :=
  s.resilience.hasBase (missing.under "resilience")

/-- Where nothing is missing the settings are as they were. -/
theorem without_none (s : Settings) : s.without .none = s := rfl

theorem restores (s : Settings) :
    read.Restores s.toJson fun missing =>
      if s.hasBase missing then some (s.without missing) else none := by
  refine .record rfl (by decide) fun gone r h => ?_
  have hnetwork := h.orElse?_eq "network" {} (by simp) s.network.restores rfl
  have haggregator := h.orElse?_eq "aggregator" {} (by simp) s.aggregator.restores rfl
  have horchestrator := h.orElse?_eq "orchestrator" {} (by simp) s.orchestrator.restores rfl
  have hresilience := h.orElse?_eq "resilience" {} (by simp) s.resilience.restores rfl
  rw [hnetwork, haggregator, horchestrator, hresilience, hasBase]
  split <;> rfl

/-- All that may be left of settings is read, unless it has a base that is not finite. -/
theorem ofJson?_of_remnant {s : Settings} {gone : Places} {w : Json}
    (h : Remnant gone s.toJson w) :
    read.ofJson? w = if s.hasBase gone.covers then some (s.without gone.covers) else none :=
  s.restores gone w h _ (Nat.le_succ _)

/-- **What is read of settings with parts left out.** Whatever sections, subsections and fields are
struck out of written settings, in whatever order the others stand, and whatever unknown entries
are written among them: the settings are read as they were, with the defaults of all that is
missing. Where nothing is missing they are read as they were. -/
theorem reads_what_is_left (s : Settings)
    (hbase : s.resilience.retry.exponentialBase.isFinite = true) :
    (∀ gone w, Remnant gone s.toJson w → read.ofJson? w = some (s.without gone.covers)) ∧
    (∀ w, Remnant .none s.toJson w → read.ofJson? w = some s) ∧
    read.ofJson? s.toJson = some s := by
  have hleft : ∀ gone w, Remnant gone s.toJson w →
      read.ofJson? w = some (s.without gone.covers) := by
    intro gone w h
    have hhas : s.hasBase gone.covers = true := by
      rw [hasBase, ResilienceSettings.hasBase, RetrySettings.hasBase, hbase, Bool.or_true]
    rw [ofJson?_of_remnant h, if_pos hhas]
  have hall : ∀ w, Remnant .none s.toJson w → read.ofJson? w = some s := by
    intro w h
    rw [hleft _ w h, Places.covers_none, without_none]
  exact ⟨hleft, hall, hall _ (.refl _)⟩

theorem reads_what_is_left_of_file :
    let s : Settings :=
      { network := { queueSize := 7, fallbackCapability := "" }
        aggregator := { sweepIntervalMs := 250 }
        resilience :=
          { retry := { maxRetries := 5, exponentialBase := 1.5, retryOnTimeout := false }
            proxy := some "http://proxy:3128" } }
    let gone : Places := fun place =>
      [["network", "queueSize"], ["aggregator"], ["orchestrator"], ["resilience", "breaker"],
        ["resilience", "retry", "baseDelayMs"], ["resilience", "retry", "maxDelayMs"],
        ["resilience", "retry", "retryOnTimeout"],
        ["resilience", "retry", "retryOnConnectionError"],
        ["resilience", "retry", "retryOnStatusCodes"], ["resilience", "noProxy"],
        ["resilience", "requestTimeoutMs"]].contains place
    let retry : Fields :=
      [("exponentialBase", .double 1.5), ("jitter", .null), ("maxRetries", .nat 5)]
    let resilience : Fields := [("proxy", .str "http://proxy:3128"), ("retry", .obj retry)]
    let network : Fields := [("fallbackCapability", .str "")]
    let w : Json := .obj [("resilience", .obj resilience), ("theme", .obj [("network", .null)]),
      ("network", .obj network)]
    s.resilience.retry.exponentialBase.isFinite = true ∧ Remnant gone s.toJson w ∧
      read.ofJson? w = some
        { network := { fallbackCapability := "" }
          resilience :=
            { retry := { maxRetries := 5, exponentialBase := 1.5 }
              proxy := some "http://proxy:3128" } } := by
  intro s gone retry resilience network w
  have hbase : s.resilience.retry.exponentialBase.isFinite = true := by decide
  have hnetwork : Remnant (gone.under "network") s.network.toJson (.obj network) :=
    .object network [] (by decide) (.keep_cons rfl (.plain rfl) .keep_nil) (by simp) (by decide)
  have hwritten : Json.ofFloat s.resilience.retry.exponentialBase = .double 1.5 := if_pos hbase
  have hretry : Remnant ((gone.under "resilience").under "retry") s.resilience.retry.toJson
      (.obj retry) :=
    .object [("maxRetries", .nat 5), ("exponentialBase", .double 1.5)] [("jitter", .null)]
      (by decide)
      (.keep_cons rfl (.plain rfl) (.keep_cons (congrArg some hwritten) (.plain rfl) .keep_nil))
      (by simp) (by decide)
  have hresilience : Remnant (gone.under "resilience") s.resilience.toJson (.obj resilience) :=
    .object [("retry", .obj retry), ("proxy", .str "http://proxy:3128")] [] (by decide)
      (.keep_cons rfl hretry (.keep_cons rfl (.plain rfl) .keep_nil)) (by simp) (by decide)
  have hleft : Remnant gone s.toJson w :=
    .object [("network", .obj network), ("resilience", .obj resilience)]
      [("theme", .obj [("network", .null)])] (by decide)
      (.keep_cons rfl hnetwork (.keep_cons rfl hresilience .keep_nil)) (by simp) (by decide)
  exact ⟨hbase, hleft, (reads_what_is_left s hbase).1 gone w hleft⟩

end Settings

end Switchboard
