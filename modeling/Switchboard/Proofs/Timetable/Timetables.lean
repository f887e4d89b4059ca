import Switchboard.Proofs.Orchestrate.Accounts
import Switchboard.Proofs.Timetable.Assignments

/-!
# Timetables

Whoever knows of whom each capability is asked, and how long the handlers take, knows when each step
of a request begins and ends, and how.

* `Timetable` : a request with all that one has to know; `Timetable.Slot` : a step with its wave and
  the time at which that begins;
* `Timetable.budget`, `Timetable.outcome`, `Timetable.stop` : how long a step may take, how it ends,
  and when; `Timetable.next` : when the next wave begins;
* `Timetable.slots`, `Timetable.finish` : the steps of waves, one wave after another, and the end of
  the last one;
* `Timetable.entry`, `Timetable.Records` : what is written down of the steps;
* `Timetable.dispatched`, `Timetable.calls_eq` : the steps that a program dispatches.
-/

namespace Switchboard

/-- A request that starts at a time on a network with a directory, and of whom each capability is
asked. -/
structure Timetable where
  orchestrator : Orchestrator
  request : GraphRequest
  entries : List (String × List String)
  start : Nat
  posts : String → Post

namespace Timetable

/-- A step with the number of its wave and the time at which that begins. -/
structure Slot where
  wave : Nat
  time : Nat
  capability : String

/-- The steps of a wave, which has a number and begins at a time. -/
def waveSlots (n time : Nat) (wave : List String) : List Slot := wave.map fun c => ⟨n, time, c⟩

variable (t : Timetable)

/-- When the whole request has to end. -/
def deadline : Nat := t.start + t.orchestrator.requestTimeout

/-- How long a step may take that begins at a time. -/
def budget (time : Nat) : Nat := min t.orchestrator.capabilityTimeout (t.deadline - time)

/-- How a step ends that begins at a time. -/
def outcome (time : Nat) (capability : String) : StepOutcome :=
  if t.deadline ≤ time then Progress.skipped
  else if (t.posts capability).delay < t.budget time then
    ⟨(t.posts capability).verdict.result, some (t.posts capability).name, false⟩
  else ⟨failureOf ("Timed out waiting for '" ++ capability ++ "'"), none, true⟩

/-- When a step ends that begins at a time. -/
def stop (time : Nat) (capability : String) : Nat :=
  time + min (t.posts capability).delay (t.budget time)

/-- When the wave after one that begins at a time begins: when the last step ends. -/
def next (time : Nat) (wave : List String) : Nat := (wave.map (t.stop time)).foldl max time

/-- The steps of waves, the first of which has a number and begins at a time. -/
def slots : Nat → Nat → List (List String) → List Slot
  | _, _, [] => []
  | n, time, wave :: rest => waveSlots n time wave ++ slots (n + 1) (t.next time wave) rest

/-- When the last of some waves ends, the first of which begins at a time. -/
def finish : Nat → List (List String) → Nat
  | time, [] => time
  | time, wave :: rest => finish (t.next time wave) rest

/-- The part of the graph that somebody provides. -/
def graph : CapabilityGraph := t.request.kept t.entries

/-- The steps of the request. -/
def all : List Slot := t.slots 0 t.start t.graph.plan.waves

/-- What is written down of a step. -/
def entry (x : Slot) : HistoryEntry :=
  ⟨x.capability, (t.outcome x.time x.capability).fromAgent, (t.outcome x.time x.capability).result,
    x.wave⟩

/-- Whether a step counts as timed out. -/
def late (x : Slot) : Bool := (t.outcome x.time x.capability).timedOut

/-- A step that is dispatched, with some data. -/
def dispatched (x : Slot) (data : Json) : Assignment :=
  ⟨⟨t.orchestrator.name, StepCall.subId t.request.requestId x.capability, x.capability, none, data,
    t.orchestrator.capabilityTimeout, t.deadline⟩, x.time, t.posts x.capability⟩

variable {t} {time now : Nat} {wave : List String} {waves : List (List String)}
  {capability : String}

/-! ## Times -/

theorem foldl_max_le_iff {times : List Nat} {a b : Nat} :
    times.foldl max a ≤ b ↔ a ≤ b ∧ ∀ time ∈ times, time ≤ b := by
  induction times generalizing a with
  | nil => simp
  | cons time times ih =>
    rw [List.foldl_cons, ih, Nat.max_le, List.forall_mem_cons, and_assoc]

theorem next_le_iff :
    t.next time wave ≤ now ↔ time ≤ now ∧ ∀ c ∈ wave, t.stop time c ≤ now := by
  rw [next, foldl_max_le_iff, List.forall_mem_map]

theorem le_next (t : Timetable) (time : Nat) (wave : List String) : time ≤ t.next time wave :=
  (next_le_iff.mp (Nat.le_refl _)).1

theorem stop_le_next (h : capability ∈ wave) : t.stop time capability ≤ t.next time wave :=
  (next_le_iff.mp (Nat.le_refl _)).2 capability h

/-- Past the deadline a step ends at once. -/
theorem stop_of_late (h : t.deadline ≤ time) (capability : String) :
    t.stop time capability = time := by
  unfold stop budget
  omega

theorem next_of_late (h : t.deadline ≤ time) (wave : List String) : t.next time wave = time :=
  Nat.le_antisymm
    (next_le_iff.mpr ⟨Nat.le_refl _, fun c _ => Nat.le_of_eq (stop_of_late h c)⟩)
    (t.le_next time wave)

/-- No step ends after the deadline. -/
theorem stop_le_deadline (h : time ≤ t.deadline) (capability : String) :
    t.stop time capability ≤ t.deadline := by
  unfold stop budget
  omega

theorem capabilities_slots (t : Timetable) (n time : Nat) (waves : List (List String)) :
    (t.slots n time waves).map (·.capability) = waves.flatten := by
  induction waves generalizing n time with
  | nil => rfl
  | cons wave rest ih =>
    rw [slots, waveSlots, List.map_append, ih, List.map_map, List.flatten_cons]
    simp [Function.comp_def]

/-! ## Steps that are dispatched -/

theorem outcome_dispatched {x : Slot} (h : x.time < t.deadline) (data : Json) :
    (t.dispatched x data).outcome = t.outcome x.time x.capability := by
  rw [outcome, if_neg (Nat.not_le.mpr h)]
  rfl

/-- The orchestrator at work on the request. -/
def brief (t : Timetable) : Orchestrator.Brief := t.orchestrator.brief t.request t.entries t.start

/-- The positions of capabilities. -/
def positions (t : Timetable) (wave : List String) : List Nat :=
  wave.map fun c => t.graph.names.idxOf c

theorem key_positions (h : capability ∈ t.graph.names) :
    t.brief.schedule.key (t.graph.names.idxOf capability) = capability :=
  Schedule.key_ofGraph t.request h

/-- The data that the step of a capability sends. -/
def data (t : Timetable) (p : Progress) (c : String) : Json :=
  ((t.brief.schedule.steps[t.graph.names.idxOf c]?).map fun x =>
    p.requestData t.brief.schedule.scope x.2).getD .null

/-- The job of a capability. -/
theorem exists_job (h : capability ∈ t.graph.names) :
    ∃ deps, t.brief.schedule.steps[t.graph.names.idxOf capability]? =
      some (capability, t.request.job deps capability) := by
  have hlt : t.graph.names.idxOf capability < t.graph.nodes.length := by
    have hlength : t.graph.names.length = t.graph.nodes.length := List.length_map _
    exact hlength ▸ List.idxOf_lt_length_of_mem h
  have hstep : t.brief.schedule.steps[t.graph.names.idxOf capability]? =
      some ((t.graph.nodes[t.graph.names.idxOf capability]).1,
        t.request.job (t.graph.nodes[t.graph.names.idxOf capability]).2
          (t.graph.nodes[t.graph.names.idxOf capability]).1) := by
    change (((t.graph.nodes.map _).map _)[_]?) = _
    rw [List.getElem?_map, List.getElem?_map, List.getElem?_eq_getElem hlt]
    rfl
  have hname := (Schedule.key_eq hstep).symm.trans (key_positions h)
  rw [hname] at hstep
  exact ⟨_, hstep⟩

theorem call?_eq (h : capability ∈ t.graph.names) (p : Progress) (n time : Nat) :
    t.brief.call? p (t.graph.names.idxOf capability) =
      some (t.dispatched ⟨n, time, capability⟩ (t.data p capability)).call := by
  obtain ⟨deps, hstep⟩ := exists_job h
  have hdata : t.data p capability =
      p.requestData t.brief.schedule.scope (t.request.job deps capability) := by
    rw [data, hstep]
    rfl
  rw [hdata]
  change (t.brief.schedule.steps[_]?).map _ = _
  rw [hstep]
  rfl

/-- What the program dispatches of a wave are its steps. -/
theorem calls_eq (hwave : ∀ c ∈ wave, c ∈ t.graph.names) (p : Progress) (n time : Nat) :
    t.brief.calls p (t.positions wave) =
      wave.map fun c => (t.dispatched ⟨n, time, c⟩ (t.data p c)).call := by
  rw [Orchestrator.Brief.calls, positions, List.filterMap_map, ← List.filterMap_eq_map]
  exact List.filterMap_congr fun c hc => call?_eq (hwave c hc) p n time

end Timetable

/-! ## Records -/

namespace Timetable

variable {t : Timetable} {n time : Nat} {wave : List String} {xs : List Slot} {p : Progress}

/-- The records say of these steps how they ended, and of no others. -/
structure Records (t : Timetable) (xs : List Slot) (p : Progress) : Prop where
  history : p.history = xs.map t.entry
  timedOut : p.timedOut = (xs.filter t.late).map (·.capability)

theorem records_start (t : Timetable) : t.Records [] (.start t.brief.schedule) := ⟨rfl, rfl⟩

/-- The ends of the steps of a wave are written down. -/
theorem Records.addAll (h : t.Records xs p) (hwave : ∀ c ∈ wave, c ∈ t.graph.names)
    {p' : Progress} (hadds : Progress.AddsAll t.brief.schedule
      (StepEnd.ofWave n (t.positions wave) (wave.map (t.outcome time))) p p') :
    t.Records (xs ++ waveSlots n time wave) p' := by
  have hends : StepEnd.ofWave n (t.positions wave) (wave.map (t.outcome time)) =
      wave.map fun c => ⟨n, t.graph.names.idxOf c, t.outcome time c⟩ := by
    rw [StepEnd.ofWave, positions, List.zip_map', List.map_map]
    rfl
  rw [hends] at hadds
  constructor
  · rw [hadds.history, h.history, List.map_append, waveSlots, List.map_map, List.map_map]
    refine congrArg (_ ++ ·) (List.map_congr_left fun c hc => ?_)
    rw [Function.comp_apply, StepEnd.entry, StepEnd.key, key_positions (hwave c hc)]
    rfl
  · rw [hadds.timedOut, h.timedOut, List.filter_append, List.map_append, waveSlots, List.filter_map,
      List.filter_map, List.map_map, List.map_map]
    refine congrArg (_ ++ ·) (List.map_congr_left fun c hc => ?_)
    exact key_positions (hwave c (List.mem_of_mem_filter hc))

/-- The steps of a wave have ended as they should. -/
theorem Records.record (h : t.Records xs p) (hwave : ∀ c ∈ wave, c ∈ t.graph.names) :
    t.Records (xs ++ waveSlots n time wave)
      (p.recordWave t.brief.schedule n (t.positions wave) (wave.map (t.outcome time))) :=
  h.addAll hwave (Progress.addsAll_recordWave ..)

/-- A wave that comes after the deadline is not begun. -/
theorem Records.skip (h : t.Records xs p) (hwave : ∀ c ∈ wave, c ∈ t.graph.names)
    (hlate : t.deadline ≤ time) :
    t.Records (xs ++ waveSlots n time wave) (p.skipWave t.brief.schedule n (t.positions wave)) := by
  have hskipped : wave.map (t.outcome time) =
      (t.positions wave).map fun _ => Progress.skipped := by
    rw [positions, List.map_map]
    exact List.map_congr_left fun c _ => by rw [outcome, if_pos hlate]; rfl
  refine h.addAll hwave ?_
  rw [hskipped]
  exact Progress.addsAll_skipWave ..

end Timetable

end Switchboard
