import Switchboard.Collect.Basic
import Switchboard.Orchestrate.Report

/-!
# The progress of an orchestrated request

Steps are done in waves. A wave starts once every step of the wave before it has ended, and a step
is told the results of earlier ones.

* `Schedule` : the steps and their waves; `Schedule.ofGraph`, `Schedule.ofSequence` ;
* `Progress` : the records that the steps leave; `Progress.record`, `Progress.skip` : the end of a
  step, and a step that the deadline kept from starting;
* `Progress.context` : the earlier results that a step is told;
* `Progress.report` : the report of a request.
-/

namespace Switchboard

/-- How a step ended. -/
structure StepOutcome where
  result : Json
  /-- Who replied. -/
  fromAgent : Option String
  timedOut : Bool
  deriving DecidableEq, Inhabited

/-- The failure with a wording. -/
def failureOf (text : String) : Json := .obj [("error", .str text)]

/-- A step that has ended, in the history of its request. -/
structure HistoryEntry where
  key : String
  fromAgent : Option String
  result : Json
  wave : Nat
  deriving DecidableEq, Inhabited

/-- An entry of the history in JSON. -/
def HistoryEntry.toJson (e : HistoryEntry) : Json :=
  .obj [
    ("capability", .str e.key),
    ("from_agent", Json.ofOption .str e.fromAgent),
    ("result", e.result),
    ("wave", .nat e.wave)]

/-- Which earlier results a step is told. -/
inductive ContextScope where
  /-- Those of the steps it depends on. -/
  | dependencies
  /-- Those of the steps it depends on, or of all earlier ones when it depends on none. -/
  | earlierSteps
  deriving DecidableEq, Repr, Inhabited

/-- Steps with their keys, and the positions of the steps of each wave. -/
structure Schedule where
  steps : List (String × Job) := []
  waves : List (List Nat) := []
  scope : ContextScope
  deriving DecidableEq, Inhabited

namespace Schedule

/-- The key of the step at a position. -/
def key (s : Schedule) (position : Nat) : String := ((s.steps.map (·.1))[position]?).getD ""

/-- The schedule of a graph: each capability is a step, and its plan gives the waves. -/
def ofGraph (r : GraphRequest) (g : CapabilityGraph) : Schedule where
  steps := (r.jobs g).map fun j => (j.capability, j)
  waves := g.plan.waves.map fun wave => wave.filterMap fun name => g.names.idxOf? name
  scope := .dependencies

/-- The schedule of jobs that are done one after another. -/
def ofSequence (jobs : List Job) : Schedule where
  steps := (Job.keys jobs).zip jobs
  waves := (List.range jobs.length).map fun i => [i]
  scope := .earlierSteps

end Schedule

/-- Give a key a value in a list sorted by key. -/
def Fields.putSorted : Fields → String → Json → Fields
  | [], key, value => [(key, value)]
  | (k, v) :: rest, key, value =>
    if key < k then (key, value) :: (k, v) :: rest
    else if k == key then (key, value) :: rest
    else (k, v) :: putSorted rest key value

/-- The records that steps leave. -/
structure Progress where
  jobs : List Job
  history : List HistoryEntry := []
  results : Fields := []
  /-- Who replied to the steps that were started; the last entry of a key counts. -/
  responders : List (String × Option String) := []
  timedOut : List String := []
  deriving DecidableEq, Inhabited

namespace Progress

/-- Nothing has been done yet. -/
def start (s : Schedule) : Progress := { jobs := s.steps.map (·.2) }

/-- Who replied to a step. -/
def responder (p : Progress) (key : String) : Option String :=
  ((p.responders.reverse.find? (·.1 == key)).map (·.2)).join

/-- Give the job at a position its result. -/
def withResult (jobs : List Job) (position : Nat) (result : Json) : List Job :=
  jobs.modify position fun j => { j with result := some result }

/-- The end of a step that was started. -/
def record (wave : Nat) (key : String) (position : Nat) (o : StepOutcome) (p : Progress) :
    Progress where
  jobs := withResult p.jobs position o.result
  history := p.history ++ [⟨key, o.fromAgent, o.result, wave⟩]
  results := p.results.putSorted key o.result
  responders := p.responders ++ [(key, o.fromAgent)]
  timedOut := if o.timedOut then p.timedOut ++ [key] else p.timedOut

/-- The result of a step that the deadline kept from starting. -/
def tooLate : Json := failureOf "Request timed out before this step could run"

/-- A step that the deadline kept from starting. -/
def skip (wave : Nat) (key : String) (position : Nat) (p : Progress) : Progress where
  jobs := withResult p.jobs position tooLate
  history := p.history ++ [⟨key, none, tooLate, wave⟩]
  results := p.results.putSorted key tooLate
  responders := p.responders
  timedOut := p.timedOut ++ [key]

/-- The ends of the steps of a wave. -/
def recordWave (s : Schedule) (wave : Nat) (positions : List Nat) (outcomes : List StepOutcome)
    (p : Progress) : Progress :=
  (positions.zip outcomes).foldl (fun p (i, o) => p.record wave (s.key i) i o) p

/-- A wave that the deadline kept from starting. -/
def skipWave (s : Schedule) (wave : Nat) (positions : List Nat) (p : Progress) : Progress :=
  positions.foldl (fun p i => p.skip wave (s.key i) i) p

/-- What a step is told of an earlier one. -/
def contextEntry (p : Progress) (key : String) (result : Json) : Json :=
  .obj [
    ("capability", .str key),
    ("from_agent", Json.ofOption .str (p.responder key)),
    ("result", result)]

/-- The earlier results that a step is told. -/
def context (p : Progress) (scope : ContextScope) (j : Job) : List Json :=
  if scope = .earlierSteps ∧ j.dependsOn = [] then
    p.history.map fun e => p.contextEntry e.key e.result
  else
    j.dependsOn.filterMap fun dep => (Fields.get? p.results dep).map (p.contextEntry dep)

/-- The data of the request that a step sends. -/
def requestData (p : Progress) (scope : ContextScope) (j : Job) : Json :=
  .obj [
    ("intent", .str j.intent),
    ("prompt", .str j.prompt),
    ("parameters", j.parameters),
    ("context", .obj [("previous_results", .arr (p.context scope j))])]

/-- The report of a request. -/
def report (p : Progress) (requestId : String) (dropped : List String) (fellBack : Bool) :
    RunReport where
  requestId := requestId
  results := p.results
  history := p.history.map HistoryEntry.toJson
  dropped := dropped
  fellBack := fellBack
  timedOut := p.timedOut
  jobs := p.jobs

end Progress

/-- A step about to be started. -/
structure StepCall where
  /-- Who asks. -/
  sender : String
  /-- The id of the request that the step sends. -/
  requestId : String
  capability : String
  assignedAgent : Option String
  data : Json
  /-- How long the step may take. -/
  timeout : Nat
  /-- When the whole request has to end. -/
  deadline : Nat
  deriving DecidableEq, Inhabited

namespace StepCall

/-- The id of the request that a step sends: the id of the whole and the key of the step. -/
def subId (requestId key : String) : String := requestId ++ ":" ++ key

/-- How a step ends whose collection was answered. -/
def outcome (call : StepCall) (answer : Collected) : StepOutcome :=
  match answer.timedOut, answer.receivedFrom with
  | true, [] => ⟨failureOf ("Timed out waiting for '" ++ call.capability ++ "'"), none, true⟩
  | _, senders => ⟨answer.result, senders.head?, false⟩

end StepCall

end Switchboard
