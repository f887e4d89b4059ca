import Switchboard.Bus.Directory
import Switchboard.Network.Requests

/-!
# Running orchestrated requests

* `StepCall.dispatch`, `StepCall.run` : send the request of a step; send it and wait for the answer,
  within the budget of the step;
* `Orchestrator` : who asks, and how long a step and a whole request may take;
* `Orchestrator.runWaves` : one wave after another, up to the deadline;
* `Orchestrator.execute`, `Orchestrator.sequence` : the capabilities of a graph, and jobs that are
  done one after another.
-/

namespace Switchboard

/-- Send the request of a step: to the agent that the step is assigned to, or else to everybody who
provides the capability by then. -/
def StepCall.dispatch (call : StepCall) : Routine Unit :=
  match call.assignedAgent with
  | some agent =>
    Network.sendRequests call.sender call.capability call.data call.requestId [agent]
  | none => do
    let providers : List String ← perform (.providers call.capability)
    Network.sendRequests call.sender call.capability call.data call.requestId providers

/-- Start to collect the answer of a step, send its request and wait. The request goes to those who
provide the capability when it is sent, which need not be those whose replies are expected. Sending
it cannot fail. -/
def StepCall.run (call : StepCall) : Routine StepOutcome := do
  let providers : List String ← perform (.providers call.capability)
  let expected := match call.assignedAgent with
    | some agent => [agent]
    | none => providers
  let now : Nat ← perform .clock
  let budget := min call.timeout (call.deadline - now)
  let pending : Pending ←
    perform (.collect call.requestId call.capability expected .first (some budget))
  call.dispatch
  let answer : Collected ← perform (.collected pending)
  return call.outcome answer

/-- Who runs requests, and how long they may take. -/
structure Orchestrator where
  name : String
  capabilityTimeout : Nat
  requestTimeout : Nat
  deriving DecidableEq, Repr, Inhabited

namespace Orchestrator

/-- An orchestrator with the limits of the settings. -/
def ofSettings (name : String) (s : OrchestratorSettings) : Orchestrator :=
  ⟨name, s.capabilityTimeoutMs.toNat, s.requestTimeoutMs.toNat⟩

/-- The step at a position of a schedule. -/
def call? (o : Orchestrator) (requestId : String) (s : Schedule) (deadline : Nat) (p : Progress)
    (position : Nat) : Option StepCall :=
  s.steps[position]?.map fun (key, job) =>
    { sender := o.name
      requestId := StepCall.subId requestId key
      capability := job.capability
      assignedAgent := job.assignedAgent
      data := p.requestData s.scope job
      timeout := o.capabilityTimeout
      deadline := deadline }

/-- Run waves one after another, the first having the given number. Waves that the deadline
comes before are skipped. -/
def runWaves (o : Orchestrator) (requestId : String) (s : Schedule) (deadline : Nat) :
    Nat → List (List Nat) → Progress → Program Progress
  | _, [], p => .done p
  | number, wave :: rest, p =>
    .ask (.plain .clock) fun (now : Nat) =>
      if deadline ≤ now then
        runWaves o requestId s deadline (number + 1) rest (p.skipWave s number wave)
      else
        .ask (.wave (wave.filterMap (o.call? requestId s deadline p)))
          fun (outcomes : List StepOutcome) =>
            runWaves o requestId s deadline (number + 1) rest (p.recordWave s number wave outcomes)

/-- Run a schedule from the present moment. -/
def runSchedule (o : Orchestrator) (requestId : String) (s : Schedule) : Program Progress :=
  .ask (.plain .clock) fun (now : Nat) =>
    o.runWaves requestId s (now + o.requestTimeout) 0 s.waves (.start s)

/-- Run the capabilities of a graph that somebody provides. -/
def execute (o : Orchestrator) (r : GraphRequest) : Program RunReport :=
  .ask (.plain .directory) fun (entries : List (String × List String)) =>
    let (graph, dropped) := r.graph.retain (Directory.mk entries).has
    (o.runSchedule r.requestId (.ofGraph r graph)).bind fun p =>
      .done (p.report r.requestId dropped graph.plan.fellBack)

/-- Whether somebody can do a job: the agent it is assigned to is there, or its capability has a
provider. -/
def isReachable (entries : List (String × List String)) (agents : List String) (j : Job) : Bool :=
  match j.assignedAgent with
  | some agent => agents.contains agent
  | none => (Directory.mk entries).has j.capability

/-- Do jobs one after another, leaving out those that nobody can do. -/
def sequence (o : Orchestrator) (requestId : String) (jobs : List Job) : Program RunReport :=
  .ask (.plain .directory) fun (entries : List (String × List String)) =>
    .ask (.plain .agentNames) fun (agents : List String) =>
      let (kept, dropped) := jobs.partition (isReachable entries agents)
      (o.runSchedule requestId (.ofSequence kept)).bind fun p =>
        .done (p.report requestId (dropped.map (·.capability)) false)

end Orchestrator

end Switchboard
