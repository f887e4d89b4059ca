import Switchboard.Agent.Capable
import Switchboard.Orchestrate.Run

/-!
# Agents that orchestrate

* `Agent.orchestrating` : the agent that runs a graph of capabilities, or jobs one after another,
  for whoever asks it.
-/

namespace Switchboard.Agent

/-- The capability of orchestrating agents. -/
def orchestrateCapability : String := "orchestrate_tasks"

/-- The jobs that the data of a request lists. What is wrong with data that is no such list is for
the reader of JSON to say, in a wording of its own. -/
def jobsOfData (wording : Json → String) (tasks : Json) : Except Fault (List Job) :=
  match (Reading.list Job.read).ofJson? tasks with
  | some jobs => .ok jobs
  | none => .error (.invalidParameter ("invalid task list: " ++ wording tasks))

/-- What an orchestrator is asked to run: jobs under `tasks` come before a graph under `dag`. -/
def orchestration (o : Orchestrator) (wording : Json → String) (requestId : String)
    (data : Json) : Except Fault (Program RunReport) :=
  match data.get? "tasks" with
  | some tasks => (jobsOfData wording tasks).map (o.sequence requestId)
  | none => (GraphRequest.ofData requestId data).map o.execute

/-- A report with its summary as response. -/
def reportValue (r : RunReport) : Json :=
  match r.toValue with
  | .obj fields => .obj (fields ++ [("response", .str r.summary)])
  | other => other

/-- Run what the data of a request asks for, holding the network meanwhile. -/
def orchestrate (o : Orchestrator) (wording : Json → String) (agent : Nat) (m : Message) :
    Program (Except Fault Unit) := do
  let live : Bool ← (perform .hold).program
  if !live then return .error (Network.detached o.name)
  match orchestration o wording m.requestId m.data with
  | .error f =>
    (perform .release).program
    return .error f
  | .ok work =>
    let report ← work
    (perform .release).program
    (respond agent o.name m (reportValue report)).program

/-- The agent that orchestrates. Data that is no list of jobs is refused in a given wording. -/
def orchestrating (name : String) (s : OrchestratorSettings)
    (wording : Json → String := fun _ => "not a list of tasks") : Agent where
  name := name
  capabilities := [orchestrateCapability]
  description := "Runs multi-capability requests in dependency order"
  onRequest := fun agent m =>
    if m.capability? = some orchestrateCapability then
      orchestrate (.ofSettings name s) wording agent m
    else return .error (notOffered name (m.capability?.getD ""))

end Switchboard.Agent
