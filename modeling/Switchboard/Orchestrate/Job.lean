import Switchboard.Graph.Plan

/-!
# Jobs

* `Job` : one capability to be asked for within a larger request; `Job.read`, `Job.toJson` ;
* `GraphRequest` : a graph of capabilities with a prompt, intents and parameters, and
  `GraphRequest.ofData`, the one that the data of a message describes;
* `GraphRequest.jobs` : the jobs of the capabilities of a graph;
* `Job.keys` : names that tell apart the jobs of a sequence.
-/

namespace Switchboard

/-- One capability to be asked for within a larger request. -/
structure Job where
  capability : String
  /-- The agent that has to do it; any provider may if there is none. -/
  assignedAgent : Option String := none
  dependsOn : List String := []
  intent : String := ""
  prompt : String := ""
  parameters : Json := .null
  result : Option Json := none
  deriving DecidableEq, Inhabited

namespace Job

/-- The fields of a job that are read, in order. -/
def fieldNames : List String :=
  ["capability", "assigned_agent", "depends_on", "intent", "prompt", "parameters"]

/-- A job from JSON; it has no result yet. -/
def read : Reading Job := fun room w => do
  let r ← Record.of? fieldNames room w
  return {
    capability := ← r.required? "capability" .string
    assignedAgent := ← r.orElse? "assigned_agent" none (Reading.nullable .string)
    dependsOn := ← r.orElse? "depends_on" [] (.list .string)
    intent := ← r.orElse? "intent" "" .string
    prompt := ← r.orElse? "prompt" "" .string
    parameters := ← r.orElse? "parameters" .null .value }

/-- A job in JSON. -/
def toJson (j : Job) : Json :=
  .obj [
    ("capability", .str j.capability),
    ("assigned_agent", Json.ofOption .str j.assignedAgent),
    ("depends_on", Json.strings j.dependsOn),
    ("intent", .str j.intent),
    ("prompt", .str j.prompt),
    ("parameters", j.parameters),
    ("result", j.result.getD .null)]

/-- The key of the `n`-th job with a capability: later ones are numbered. -/
def numbered (capability : String) (n : Nat) : String :=
  if n ≤ 1 then capability else capability ++ "#" ++ toString n

/-- The keys of jobs that come after others, given the capabilities of those. -/
def keysAfter : List String → List Job → List String
  | _, [] => []
  | before, j :: rest =>
    numbered j.capability (before.count j.capability + 1) :: keysAfter (j.capability :: before) rest

/-- The keys of the jobs of a sequence. -/
def keys (jobs : List Job) : List String := keysAfter [] jobs

end Job

/-- A graph of capabilities that are asked for together. -/
structure GraphRequest where
  requestId : String
  graph : CapabilityGraph := {}
  /-- What the user said; stands in for a missing intent. -/
  prompt : String := ""
  /-- By capability, sorted. -/
  intents : List (String × String) := []
  /-- By capability, sorted. -/
  parameters : List (String × Json) := []
  deriving DecidableEq, Inhabited

namespace GraphRequest

/-- Entries in the order of their keys. -/
def sortedByKey {α : Type} (entries : List (String × α)) : List (String × α) :=
  entries.mergeSort fun a b => a.1 ≤ b.1

/-- The request that the data of a message describes. -/
def ofData (requestId : String) (data : Json) : Except Fault GraphRequest := do
  let graph ← CapabilityGraph.ofJson? (data.getD "dag")
  let intents := ((data.get? "intents").bind Json.fields?).getD []
  let parameters := ((data.get? "parameters").bind Json.fields?).getD []
  return {
    requestId, graph
    prompt := ((data.get? "prompt").bind Json.string?).getD ""
    intents := sortedByKey (intents.filterMap fun (name, v) => v.string?.map fun s => (name, s))
    parameters := sortedByKey parameters }

/-- The value under a key. -/
def lookup? {α : Type} (entries : List (String × α)) (key : String) : Option α :=
  (entries.find? (·.1 == key)).map (·.2)

/-- The job of a capability. Its prompt is its intent, else what the user said, else a plain
order. -/
def job (r : GraphRequest) (dependsOn : List String) (capability : String) : Job :=
  let intent := (lookup? r.intents capability).getD ""
  { capability, dependsOn, intent
    prompt :=
      if !intent.isEmpty then intent
      else if !r.prompt.isEmpty then r.prompt
      else "Perform '" ++ capability ++ "'."
    parameters := (lookup? r.parameters capability).getD (.obj []) }

/-- The jobs of the capabilities of a graph. -/
def jobs (r : GraphRequest) (g : CapabilityGraph) : List Job :=
  g.nodes.map fun (name, deps) => r.job deps name

end GraphRequest

end Switchboard
