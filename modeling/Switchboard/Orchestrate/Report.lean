import Switchboard.Orchestrate.Job

/-!
# What came out of an orchestrated request

* `RunReport` : results by step, the history of the steps and what was left out;
* `RunReport.errors`, `RunReport.toValue`, `RunReport.summary` : the failures, the whole as JSON,
  and an account with one line for each step of the history;
* `RunReport.cut` : a line shortened to a number of characters.
-/

namespace Switchboard

/-- What came out of an orchestrated request. -/
structure RunReport where
  requestId : String
  /-- By step, sorted; a failure is an object with an `error`. -/
  results : Fields := []
  /-- The steps in the order in which they were done. -/
  history : List Json := []
  /-- Capabilities that nobody provides. -/
  dropped : List String := []
  /-- A cycle forced one step at a time. -/
  fellBack : Bool := false
  timedOut : List String := []
  jobs : List Job := []
  deriving DecidableEq, Inhabited

namespace RunReport

/-- Whether there is no result. -/
def isEmpty (r : RunReport) : Bool := r.results.isEmpty

/-- The wording of a result that is a failure. -/
def errorOf (result : Json) : Option String := (result.get? "error").bind Json.string?

/-- The steps that failed, with their wordings. -/
def errors (r : RunReport) : List (String × String) :=
  r.results.filterMap fun (step, result) => (errorOf result).map fun text => (step, text)

/-- The report in JSON. -/
def toValue (r : RunReport) : Json :=
  .obj [
    ("results", .obj r.results),
    ("context_history", .arr r.history),
    ("dropped", Json.strings r.dropped),
    ("fell_back", .bool r.fellBack),
    ("timed_out", Json.strings r.timedOut),
    ("tasks", .arr (r.jobs.map Job.toJson))]

/-- The wording when there is nothing to report. -/
def nothingDone : String := "No agent is available to handle that request."

/-- How many characters of a line are kept. -/
def lineLimit : Nat := 280

/-- The first characters of a text, with dots when some are missing. -/
def cut (limit : Nat) (text : String) : String :=
  if text.length ≤ limit then text else String.ofList (text.toList.take limit) ++ "..."

/-- What a result says: its error, its response, its text, or its JSON. -/
def resultText (result : Json) : String :=
  match errorOf result, (result.get? "response").bind Json.string?, result with
  | some text, _, _ => "failed (" ++ text ++ ")"
  | none, some text, _ => text
  | none, none, .str text => text
  | none, none, other => other.compact

/-- The line of a step. -/
def line (step : Json) : String :=
  ((step.get? "capability").bind Json.string?).getD "unknown" ++ ": "
    ++ resultText (step.getD "result")

/-- An account with one line for each step. -/
def summary (r : RunReport) : String :=
  if r.isEmpty then nothingDone
  else "\n".intercalate (r.history.map fun step => cut lineLimit (line step))

end RunReport

end Switchboard
