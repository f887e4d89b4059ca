import Switchboard.Fault

/-!
# Collecting replies

A request may have several providers; a strategy says which of their replies answer it.

* `Strategy` : when a collection is complete;
* `Collected` : the final answer; `Collected.result` : what is handed on;
* `Collection` : the replies so far; `Collection.add`, `Collection.isComplete`;
* `merge` : several replies in one; `Collection.conclude` : the answer of a collection.
-/

namespace Switchboard

/-- When a request to several providers counts as answered. -/
inductive Strategy where
  /-- At the first reply of any kind. -/
  | first
  /-- When every expected provider replied. -/
  | all
  /-- When more than half of the expected providers replied. -/
  | majority
  /-- Not before the deadline. -/
  | timeout
  deriving DecidableEq, Repr, Inhabited

namespace Strategy

/-- The name of a strategy. -/
def name : Strategy → String
  | first => "first"
  | all => "all"
  | majority => "majority"
  | timeout => "timeout"

/-- The strategies by name. -/
def byName : List (String × Strategy) :=
  [("first", first), ("all", all), ("majority", majority), ("timeout", timeout)]

/-- A strategy from JSON. -/
def read : Reading Strategy := Reading.choice byName

end Strategy

/-- The final answer of a request to several providers. -/
structure Collected where
  requestId : String
  capability : String
  success : Bool
  content : Json
  error : Option String
  strategy : Strategy
  receivedFrom : List String
  expectedFrom : List String
  responseCount : Nat
  errorCount : Nat
  timedOut : Bool
  deriving DecidableEq, Inhabited

namespace Collected

/-- The wording when every reply is an error. -/
def allFailed : String := "All providers failed"

/-- The wording when there is no reply. -/
def noReplies : String := "No responses received"

/-- The answer of a collection that was lost. -/
def lost (requestId capability : String) (strategy : Strategy) : Collected where
  requestId := requestId
  capability := capability
  success := false
  content := .obj [("error", .str noReplies)]
  error := some noReplies
  strategy := strategy
  receivedFrom := []
  expectedFrom := []
  responseCount := 0
  errorCount := 0
  timedOut := true

/-- The most telling wording of a failure: the first provider's, else the overall one. -/
def errorMessage (c : Collected) : Option String :=
  if c.success then none
  else
    let first := do
      let errors ← (← c.content.get? "errors").items?
      (← (← errors.head?).get? "error").string?
    first.orElse fun _ => c.error

/-- The content, or an object with the wording of the failure. -/
def result (c : Collected) : Json :=
  match c.errorMessage with
  | none => c.content
  | some text => .obj [("error", .str text)]

/-- The answer in JSON. -/
def toJson (c : Collected) : Json :=
  .obj [
    ("request_id", .str c.requestId),
    ("capability", .str c.capability),
    ("success", .bool c.success),
    ("content", c.content),
    ("error", Json.ofOption .str c.error),
    ("strategy", .str c.strategy.name),
    ("received_from", Json.strings c.receivedFrom),
    ("expected_from", Json.strings c.expectedFrom),
    ("response_count", .nat c.responseCount),
    ("error_count", .nat c.errorCount),
    ("timed_out", .bool c.timedOut)]

end Collected

/-! ## Merging -/

/-- Reply contents being merged: object fields, texts, and values of other kinds. -/
structure Merging where
  fields : Fields := []
  texts : List String := []
  loose : List Json := []
  deriving DecidableEq, Inhabited

namespace Merging

/-- Add a field of an object: a `response` text joins the texts, arrays under one key are joined,
and of other values under one key the first stays. -/
def addField (m : Merging) (key : String) (value : Json) : Merging :=
  match key == "response", value with
  | true, .str text => { m with texts := m.texts ++ [text] }
  | _, _ =>
    match Fields.get? m.fields key, value with
    | none, _ => { m with fields := m.fields.insert key value }
    | some (.arr items), .arr more =>
      { m with fields := m.fields.insert key (.arr (items ++ more)) }
    | some _, _ => m

/-- Add the content of a reply. -/
def add (m : Merging) : Json → Merging
  | .obj fields => fields.foldl (fun m entry => m.addField entry.1 entry.2) m
  | .str text => { m with texts := m.texts ++ [text] }
  | .null => m
  | other => { m with loose := m.loose ++ [other] }

/-- Give a key a value unless it has one. -/
def offer (fields : Fields) (key : String) (value : Json) : Fields :=
  if fields.has key then fields else fields.insert key value

end Merging

/-- Several replies in one: their texts under `response`, their fields side by side, values of
other kinds under `values`, and the first error under `error`. -/
def merge (responses errors : List (String × Json)) : Json :=
  let m := responses.foldl (fun m reply => m.add reply.2) ({} : Merging)
  let fields :=
    if m.texts.isEmpty then m.fields
    else m.fields.insert "response" (.str ("\n".intercalate m.texts))
  let fields := if m.loose.isEmpty then fields else Merging.offer fields "values" (.arr m.loose)
  let fields := match errors with
    | [] => fields
    | (sender, content) :: _ =>
      let text := (FaultReport.ofContent content).message
      Merging.offer fields "error" (.str (sender ++ ": " ++ text))
  .obj fields

/-! ## Collections -/

/-- The replies to one request so far. Times are milliseconds. -/
structure Collection where
  requestId : String
  capability : String
  expected : List String
  strategy : Strategy
  timeout : Nat
  createdAt : Nat
  responses : List (String × Json) := []
  errors : List (String × Json) := []
  receivedFrom : List String := []
  deriving DecidableEq, Inhabited

namespace Collection

/-- When the collection has to be answered. -/
def deadline (c : Collection) : Nat := c.createdAt + c.timeout

/-- How many expected providers replied. -/
def answered (c : Collection) : Nat := (c.expected.filter c.receivedFrom.contains).length

/-- Whether the strategy is satisfied. -/
def isComplete (c : Collection) : Bool :=
  match c.strategy with
  | .first => !c.receivedFrom.isEmpty
  | .all => c.answered == c.expected.length
  | .majority => c.expected.length / 2 < c.answered
  | .timeout => false

/-- Add a reply. -/
def add (c : Collection) (sender : String) (content : Json) (isError : Bool) : Collection :=
  let receivedFrom :=
    if c.receivedFrom.contains sender then c.receivedFrom else c.receivedFrom ++ [sender]
  if isError then { c with errors := c.errors ++ [(sender, content)], receivedFrom }
  else { c with responses := c.responses ++ [(sender, content)], receivedFrom }

/-- The content of an answer without a success: every provider's wording. -/
def failureContent (c : Collection) (text : String) : Json :=
  .obj [
    ("error", .str text),
    ("errors", .arr (c.errors.map fun (sender, content) =>
      .obj [("agent", .str sender), ("error", .str (FaultReport.ofContent content).message)]))]

/-- The answer of a collection as it stands. -/
def conclude (c : Collection) (timedOut : Bool) : Collected :=
  let failure := if c.errors.isEmpty then Collected.noReplies else Collected.allFailed
  { requestId := c.requestId
    capability := c.capability
    success := !c.responses.isEmpty
    content := match c.responses with
      | [] => c.failureContent failure
      | (_, content) :: _ =>
        match c.strategy with
        | .first => content
        | _ => merge c.responses c.errors
    error := if c.responses.isEmpty then some failure else none
    strategy := c.strategy
    receivedFrom := c.receivedFrom
    expectedFrom := c.expected
    responseCount := c.responses.length
    errorCount := c.errors.length
    timedOut := timedOut }

end Collection

end Switchboard
