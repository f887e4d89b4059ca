import Switchboard.Json.Printer
import Switchboard.Json.Record

/-!
# Faults

Why a request, a call or a file could not be served, and how that travels between agents.

* `Fault` : the causes; `Fault.category` : the stable name of a cause; `Fault.message` : the
  whole wording; `Fault.isRetryable` : whether trying again later may help;
* `FaultReport` : a fault as it is sent, `Fault.report`;
* `FaultReport.content`, `FaultReport.ofContent` : the content of an error message, and the report
  that any content at all is taken for.
-/

namespace Switchboard

/-- Why something could not be served. -/
inductive Fault where
  /-- A service is down, refuses calls or is rate-limited: seconds to wait before a retry, the last
  status it answered, and the number of attempts made. -/
  | unavailable (text : String) (retryAfter : Option UInt64) (status : Option UInt16)
      (attempts : Option UInt32)
  | invalidParameter (text : String)
  | authentication (text : String)
  | timeout (text : String) (attempts : Option UInt32)
  | capabilityNotFound (text : String)
  | protocolExecution (text : String)
  | configuration (text : String)
  | io (text : String)
  | json (text : String)
  | network (text : String)
  | agent (text : String)
  | other (text : String)
  deriving DecidableEq, Repr, Inhabited

namespace Fault

/-- What a cause says of itself. -/
def text : Fault → String
  | unavailable t _ _ _ | invalidParameter t | authentication t | timeout t _
  | capabilityNotFound t | protocolExecution t | configuration t | io t | json t | network t
  | agent t | other t => t

/-- The stable name of the cause in error messages. -/
def category : Fault → String
  | unavailable .. => "ServiceUnavailableError"
  | invalidParameter _ => "InvalidParameterError"
  | authentication _ => "AuthenticationError"
  | timeout .. => "TimeoutError"
  | capabilityNotFound _ => "CapabilityNotFoundError"
  | protocolExecution _ => "ProtocolExecutionError"
  | configuration _ => "ConfigurationError"
  | io _ => "IoError"
  | json _ => "JsonError"
  | network _ => "NetworkError"
  | agent _ | other _ => "AgentError"

/-- The wording shown to a person. -/
def message : Fault → String
  | unavailable t _ _ _ => "Service unavailable: " ++ t
  | invalidParameter t => "Invalid parameter: " ++ t
  | authentication t => "Authentication failed: " ++ t
  | timeout t _ => "Timeout: " ++ t
  | capabilityNotFound t => "Capability not found: " ++ t
  | protocolExecution t => "Protocol execution failed: " ++ t
  | configuration t => "Config error: " ++ t
  | io t => "IO error: " ++ t
  | json t => "JSON error: " ++ t
  | network t => "Network error: " ++ t
  | agent t => "Agent error: " ++ t
  | other t => t

/-- Seconds to wait before trying again. -/
def retryAfter : Fault → Option UInt64
  | unavailable _ r _ _ => r
  | _ => none

/-- Whether the same operation may succeed later. -/
def isRetryable : Fault → Bool
  | unavailable .. | timeout .. | network _ => true
  | _ => false

/-- A capability that nobody provides. -/
def notAvailable (capability : String) : Fault :=
  .capabilityNotFound ("No agent is available to handle '" ++ capability ++ "'")

end Fault

/-! ## Reports -/

/-- A fault as it is sent. -/
structure FaultReport where
  errorType : String
  message : String
  details : Option Json
  retryAfter : Option UInt64
  deriving DecidableEq, Inhabited

/-- A word as a JSON integer. -/
def Json.word64 (n : UInt64) : Json := .nat n.toNat

namespace Fault

/-- The status and the number of attempts, if there are any. -/
def details (f : Fault) : Fields :=
  match f with
  | unavailable _ _ status attempts =>
    (status.map fun s => ("status_code", Json.nat s.toNat)).toList
      ++ (attempts.map fun a => ("attempts", Json.nat a.toNat)).toList
  | timeout _ attempts => (attempts.map fun a => ("attempts", Json.nat a.toNat)).toList
  | _ => []

/-- The report of a fault. Its message is what the cause says of itself, or the whole wording for
a failure of files or of JSON. -/
def report (f : Fault) : FaultReport where
  errorType := f.category
  message := match f with
    | io _ | json _ => f.message
    | _ => f.text
  details := if f.details.isEmpty then none else some (.obj f.details)
  retryAfter := f.retryAfter

end Fault

namespace FaultReport

/-- The content of an error message. -/
def content (r : FaultReport) : Json :=
  .obj [
    ("error", .str r.message),
    ("error_type", .str r.errorType),
    ("details", r.details.getD .null),
    ("retry_after", Json.ofOption Json.word64 r.retryAfter)]

/-- The report that some content is taken for; content without an error text counts as a whole. -/
def ofContent (content : Json) : FaultReport where
  errorType := ((content.get? "error_type").bind Json.string?).getD "AgentError"
  message := ((content.get? "error").bind Json.string?).getD content.compact
  details := (content.get? "details").filter fun d => !d.isNull
  retryAfter := (content.get? "retry_after").bind Json.word?

/-- A report as a record, absent parts left out. -/
def toJson (r : FaultReport) : Json :=
  .obj ([("error_type", .str r.errorType), ("message", .str r.message)]
    ++ (r.details.map fun d => ("details", d)).toList
    ++ (r.retryAfter.map fun n => ("retry_after", Json.word64 n)).toList)

/-- The record of a report. -/
def read : Reading FaultReport := fun room w => do
  let r ← Record.of? ["error_type", "message", "details", "retry_after"] room w
  return {
    errorType := ← r.required? "error_type" .string
    message := ← r.required? "message" .string
    details := ← r.orElse? "details" none (Reading.nullable .value)
    retryAfter := ← r.orElse? "retry_after" none (Reading.nullable .word64) }

end FaultReport

end Switchboard
