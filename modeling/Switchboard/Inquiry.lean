import Switchboard.Message
import Switchboard.Time.Span

/-!
# Inquiries

An agent that asks others for a capability keeps a record of whom it still waits for. Times are
nanoseconds since the first instant of the calendar.

* `Inquiry` : a request under way; `Inquiry.outstanding` : the providers that have not replied;
* `Inquiries` : the records by request, oldest first;
* `Inquiries.track`, `Inquiries.remove` : start and give up a record;
* `Inquiries.recordReply` : a reply, and whether it was the last one;
* `Inquiries.cleanup` : forget records that are older than an age.
-/

namespace Switchboard

/-- A request to other agents that is under way. -/
structure Inquiry where
  requestId : String
  capability : String
  /-- Whom the request was sent to. -/
  providers : List String
  data : Json
  responses : List (String × Json) := []
  errors : List (String × FaultReport) := []
  createdAt : Nat
  deriving DecidableEq, Inhabited

namespace Inquiry

/-- Whether an agent has replied. -/
def hasReplied (i : Inquiry) (agent : String) : Bool :=
  i.responses.any (·.1 == agent) || i.errors.any (·.1 == agent)

/-- The providers that have not replied. -/
def outstanding (i : Inquiry) : List String := i.providers.filter fun p => !i.hasReplied p

/-- Add a reply; messages of other kinds are none. -/
def addReply (i : Inquiry) (m : Message) : Option Inquiry :=
  match m.kind with
  | .capabilityResponse => some { i with responses := i.responses ++ [(m.fromAgent, m.content)] }
  | .error => some { i with errors := i.errors ++ [(m.fromAgent, .ofContent m.content)] }
  | _ => none

/-- The record in JSON, without its age. -/
def toJson (i : Inquiry) : Json :=
  .obj [
    ("request_id", .str i.requestId),
    ("capability", .str i.capability),
    ("providers", Json.strings i.providers),
    ("data", i.data),
    ("responses", .arr (i.responses.map fun (sender, content) => .arr [.str sender, content])),
    ("errors", .arr (i.errors.map fun (sender, report) => .arr [.str sender, report.toJson])),
    ("outstanding", Json.strings i.outstanding)]

end Inquiry

/-- What a reply means for the one who asked. -/
inductive ReplyProgress where
  /-- So many providers have not replied. -/
  | pending (remaining : Nat)
  /-- All have, and the record is closed. -/
  | complete (inquiry : Inquiry)
  /-- Nobody asked, or the message is no reply. -/
  | unknown
  deriving DecidableEq, Inhabited

/-- The records of an agent by request, oldest first. -/
abbrev Inquiries := List Inquiry

namespace Inquiries

/-- The record of a request. -/
def get? (is : Inquiries) (requestId : String) : Option Inquiry :=
  is.find? (·.requestId == requestId)

/-- Forget the record of a request. -/
def remove (is : Inquiries) (requestId : String) : Inquiries :=
  is.filter (·.requestId != requestId)

/-- Record a request; an older record of the same id is replaced. -/
def track (is : Inquiries) (now : Nat) (requestId capability : String) (providers : List String)
    (data : Json) : Inquiries :=
  is.remove requestId ++ [{ requestId, capability, providers, data, createdAt := now }]

/-- Put a record in the place of the one with its id. -/
def put (is : Inquiries) (inquiry : Inquiry) : Inquiries :=
  is.map fun i => if i.requestId == inquiry.requestId then inquiry else i

/-- Add a reply to the record of its request; the last one closes the record. -/
def recordReply (is : Inquiries) (m : Message) : Inquiries × ReplyProgress :=
  match (is.get? m.requestId).bind (·.addReply m) with
  | none => (is, .unknown)
  | some inquiry =>
    match inquiry.outstanding with
    | [] => (is.remove m.requestId, .complete inquiry)
    | remaining => (is.put inquiry, .pending remaining.length)

/-- The longest age in nanoseconds that is not taken for zero. -/
def maxAge : Nat := (Nat.pow 2 63 - 1) * 1000000

/-- Forget the records that are `age` old or older; how many that are. An age too long to be
represented counts as none, and one that reaches back before the calendar has no answer. -/
def cleanup (is : Inquiries) (now : Nat) (age : Span) : Option (Inquiries × Nat) :=
  let age := if maxAge < age.nanos then 0 else age.nanos
  if now < age then none
  else
    let kept := is.filter fun i => decide (now - age < i.createdAt)
    some (kept, is.length - kept.length)

end Inquiries

end Switchboard
