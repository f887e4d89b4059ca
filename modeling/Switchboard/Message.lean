import Switchboard.Fault
import Switchboard.Time.Timestamp

/-!
# Messages

* `MessageKind` : what a message is for; replies answer an earlier request;
* `Message` : an envelope between two agents, or from one agent to all others;
* `Message.request`, `Message.response`, `Message.fault` : the three kinds every agent knows;
* `Message.capability?`, `Message.data`, `Message.faultReport?` : what their content says.
-/

namespace Switchboard

/-- What a message is for. -/
inductive MessageKind where
  | capabilityRequest
  | capabilityResponse
  | error
  /-- A kind of the application's own. -/
  | custom (name : String)
  deriving DecidableEq, Repr, Inhabited

namespace MessageKind

/-- The name of a kind. -/
def name : MessageKind → String
  | capabilityRequest => "capability_request"
  | capabilityResponse => "capability_response"
  | error => "error"
  | custom name => name

/-- The kind that a name stands for. -/
def ofName (name : String) : MessageKind :=
  if name = "capability_request" then .capabilityRequest
  else if name = "capability_response" then .capabilityResponse
  else if name = "error" then .error
  else .custom name

/-- Responses and errors answer an earlier request. -/
def isReply : MessageKind → Bool
  | capabilityResponse | error => true
  | _ => false

/-- A kind in JSON; the name of a custom one is wrapped. -/
def toJson : MessageKind → Json
  | custom name => .obj [("custom", .str name)]
  | kind => .str kind.name

/-- A kind from JSON. -/
def read : Reading MessageKind
  | _ + 1, .obj [(some "custom", .str name)] => name.map .custom
  | room, w =>
    Reading.choice
      [("capability_request", .capabilityRequest), ("capability_response", .capabilityResponse),
        ("error", .error)] room w

end MessageKind

/-- What tells one message from all others: its name and when it was made. -/
structure Stamp where
  id : String
  timestamp : Timestamp
  deriving DecidableEq, Repr, Inhabited

/-- An envelope between agents; without an addressee it goes to everybody but the sender. -/
structure Message where
  id : String
  fromAgent : String
  toAgent : Option String
  kind : MessageKind
  content : Json
  requestId : String
  /-- The message that this one answers. -/
  replyTo : Option String
  timestamp : Timestamp
  deriving DecidableEq, Inhabited

namespace Message

/-- A message that answers no other. -/
def new (stamp : Stamp) (sender : String) (target : Option String) (kind : MessageKind)
    (content : Json) (requestId : String) : Message :=
  ⟨stamp.id, sender, target, kind, content, requestId, none, stamp.timestamp⟩

/-- The same message as an answer to another. -/
def answering (m : Message) (id : String) : Message := { m with replyTo := some id }

/-- The content of a capability request. -/
def requestContent (capability : String) (data : Json) : Json :=
  .obj [("capability", .str capability), ("data", data)]

/-- Ask one agent for a capability. -/
def request (stamp : Stamp) (sender target capability : String) (data : Json)
    (requestId : String) : Message :=
  new stamp sender (some target) .capabilityRequest (requestContent capability data) requestId

/-- The result of a capability request. -/
def response (stamp : Stamp) (sender target : String) (result : Json) (requestId replyTo : String) :
    Message :=
  (new stamp sender (some target) .capabilityResponse result requestId).answering replyTo

/-- The failure of a request. -/
def fault (stamp : Stamp) (sender target : String) (report : FaultReport) (requestId : String)
    (replyTo : Option String) : Message :=
  { new stamp sender (some target) .error report.content requestId with replyTo }

/-- Whether the message goes to everybody but its sender. -/
def isBroadcast (m : Message) : Bool := m.toAgent.isNone

/-- The capability that a request names. -/
def capability? (m : Message) : Option String := (m.content.get? "capability").bind Json.string?

/-- The data of a request. -/
def data (m : Message) : Json := m.content.getD "data"

/-- The report in an error message. -/
def faultReport? (m : Message) : Option FaultReport :=
  match m.kind with
  | .error => some (.ofContent m.content)
  | _ => none

/-- The fields of a message, in order. -/
def fieldNames : List String :=
  ["id", "from_agent", "to_agent", "kind", "content", "request_id", "reply_to", "timestamp"]

/-- A message in JSON. -/
def toJson (m : Message) : Json :=
  .obj ([
      ("id", .str m.id),
      ("from_agent", .str m.fromAgent),
      ("to_agent", Json.ofOption .str m.toAgent),
      ("kind", m.kind.toJson),
      ("content", m.content),
      ("request_id", .str m.requestId)]
    ++ (m.replyTo.map fun id => ("reply_to", Json.str id)).toList
    ++ [("timestamp", .str m.timestamp.text)])

/-- A message from JSON. -/
def read : Reading Message := fun room w => do
  let r ← Record.of? fieldNames room w
  return {
    id := ← r.required? "id" .string
    fromAgent := ← r.required? "from_agent" .string
    toAgent := ← r.optional? "to_agent" .string
    kind := ← r.required? "kind" MessageKind.read
    content := ← r.required? "content" .value
    requestId := ← r.required? "request_id" .string
    replyTo := ← r.optional? "reply_to" .string
    timestamp := ← r.required? "timestamp" fun room w =>
      (Reading.string room w).bind Timestamp.parse? }

end Message

end Switchboard
