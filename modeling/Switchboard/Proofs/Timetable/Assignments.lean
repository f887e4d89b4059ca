import Switchboard.Agent.Basic
import Switchboard.Proofs.Collect.Operations
import Switchboard.Proofs.Orchestrate.Steps

/-!
# Steps at work

A step that is dispatched at a time asks an agent whose handler takes a known time and ends in a
known way. So it is known how the step will end, and when.

* `Verdict`, `Post` : how a handler ends, and who has it;
* `Assignment` : a step, the time at which it is dispatched and whom it asks;
* `Assignment.outcome`, `Assignment.stop` : how the step ends, and when;
* `Assignment.outcome_of_reply`, `Assignment.outcome_of_silence` : the collection of a step says so
  when the reply is there in time, and when it is not.
-/

namespace Switchboard

/-- How a handler ends: with a value, with a fault, or by breaking off with a text. -/
abbrev Verdict := Except String (Except Fault Json)

namespace Verdict

/-- The fault that is reported, if there is one. -/
def fault? : Verdict → Option Fault
  | .ok (.ok _) => none
  | .ok (.error f) => some f
  | .error text => some (Agent.broken text)

/-- The content of the reply. -/
def content : Verdict → Json
  | .ok (.ok v) => v
  | .ok (.error f) => f.report.content
  | .error text => (Agent.broken text).report.content

/-- The result of a step that has the reply. -/
def result : Verdict → Json
  | .ok (.ok v) => v
  | .ok (.error f) => failureOf f.report.message
  | .error text => failureOf ("handler panicked: " ++ text)

end Verdict

/-- An agent that provides a capability: its name, its lane, its number, what the breaker of the
capability says to the request, and how long the handler takes and how it ends then. -/
structure Post where
  name : String
  lane : Nat
  agent : Nat
  admission : Except Fault Permit
  delay : Nat
  verdict : Verdict

/-- A step that is dispatched at a time, and whom it asks. -/
structure Assignment where
  call : StepCall
  time : Nat
  post : Post

namespace Assignment

variable (x : Assignment)

/-- How long the step may take. -/
def budget : Nat := x.call.budget x.time

/-- When the step is out of time. -/
def limit : Nat := x.time + x.budget

/-- When the handler ends. -/
def due : Nat := x.time + x.post.delay

/-- The handler does not end at the very moment at which the step is out of time. -/
def Clear : Prop := x.post.delay ≠ x.budget

/-- How the step ends: with the reply if the handler ends in time. -/
def outcome : StepOutcome :=
  if x.post.delay < x.budget then ⟨x.post.verdict.result, some x.post.name, false⟩
  else ⟨failureOf ("Timed out waiting for '" ++ x.call.capability ++ "'"), none, true⟩

/-- When the step ends. -/
def stop : Nat := x.time + min x.post.delay x.budget

/-- What the step collects. -/
def query : Query where
  requestId := x.call.requestId
  capability := x.call.capability
  expected := [x.post.name]
  strategy := .first
  timeout := x.budget

/-- The collection of the step before any reply. -/
def collection : Collection := x.query.start x.time

/-- What the step holds, whose collection has a handle. -/
def pending (handle : Nat) : Pending :=
  ⟨handle, x.call.requestId, x.call.capability, .first, x.limit⟩

/-- The reply of the handler. -/
def reply : Reply := ⟨x.post.name, x.post.verdict.content, x.post.verdict.fault?.isSome⟩

/-- The breaker behind which the request of the step is served. -/
def Behind (agent : Nat) (capability : String) : Prop :=
  x.post.agent = agent ∧ x.call.capability = capability

/-- A message is the request of the step. -/
def Requests (m : Message) : Prop :=
  ∃ stamp, m =
    .request stamp x.call.sender x.post.name x.call.capability x.call.data x.call.requestId

/-- A message is the reply to the request of the step. -/
structure Replies (m : Message) : Prop where
  isReply : m.kind.isReply = true
  requestId : m.requestId = x.call.requestId
  toAgent : m.toAgent = some x.call.sender
  reply : (⟨m.fromAgent, m.content, decide (m.kind = .error)⟩ : Reply) = x.reply

end Assignment

/-- The message of a report can be read off its content. -/
theorem FaultReport.message_ofContent (r : FaultReport) :
    (ofContent r.content).message = r.message := by
  unfold ofContent content
  rfl

namespace Assignment

variable {x : Assignment}

theorem isComplete_receive : (x.collection.receive x.reply).isComplete = true := by
  unfold Collection.receive Collection.add reply
  cases x.post.verdict.fault? <;> rfl

/-- A step whose only reply is an error ends with its wording. -/
theorem outcome_of_error (x : Assignment) (f : Fault) :
    x.call.outcome
        ((x.collection.receive ⟨x.post.name, f.report.content, true⟩).conclude false) =
      ⟨failureOf f.report.message, some x.post.name, false⟩ := by
  rw [← FaultReport.message_ofContent]
  rfl

/-- The reply that comes in time decides how the step ends. -/
theorem outcome_of_reply (h : x.post.delay < x.budget) :
    x.call.outcome ((x.collection.receive x.reply).conclude false) = x.outcome := by
  rw [outcome, if_pos h, reply]
  rcases x.post.verdict with text | f | v
  · exact x.outcome_of_error (Agent.broken text)
  · exact x.outcome_of_error f
  · rfl

/-- Without a reply the step is out of time. -/
theorem outcome_of_silence (h : x.budget < x.post.delay) :
    x.call.outcome (x.collection.conclude true) = x.outcome := by
  rw [outcome, if_neg (by omega)]
  rfl

end Assignment

end Switchboard
