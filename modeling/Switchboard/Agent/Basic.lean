import Switchboard.Breaker.Registry
import Switchboard.Network.Requests

/-!
# Agents

* `Descriptor` : a capability as it is listed;
* `Agent` : a name, capabilities, and what is done with a request;
* `Agent.handle` : what is done with a message of any kind;
* `Agent.serve` : the same, a failed or broken-off request being answered with an error.
-/

namespace Switchboard

/-- A capability as it is listed. -/
structure Descriptor where
  name : String
  description : String := ""
  deriving DecidableEq, Repr, Inhabited

namespace Descriptor

/-- A listed capability in JSON. -/
def toJson (d : Descriptor) : Json :=
  .obj [("name", .str d.name), ("description", .str d.description)]

/-- A listed capability from JSON. -/
def read : Reading Descriptor := fun room w => do
  let r ← Record.of? ["name", "description"] room w
  return {
    name := ← r.required? "name" .string
    description := ← r.orElse? "description" "" .string }

end Descriptor

/-- An agent. Its flows are given the number under which it is known. -/
structure Agent where
  name : String
  /-- Sorted and without repetitions. -/
  capabilities : List String
  description : String := ""
  /-- The capabilities as they are listed. -/
  descriptors : List Descriptor := []
  /-- Whether it keeps a log of the messages it is given. -/
  keepsLog : Bool := false
  /-- The limits of its breakers, one for each capability, if it has any. -/
  breakers : Option BreakerPolicy := none
  /-- What it does with a request. -/
  onRequest : Nat → Message → Program (Except Fault Unit)
  /-- Run one of its capabilities on some data, for agents that can be asked directly. -/
  invoke : Option (Nat → String → Json → Routine (Except Fault Json)) := none

namespace Agent

/-- Capabilities sorted and without repetitions. -/
def capabilitySet (names : List String) : List String :=
  (names.mergeSort (· ≤ ·)).eraseReps

/-- Answer a request. -/
def respond (agent : Nat) (name : String) (request : Message) (result : Json) :
    Routine (Except Fault Unit) :=
  Network.sendFor agent name fun stamp =>
    .response stamp name request.fromAgent result request.requestId request.id

/-- Answer a request with an error. -/
def refuse (agent : Nat) (name : String) (request : Message) (f : Fault) :
    Routine (Except Fault Unit) :=
  Network.sendFor agent name fun stamp =>
    .fault stamp name request.fromAgent f.report request.requestId (some request.id)

/-- What an agent does with a message: requests are its own matter, replies go into its records,
and messages of other kinds are at most logged. -/
def handle (a : Agent) (agent : Nat) (m : Message) : Program (Except Fault Unit) := do
  if a.keepsLog then (perform (.note agent m)).program
  match m.kind with
  | .capabilityRequest => a.onRequest agent m
  | .capabilityResponse | .error =>
    (perform (.noteReply agent m)).program
    return .ok ()
  | .custom _ => return .ok ()

/-- The fault of a request whose handling broke off. -/
def broken (text : String) : Fault := .agent ("handler panicked: " ++ text)

/-- How the handling of a message failed, if it did. -/
def failure? : Except String (Except Fault Unit) → Option Fault
  | .ok (.ok ()) => none
  | .ok (.error f) => some f
  | .error text => some (broken text)

/-- Tell the sender of a request that it failed, as long as there is a network. -/
def reportFailure (name : String) (request : Message) (f : Fault) : Routine Unit := do
  let live : Bool ← perform .hold
  if live then
    let stamp : Stamp ← perform .stamp
    Network.send
      (.fault stamp name request.fromAgent f.report request.requestId (some request.id))
    perform .release

/-- Handle a message; a request that fails or breaks off is answered with an error. -/
def serve (a : Agent) (agent : Nat) (m : Message) : Program Unit := do
  match failure? (← (a.handle agent m).attempt), m.kind with
  | some f, .capabilityRequest => (reportFailure a.name m f).program
  | _, _ => return ()

end Agent

end Switchboard
