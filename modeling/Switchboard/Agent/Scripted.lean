import Switchboard.Agent.Capable

/-!
# Agents that follow a script

What such an agent does is laid down beforehand: whom it asks, how long it takes and how it ends.

* `Behavior` : what is done with one request; `Script` : the behaviors taken in turn;
* `Behavior.run` : a behavior as the work of a capability;
* `Agent.scripted` : an agent that keeps a log and follows scripts;
* `Capability.scripted` : a capability that follows a script.
-/

namespace Switchboard

/-- How the work on a request ends. -/
inductive Ending where
  /-- With a fault; an agent may send the error reply itself. -/
  | fail (f : Fault) (sendsError : Bool)
  /-- By breaking off. -/
  | breakOff (text : String)
  /-- Without a reply, or with null. -/
  | silent
  | respond (v : Json)
  /-- With a text that names the agent, and the data of the request. -/
  | echo
  deriving Inhabited

/-- A request sent while working on another. -/
structure Errand where
  capability : String
  data : Json
  requestId : String
  deriving Inhabited

/-- What is done with one request. -/
structure Behavior where
  errand : Option Errand := none
  delay : Option Nat := none
  ending : Ending := .echo
  deriving Inhabited

/-- Behaviors taken in turn, the last one again and again. -/
abbrev Script := List Behavior

/-- The behavior of a turn. -/
def Script.at (s : Script) (turn : Nat) : Behavior :=
  (s[min turn (s.length - 1)]?).getD {}

namespace Behavior

/-- The reply that names an agent. -/
def echo (name : String) (data : Json) : Json :=
  .obj [("response", .str (name ++ " ok")), ("data", data)]

/-- Take as long as laid down. -/
def wait (b : Behavior) : Routine Unit :=
  match b.delay with
  | none => return ()
  | some ms => perform (.pause ms)

/-- The work of a capability of the named agent. -/
def run (b : Behavior) (name : String) (data : Json) : Routine (Except Fault Json) := do
  b.wait
  match b.ending with
  | .fail f _ => return .error f
  | .breakOff text => .crash text
  | .silent => return .ok .null
  | .respond v => return .ok v
  | .echo => return .ok (echo name data)

/-- The work of an agent on a request. -/
def serve (b : Behavior) (agent : Nat) (name : String) (m : Message) :
    Routine (Except Fault Unit) := do
  match b.errand with
  | none => pure ()
  | some e => let _ ← Network.requestFor agent name e.capability e.data e.requestId
  b.wait
  match b.ending with
  | .fail f sendsError => if sendsError then Agent.refuse agent name m f else return .error f
  | .breakOff text => .crash text
  | .silent => return .ok ()
  | .respond v => Agent.respond agent name m v
  | .echo => Agent.respond agent name m (echo name m.data)

end Behavior

/-- An agent that keeps a log and follows scripts, some of them for certain capabilities. -/
def Agent.scripted (name : String) (capabilities : List String) (standard : Script)
    (byCapability : List (String × Script)) : Agent where
  name := name
  capabilities := capabilitySet capabilities
  keepsLog := true
  onRequest := fun agent m => Routine.program do
    let script := byCapability.find? (some ·.1 == m.capability?)
    let turn : Nat ← perform (.turn agent (script.map (·.1)))
    (((script.map (·.2)).getD standard).at turn).serve agent name m

/-- A capability of the named agent that follows a script. -/
def Capability.scripted (name : String) (descriptor : Descriptor) (script : Script) :
    Capability where
  descriptor := descriptor
  run := fun agent data => do
    let turn : Nat ← perform (.turn agent (some descriptor.name))
    (script.at turn).run name data

end Switchboard
