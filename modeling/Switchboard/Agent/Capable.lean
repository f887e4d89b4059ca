import Switchboard.Agent.Basic

/-!
# Agents that offer capabilities

* `Capability` : a listed capability and what it does with the data of a request;
* `guarded` : work behind a breaker;
* `Agent.offering` : the agent that offers capabilities, each behind a breaker of its own if there
  are breakers.
-/

namespace Switchboard

/-- A capability: how it is listed and what it does. -/
structure Capability where
  descriptor : Descriptor
  /-- What it does with data, for the agent of the given number. -/
  run : Nat → Json → Routine (Except Fault Json)

/-- Work behind the breaker of a capability: it is refused, or done and its end recorded. Work that
breaks off leaves its permit unsettled. -/
def guarded {α : Type} (agent : Nat) (capability : String) (work : Routine (Except Fault α)) :
    Routine (Except Fault α) := do
  let admission : Except Fault Permit ← perform (.enter agent capability)
  match admission with
  | .error f => return .error f
  | .ok permit =>
    match ← work.attempt with
    | .ok result =>
      perform (.settle agent capability permit (Breaker.settlementOf result))
      return result
    | .error text =>
      perform (.settle agent capability permit .abandoned)
      .crash text

namespace Agent

/-- The fault of asking an agent for a capability it does not offer. -/
def notOffered (name capability : String) : Fault :=
  .capabilityNotFound (name ++ " does not provide '" ++ capability ++ "'")

/-- Of capabilities with the same name the last one. -/
def find? (capabilities : List Capability) (name : String) : Option Capability :=
  capabilities.reverse.find? (·.descriptor.name == name)

/-- Run a capability of an agent. -/
def invokeWith (name : String) (capabilities : List Capability) (hasBreakers : Bool) (agent : Nat)
    (capability : String) (data : Json) : Routine (Except Fault Json) :=
  match find? capabilities capability with
  | none => return .error (notOffered name capability)
  | some c => if hasBreakers then guarded agent capability (c.run agent data) else c.run agent data

/-- The agent that offers capabilities. -/
def offering (name : String) (capabilities : List Capability) (description : String := "")
    (breakers : Option BreakerPolicy := none) : Agent :=
  let names := capabilitySet (capabilities.map (·.descriptor.name))
  let invoke := invokeWith name capabilities breakers.isSome
  { name, description, breakers
    capabilities := names
    descriptors := names.filterMap fun n => (find? capabilities n).map (·.descriptor)
    onRequest := fun agent m => Routine.program do
      match ← invoke agent (m.capability?.getD "") m.data with
      | .error f => return .error f
      | .ok result => respond agent name m result
    invoke := some invoke }

end Agent

end Switchboard
