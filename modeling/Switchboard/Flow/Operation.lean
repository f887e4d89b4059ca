import Switchboard.Breaker.Basic
import Switchboard.Bus.Waiters
import Switchboard.Collect.Collector
import Switchboard.Flow.Basic
import Switchboard.Inquiry
import Switchboard.Orchestrate.Progress

/-!
# What agents and their users can do

* `Operation` : the things a flow may ask of the network and of its own agent, and
  `Operation.Answer`, what it is told;
* `Routine` : a flow of operations; `Effect`, `Program` : a flow that may also run the steps of a
  wave side by side;
* `Routine.program` : a routine seen as a program.
-/

namespace Switchboard

/-- A thing to ask of the surroundings. Agents are given by number, times are milliseconds. -/
inductive Operation where
  /-- What time it is. -/
  | clock
  /-- Wait. -/
  | pause (ms : Nat)
  /-- Take hold of the network, so that it stays; whether there still is one. -/
  | hold
  /-- Let go of the network. -/
  | release
  /-- Whether an agent was ever registered. -/
  | attached (agent : Nat)
  /-- Who provides a capability. -/
  | providers (capability : String)
  /-- Who provides what. -/
  | directory
  /-- The names of all registered agents. -/
  | agentNames
  /-- Make up the stamp of a new message. -/
  | stamp
  /-- Put a message into the queue once there is a place, or give up after some time; whether it
  was put there. -/
  | send (m : Message) (patience : Option Nat)
  /-- Start collecting the replies to a request, for the usual time unless one is given. -/
  | collect (requestId capability : String) (expected : List String) (strategy : Strategy)
      (timeout : Option Nat)
  /-- Wait for the answer of a collection. -/
  | collected (p : Pending)
  /-- Start waiting for the first reply to a request. -/
  | expect (requestId : String)
  /-- Wait for the first reply. -/
  | reply (w : Waiter) (timeout : Nat)
  /-- Clear the place for a request after waiting for it in vain. -/
  | giveUp (w : Waiter)
  /-- Write a message into the log of an agent. -/
  | note (agent : Nat) (m : Message)
  /-- How often an agent came to one of its scripts before, counting this time from now on. -/
  | turn (agent : Nat) (script : Option String)
  /-- Start the record of a request of an agent. -/
  | track (agent : Nat) (requestId capability : String) (providers : List String) (data : Json)
  /-- Forget the record of a request of an agent. -/
  | untrack (agent : Nat) (requestId : String)
  /-- Add a reply to the records of an agent. -/
  | noteReply (agent : Nat) (m : Message)
  /-- Ask the breaker of a capability of an agent to let a call through. -/
  | enter (agent : Nat) (capability : String)
  /-- Tell the breaker how a call that was let through ended. -/
  | settle (agent : Nat) (capability : String) (permit : Permit) (how : Settlement)
  deriving Inhabited

/-- What an operation is answered with. -/
def Operation.Answer : Operation → Type
  | .clock => Nat
  | .hold | .attached _ | .send .. => Bool
  | .providers _ | .agentNames => List String
  | .directory => List (String × List String)
  | .stamp => Stamp
  | .collect .. => Pending
  | .collected _ => Collected
  | .expect _ => Waiter
  | .reply .. => Except Fault Message
  | .turn .. => Nat
  | .enter .. => Except Fault Permit
  | .pause _ | .release | .giveUp _ | .note .. | .track .. | .untrack .. | .noteReply ..
  | .settle .. => Unit

/-- A flow of operations. -/
abbrev Routine (α : Type) := Flow Operation.Answer α

/-- An operation, or the steps of a wave side by side. -/
inductive Effect where
  | plain (o : Operation)
  | wave (calls : List StepCall)
  deriving Inhabited

/-- What an effect is answered with: the outcomes of the steps of a wave in their order. -/
def Effect.Answer : Effect → Type
  | .plain o => o.Answer
  | .wave _ => List StepOutcome

/-- A flow that may run the steps of a wave side by side. -/
abbrev Program (α : Type) := Flow Effect.Answer α

/-- A routine seen as a program. -/
def Routine.program {α : Type} (r : Routine α) : Program α := r.embed .plain fun _ answer => answer

/-- Perform an operation. -/
def perform (o : Operation) : Routine o.Answer := .one o

end Switchboard
