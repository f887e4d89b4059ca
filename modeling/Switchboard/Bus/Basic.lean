import Switchboard.Bus.Directory
import Switchboard.Bus.Gate
import Switchboard.Bus.Waiters
import Switchboard.Collect.Collector
import Switchboard.Settings

/-!
# The message bus

Messages wait in a queue of bounded size until they are delivered. An agent that registers is given
a lane, in which the messages for it are lined up; whoever registers under the same name later has
a lane of its own, and the old one is only emptied.

* `Bus` : the queue, the agents by name with their lanes, who provides what, and who waits for
  replies; `Bus.opened` : an empty one;
* `Bus.join`, `Bus.register`, `Bus.unregister` : agents come and go;
* `Bus.accept`, `Bus.take?`, `Bus.deliver` : a message enters the queue, leaves it, and is handed
  to those concerned;
* `Bus.shut` : the bus is gone.
-/

namespace Switchboard

/-- The messages for one registration of an agent, first in first out. -/
structure Lane where
  /-- The agent, as a number. -/
  agent : Nat
  inbox : List Message := []
  deriving DecidableEq, Inhabited

/-- An agent that is registered under a name. -/
structure Member where
  name : String
  agent : Nat
  /-- The position of its lane. -/
  lane : Nat
  deriving DecidableEq, Repr, Inhabited

/-- The message bus. -/
structure Bus where
  gate : Gate
  queue : List Message := []
  members : List Member := []
  lanes : List Lane := []
  directory : Directory := {}
  waiters : Waiters := {}
  collector : Collector := {}
  deriving DecidableEq, Inhabited

/-- Whom a delivered message concerned. -/
structure Delivery where
  /-- The lanes it was put into. -/
  lanes : List Nat := []
  /-- The one who waited for it. -/
  waiter : Option Nat := none
  /-- The handles of the collections that it completed. -/
  resolved : List Nat := []
  deriving DecidableEq, Repr, Inhabited

namespace Bus

/-- An empty bus whose queue has the size of the settings, and room for one message at least. -/
def opened (s : NetworkSettings) : Bus := { gate := { places := max s.queueSize.toNat 1 } }

/-- Whether there can be a queue of the size of the settings. -/
def canOpen (s : NetworkSettings) : Bool := s.queueSize.toNat ≤ Gate.most

/-! ## Agents -/

/-- The agent registered under a name. -/
def member? (b : Bus) (name : String) : Option Member := b.members.find? (·.name == name)

/-- Give an agent a lane under its name; who had the name loses it. -/
def join (b : Bus) (name : String) (agent : Nat) : Bus :=
  { b with
    lanes := b.lanes ++ [{ agent }]
    members := b.members.filter (·.name != name) ++ [⟨name, agent, b.lanes.length⟩] }

/-- Write down what an agent provides. -/
def enroll (b : Bus) (name : String) (capabilities : List String) : Bus :=
  { b with directory := b.directory.enroll name capabilities }

/-- Register an agent under its name. -/
def register (b : Bus) (name : String) (agent : Nat) (capabilities : List String) : Bus :=
  (b.join name agent).enroll name capabilities

/-- Take the name from an agent; whether somebody had it. -/
def leave (b : Bus) (name : String) : Bus × Bool :=
  ({ b with members := b.members.filter (·.name != name) }, (b.member? name).isSome)

/-- Write down that an agent provides nothing any more. -/
def withdraw (b : Bus) (name : String) : Bus :=
  { b with directory := b.directory.withdraw name }

/-- Remove an agent; whether there was one. -/
def unregister (b : Bus) (name : String) : Bus × Bool :=
  match b.leave name with
  | (b, true) => (b.withdraw name, true)
  | (b, false) => (b, false)

/-- The names of the registered agents, sorted. -/
def names (b : Bus) : List String := (b.members.map (·.name)).mergeSort (· ≤ ·)

/-! ## Messages -/

/-- Put a message at the end of the queue. -/
def accept (b : Bus) (m : Message) : Bus := { b with queue := b.queue ++ [m] }

/-- Take the first message off the queue. Its place becomes free, and if someone waits in line for
it, his number is told. -/
def take? (b : Bus) : Option (Message × Option Nat × Bus) :=
  match b.queue with
  | [] => none
  | m :: rest =>
    let (gate, granted) := b.gate.release
    some (m, granted, { b with queue := rest, gate })

/-- Put a message at the end of a lane. -/
def handOver (b : Bus) (lane : Nat) (m : Message) : Bus :=
  { b with lanes := b.lanes.modify lane fun l => { l with inbox := l.inbox ++ [m] } }

/-- The lanes that a message goes to: its addressee's, or everybody's but the sender's. -/
def targets (b : Bus) (m : Message) : List Nat :=
  match m.toAgent with
  | some name => ((b.member? name).map (·.lane)).toList
  | none => (b.members.filter (·.name != m.fromAgent)).map (·.lane)

/-- Hand a reply to the one who waits for it and to the collection of its request. -/
def resolveReply (b : Bus) (m : Message) : Bus × Delivery :=
  let waiter := b.waiters.handle? m.requestId
  let known := b.collector.results.length
  let collector :=
    (b.collector.add m.requestId m.fromAgent m.content (decide (m.kind = .error))).1
  ({ b with waiters := b.waiters.offer m, collector },
    { waiter, resolved := (collector.results.drop known).map (·.1) })

/-- Hand a message to everybody whom it concerns. -/
def deliver (b : Bus) (m : Message) : Bus × Delivery :=
  let (b, d) := if m.kind.isReply then b.resolveReply m else (b, {})
  let lanes := b.targets m
  (lanes.foldl (fun b lane => b.handOver lane m) b, { d with lanes })

/-- Nothing is left of the bus but the messages that are in lanes already. -/
def shut (b : Bus) : Bus :=
  { b with
    gate := { b.gate with waiting := [], granted := [] }
    queue := []
    members := []
    directory := {}
    waiters := { b.waiters with entries := [] }
    collector := { b.collector with entries := [] } }

end Bus

end Switchboard
