import Switchboard.Agent.Basic
import Switchboard.Bus.Basic

/-!
# The world of a network

Everything happens on one clock of whole milliseconds. Hosts take turns: the user, the delivery of
messages, the periodic sweep, and every lane, which works on the messages of one agent. A host whose
turn it is goes on until all its work waits for something.

* `Actor` : an agent with what it remembers; `Strand`, `Thread` : work that has come some way;
* `World` : the clock, the bus, the agents and the work under way;
* `Signal` : what happened that work may be waiting for;
* `World.create`, `World.register`, `World.start`, … : what the user does to the network.
-/

namespace Switchboard

/-- An agent with what it remembers. -/
structure Actor where
  agent : Agent
  /-- Whether it was ever registered. -/
  attached : Bool := false
  inquiries : Inquiries := []
  /-- The messages it was given and when, since the log was last read. -/
  log : List (Nat × Message) := []
  /-- How often it came to each of its scripts. -/
  turns : List (Option String × Nat) := []
  breakers : Option BreakerRegistry := none

/-! ## Work under way -/

/-- A moment at which something is due; of two at the same time the one with the lower number was
arranged first. -/
structure Alarm where
  time : Nat
  number : Nat
  deriving DecidableEq, Repr, Inhabited

/-- What work arranged that waits for an operation. -/
structure Parking where
  alarm : Option Alarm := none
  /-- The number in line for a place in the queue. -/
  ticket : Option Nat := none
  deriving DecidableEq, Repr, Inhabited

/-- A call that was let through a breaker and has not ended. -/
structure HeldPermit where
  agent : Nat
  capability : String
  permit : Permit
  deriving DecidableEq, Repr, Inhabited

/-- What work has to give back when it ends in whatever way. -/
structure Belongings where
  /-- How often it holds the network. -/
  holds : Nat := 0
  permits : List HeldPermit := []
  deriving DecidableEq, Repr, Inhabited

/-- A routine that has come some way. -/
structure Strand (α : Type) where
  code : Routine α
  parking : Parking := {}

/-- A step of a wave: under way, or ended. -/
inductive Branch where
  | going (s : Strand StepOutcome)
  | ended (o : StepOutcome)

/-- A program that has come some way. -/
structure Thread (α : Type) where
  code : Program α
  parking : Parking := {}
  /-- The steps of the wave that the program waits for. -/
  wave : Option (List Branch) := none
  belongings : Belongings := {}

/-- The handling of a message in a lane. -/
structure Handling where
  number : Nat
  lane : Nat
  thread : Thread Unit

/-- Whose turn it may be. -/
inductive Host where
  | user
  | delivery
  | sweep
  | lane (position : Nat)
  deriving DecidableEq, Repr, Inhabited

/-- What happened that work may be waiting for. -/
inductive Signal where
  /-- There is something to do for a host. -/
  | wake (h : Host)
  /-- A place in the queue is kept for a number. -/
  | granted (ticket : Nat)
  /-- Someone who waits for a reply has it, or lost his place. -/
  | replied (handle : Nat)
  /-- A collection has its answer. -/
  | resolved (handle : Nat)
  /-- The network is gone. -/
  | gone
  deriving DecidableEq, Repr, Inhabited

/-! ## The world -/

/-- The clock, the bus, the agents and the work under way. -/
structure World where
  settings : Settings := {}
  now : Nat := 0
  /-- Nanoseconds from the first instant of the calendar to the latest record of an agent. -/
  recordClock : Nat := 8336 * Nat.pow 10 18
  bus : Bus
  actors : List Actor := []
  handlings : List Handling := []
  /-- The lanes and numbers of handlings that can go on, in the order in which they became able
  to. -/
  runnable : List (Nat × Nat) := []
  /-- Hosts that have something to do, in the order in which it came up. -/
  ready : List Host := []
  /-- What happened in this turn. -/
  signals : List Signal := []
  nextHandling : Nat := 0
  nextAlarm : Nat := 0
  nextMessage : Nat := 0
  /-- Whether messages are being delivered. -/
  running : Bool := false
  sweeper : Option Sweeper := none
  /-- Whether the user keeps the network. -/
  owned : Bool := true
  /-- How often work holds the network. -/
  holds : Nat := 0
  /-- Whether nobody kept the network. -/
  gone : Bool := false

namespace World

/-- A network of the given settings without agents, its delivery not started. -/
def opened (settings : Settings) : World := { settings, bus := .opened settings.network }

/-- Tell that something happened. -/
def signal (w : World) (s : Signal) : World := { w with signals := w.signals ++ [s] }

/-- Tell that several things happened. -/
def signalAll (w : World) (ss : List Signal) : World := { w with signals := w.signals ++ ss }

/-- Change an agent's memory. -/
def modifyActor (w : World) (agent : Nat) (change : Actor → Actor) : World :=
  { w with actors := w.actors.modify agent change }

/-- Change the collections, telling whose answers are there now. -/
def withCollector (w : World) (c : Collector) : World :=
  let fresh := c.results.drop w.bus.collector.results.length
  signalAll { w with bus := { w.bus with collector := c } } (fresh.map fun r => .resolved r.1)

/-- The network is gone once nobody keeps it. -/
def closeIfAbandoned (w : World) : World :=
  if w.gone || w.owned || w.holds != 0 then w
  else { w with gone := true, running := false, sweeper := none, bus := w.bus.shut }.signal .gone

/-! ## What the user does -/

/-- Make an agent, which is not registered yet; its number. -/
def create (w : World) (a : Agent) : World × Nat :=
  let breakers := a.breakers.map fun p => { standard := p }
  ({ w with actors := w.actors ++ [{ agent := a, breakers }] }, w.actors.length)

/-- Register an agent. -/
def register (w : World) (agent : Nat) : World :=
  match w.actors[agent]? with
  | none => w
  | some actor =>
    let w := w.modifyActor agent fun a => { a with attached := true }
    { w with bus := w.bus.register actor.agent.name agent actor.agent.capabilities }

/-- Remove the agent of a name; whether there was one. -/
def unregister (w : World) (name : String) : World × Bool :=
  let (bus, removed) := w.bus.unregister name
  ({ w with bus }, removed)

/-- Start to deliver messages, and the periodic sweep. -/
def start (w : World) : World :=
  if w.running then w
  else
    { w with
      running := true
      sweeper := some ⟨w.now, w.settings.aggregator.sweepInterval⟩ }.signalAll
        [.wake .delivery, .wake .sweep]

/-- Stop to deliver messages; those in the queue stay there. -/
def stop (w : World) : World := { w with running := false, sweeper := none }

/-- The user no longer keeps the network. -/
def letGo (w : World) : World := { w with owned := false }.closeIfAbandoned

/-- The log of an agent since it was last read. -/
def readLog (w : World) (agent : Nat) : World × List (Nat × Message) :=
  (w.modifyActor agent fun a => { a with log := [] },
    ((w.actors[agent]?).map (·.log)).getD [])

/-- Whether an agent has a network. -/
def hasNetwork (w : World) (agent : Nat) : Bool :=
  ((w.actors[agent]?).map (·.attached)).getD false && !w.gone

/-- Forget the records of an agent that are so many milliseconds old; how many that are. -/
def cleanup (w : World) (agent : Nat) (age : Nat) : Option (World × Nat) := do
  let actor ← w.actors[agent]?
  let (kept, removed) ← actor.inquiries.cleanup (w.recordClock + 1) (.ofMillis age)
  return (w.modifyActor agent fun a => { a with inquiries := kept }, removed)

end World

end Switchboard
