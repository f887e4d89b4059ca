import Switchboard.World.Basic

/-!
# How operations are answered

* `Scene` : the world, and what the work that asks has arranged and holds;
* `Scene.attempt` : the answer of an operation, if there is one already; otherwise the work has to
  wait;
* `Operation.waitsFor` : what that work waits for.
-/

namespace Switchboard

/-- The world, and what the work that asks has arranged and holds. -/
structure Scene where
  world : World
  parking : Parking := {}
  belongings : Belongings := {}

namespace Scene

/-- Arrange to be woken. -/
def wakeAt (s : Scene) (time : Nat) : Scene :=
  match s.parking.alarm with
  | some _ => s
  | none =>
    { s with
      parking := { s.parking with alarm := some ⟨time, s.world.nextAlarm⟩ }
      world := { s.world with nextAlarm := s.world.nextAlarm + 1 } }

/-- Whether the arranged time has come. -/
def timeIsUp (s : Scene) : Bool :=
  match s.parking.alarm with
  | some alarm => alarm.time ≤ s.world.now
  | none => false

/-- Wait for a length of time. -/
def pause (s : Scene) (ms : Nat) : Scene × Option Unit :=
  if ms = 0 ∨ s.timeIsUp then (s, some ()) else (s.wakeAt (s.world.now + ms), none)

/-- Put a message into a place of the queue. -/
def accept (s : Scene) (gate : Gate) (m : Message) : Scene :=
  { s with
    world := { s.world with bus := { s.world.bus with gate }.accept m }.signal (.wake .delivery) }

/-- Give up a number in line. -/
def leaveLine (w : World) (ticket : Nat) : World :=
  let (gate, granted) := w.bus.gate.leave ticket
  { w with bus := { w.bus with gate } }.signalAll (granted.map Signal.granted).toList

/-- Put a message into the queue as soon as there is a place. -/
def send (s : Scene) (m : Message) (patience : Option Nat) : Scene × Option Bool :=
  match s.parking.ticket with
  | none =>
    match s.world.bus.gate.take? with
    | some gate => (s.accept gate m, some true)
    | none =>
      if patience = some 0 then (s, some false)
      else
        let (gate, ticket) := s.world.bus.gate.line
        let s := { s with
          parking := { s.parking with ticket := some ticket }
          world := { s.world with bus := { s.world.bus with gate } } }
        match patience with
        | some ms => (s.wakeAt (s.world.now + ms), none)
        | none => (s, none)
  | some ticket =>
    match s.world.bus.gate.claim? ticket with
    | some gate => (s.accept gate m, some true)
    | none =>
      if s.timeIsUp then ({ s with world := leaveLine s.world ticket }, some false) else (s, none)

/-- Hold the network, if there still is one. -/
def hold (s : Scene) : Scene × Option Bool :=
  if s.world.gone then (s, some false)
  else
    ({ s with
        world := { s.world with holds := s.world.holds + 1 }
        belongings := { s.belongings with holds := s.belongings.holds + 1 } }, some true)

/-- Let go of the network. -/
def release (s : Scene) : Scene × Option Unit :=
  ({ s with
      world := { s.world with holds := s.world.holds - 1 }.closeIfAbandoned
      belongings := { s.belongings with holds := s.belongings.holds - 1 } }, some ())

/-- Make up the stamp of a new message. -/
def stamp (s : Scene) : Scene × Option Stamp :=
  ({ s with world := { s.world with nextMessage := s.world.nextMessage + 1 } },
    some ⟨"m" ++ toString s.world.nextMessage, .ofMillis s.world.now⟩)

/-- Start collecting the replies to a request. -/
def collect (s : Scene) (requestId capability : String) (expected : List String)
    (strategy : Strategy) (timeout : Option Nat) : Scene × Option Pending :=
  let timeout := timeout.getD s.world.settings.aggregator.defaultTimeoutMs.toNat
  let (collector, pending) :=
    s.world.bus.collector.register s.world.now requestId capability expected strategy timeout
  ({ s with world := s.world.withCollector collector }, some pending)

/-- Wait for the answer of a collection. -/
def collected (s : Scene) (p : Pending) : Scene × Option Collected :=
  match s.world.bus.collector.wait s.world.now p with
  | some (collector, answer) =>
    ({ s with world := s.world.withCollector collector }, some answer)
  | none => (s.wakeAt p.deadline, none)

/-- Start waiting for the first reply to a request. -/
def expect (s : Scene) (requestId : String) : Scene × Option Waiter :=
  let waiters := s.world.bus.waiters
  let (rest, waiter) := waiters.expect requestId
  let superseded := (waiters.handle? requestId).map Signal.replied
  ({ s with
      world := { s.world with bus := { s.world.bus with waiters := rest } }.signalAll
        superseded.toList }, some waiter)

/-- Wait for the first reply. -/
def reply (s : Scene) (w : Waiter) (timeout : Nat) : Scene × Option (Except Fault Message) :=
  match s.world.bus.waiters.wait w timeout (timeout = 0 || s.timeIsUp) with
  | some answer => (s, some answer)
  | none => (s.wakeAt (s.world.now + timeout), none)

/-- Clear the place for the request of someone who waited in vain. The place goes by the request
alone: if somebody else has it by now, it is he who loses it. -/
def giveUp (s : Scene) (w : Waiter) : Scene × Option Unit :=
  let waiters := s.world.bus.waiters
  let evicted := (waiters.handle? w.requestId).map Signal.replied
  ({ s with
      world := { s.world with
        bus := { s.world.bus with waiters := waiters.remove w.requestId } }.signalAll
          evicted.toList }, some ())

/-- Change an agent's memory. -/
def remember (s : Scene) (agent : Nat) (change : Actor → Actor) : Scene × Option Unit :=
  ({ s with world := s.world.modifyActor agent change }, some ())

/-- Count how often an agent came to a script. -/
def turn (s : Scene) (agent : Nat) (script : Option String) : Scene × Option Nat :=
  let turns := ((s.world.actors[agent]?).map (·.turns)).getD []
  let before := ((turns.find? (·.1 == script)).map (·.2)).getD 0
  ((s.remember agent fun a =>
      { a with turns := (script, before + 1) :: a.turns.filter (·.1 != script) }).1, some before)

/-- Start the record of a request of an agent. -/
def track (s : Scene) (agent : Nat) (requestId capability : String) (providers : List String)
    (data : Json) : Scene × Option Unit :=
  let clock := s.world.recordClock + 1
  let s := { s with world := { s.world with recordClock := clock } }
  s.remember agent fun a =>
    { a with inquiries := a.inquiries.track clock requestId capability providers data }

/-- Ask the breaker of a capability of an agent to let a call through. -/
def enter (s : Scene) (agent : Nat) (capability : String) :
    Scene × Option (Except Fault Permit) :=
  match (s.world.actors[agent]?).bind (·.breakers) with
  | none => (s, some (.ok ⟨.normal, 0⟩))
  | some registry =>
    let (registry, answer) := registry.enter capability s.world.now
    let s := (s.remember agent fun a => { a with breakers := some registry }).1
    match answer with
    | .error f => (s, some (.error f))
    | .ok permit =>
      ({ s with belongings := { s.belongings with
        permits := s.belongings.permits ++ [⟨agent, capability, permit⟩] } }, some (.ok permit))

/-- Tell the breaker of a capability how a call ended. -/
def settleIn (w : World) (p : HeldPermit) (how : Settlement) : World :=
  w.modifyActor p.agent fun a => { a with
    breakers := a.breakers.map fun r =>
      r.update p.capability fun b => b.settle w.now p.permit how }

/-- Tell the breaker of a capability how a call ended, which is no longer under way. -/
def settle (s : Scene) (p : HeldPermit) (how : Settlement) : Scene × Option Unit :=
  ({ s with
      world := settleIn s.world p how
      belongings := { s.belongings with permits := s.belongings.permits.erase p } }, some ())

/-- The answer of an operation, if there is one already. -/
def attempt (s : Scene) : (o : Operation) → Scene × Option o.Answer
  | .clock => (s, some s.world.now)
  | .pause ms => s.pause ms
  | .hold => s.hold
  | .release => s.release
  | .attached agent => (s, some (((s.world.actors[agent]?).map (·.attached)).getD false))
  | .providers capability => (s, some (s.world.bus.directory.providers capability))
  | .directory => (s, some s.world.bus.directory.sorted)
  | .agentNames => (s, some s.world.bus.names)
  | .stamp => s.stamp
  | .send m patience => s.send m patience
  | .collect requestId capability expected strategy timeout =>
    s.collect requestId capability expected strategy timeout
  | .collected p => s.collected p
  | .expect requestId => s.expect requestId
  | .reply w timeout => s.reply w timeout
  | .giveUp w => s.giveUp w
  | .note agent m => s.remember agent fun a => { a with log := a.log ++ [(s.world.now, m)] }
  | .turn agent script => s.turn agent script
  | .track agent requestId capability providers data =>
    s.track agent requestId capability providers data
  | .untrack agent requestId =>
    s.remember agent fun a => { a with inquiries := a.inquiries.remove requestId }
  | .noteReply agent m =>
    s.remember agent fun a => { a with inquiries := (a.inquiries.recordReply m).1 }
  | .enter agent capability => s.enter agent capability
  | .settle agent capability permit how => s.settle ⟨agent, capability, permit⟩ how

end Scene

/-- Whether work that waits for an operation may go on after something happened. -/
def Operation.waitsFor (o : Operation) (p : Parking) : Signal → Bool
  | .wake _ => false
  | .granted ticket => p.ticket == some ticket
  | .replied handle =>
    match o with
    | .reply w _ => w.handle == handle
    | _ => false
  | .resolved handle =>
    match o with
    | .collected pending => pending.handle == handle
    | _ => false
  | .gone => true

end Switchboard
