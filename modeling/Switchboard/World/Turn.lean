import Switchboard.Orchestrate.Run
import Switchboard.World.Answer

/-!
# Turns

Work goes on until an operation has no answer yet, and takes that operation up again when it is
woken.

* `Routine.advance`, `Branch.advanceAll`, `Program.advance` : work goes on as far as it can;
* `Thread.advance`, `Thread.abandon` : a thread has its turn, or is given up;
* `World.deliverAll`, `World.sweepNow`, `World.laneTurn` : the turns of the hosts that are not the
  user.
-/

namespace Switchboard

/-- How a turn ended. -/
inductive Turn (γ α : Type) where
  /-- The work waits, and this is what is left of it. -/
  | waits (rest : γ)
  | ended (a : α)
  | crashed (text : String)

/-! ## Work -/

/-- A routine goes on as far as it can. -/
def Routine.advance {α : Type} : Routine α → Scene → Scene × Turn (Routine α) α
  | .done a, s => (s, .ended a)
  | .crash text, s => (s, .crashed text)
  | .ask o next, s =>
    match s.attempt o with
    | (s, some answer) => advance (next answer) { s with parking := {} }
    | (s, none) => (s, .waits (.ask o next))

namespace Branch

/-- A step of a wave goes on as far as it can. -/
def advance (s : Scene) : Branch → Scene × Except String Branch
  | .ended o => (s, .ok (.ended o))
  | .going strand =>
    match Routine.advance strand.code { s with parking := strand.parking } with
    | (s, .waits code) => (s, .ok (.going ⟨code, s.parking⟩))
    | (s, .ended o) => (s, .ok (.ended o))
    | (s, .crashed text) => (s, .error text)

/-- The steps of a wave go on one after another. -/
def advanceAll : List Branch → Scene → Scene × Except String (List Branch)
  | [], s => (s, .ok [])
  | b :: rest, s =>
    match b.advance s with
    | (s, .error text) => (s, .error text)
    | (s, .ok b) =>
      match advanceAll rest s with
      | (s, .error text) => (s, .error text)
      | (s, .ok rest) => (s, .ok (b :: rest))

/-- The outcomes of a wave whose steps have all ended. -/
def outcomes? (branches : List Branch) : Option (List StepOutcome) :=
  branches.mapM fun
    | .ended o => some o
    | .going _ => none

/-- What a step of a wave arranged. -/
def parking : Branch → Parking
  | .ended _ => {}
  | .going strand => strand.parking

/-- Whether a step of a wave may go on after something happened. -/
def waitsFor (signal : Signal) : Branch → Bool
  | .going ⟨.ask o _, parking⟩ => o.waitsFor parking signal
  | _ => false

end Branch

/-- A program goes on as far as it can, from the steps of the wave that it waits for. -/
def Program.advance {α : Type} :
    Program α → Option (List Branch) → Scene → Scene × Turn (Program α × Option (List Branch)) α
  | .done a, _, s => (s, .ended a)
  | .crash text, _, s => (s, .crashed text)
  | .ask (.plain o) next, _, s =>
    match s.attempt o with
    | (s, some answer) => advance (next answer) none { s with parking := {} }
    | (s, none) => (s, .waits (.ask (.plain o) next, none))
  | .ask (.wave calls) next, wave, s =>
    match Branch.advanceAll (wave.getD (calls.map fun c => .going { code := c.run })) s with
    | (s, .error text) => (s, .crashed text)
    | (s, .ok branches) =>
      match Branch.outcomes? branches with
      | some outcomes => advance (next outcomes) none { s with parking := {} }
      | none => (s, .waits (.ask (.wave calls) next, some branches))

/-- Give back what ended work had. Calls that are still under way count as given up. -/
def World.takeBack (w : World) (b : Belongings) : World :=
  let w := b.permits.foldl (fun w p => Scene.settleIn w p .abandoned) w
  { w with holds := w.holds - b.holds }.closeIfAbandoned

namespace Thread

/-- A thread has its turn. -/
def advance {α : Type} (t : Thread α) (w : World) : World × Turn (Thread α) α :=
  match Program.advance t.code t.wave ⟨w, t.parking, t.belongings⟩ with
  | (s, .waits (code, wave)) => (s.world, .waits ⟨code, s.parking, wave, s.belongings⟩)
  | (s, .ended a) => (s.world.takeBack s.belongings, .ended a)
  | (s, .crashed text) => (s.world.takeBack s.belongings, .crashed text)

/-- All that a thread arranged. -/
def parkings {α : Type} (t : Thread α) : List Parking :=
  match t.wave with
  | none => [t.parking]
  | some branches => branches.map Branch.parking

/-- Whether a thread may go on after something happened. -/
def waitsFor {α : Type} (signal : Signal) (t : Thread α) : Bool :=
  match t.wave, t.code with
  | some branches, _ => branches.any (Branch.waitsFor signal)
  | none, .ask (.plain o) _ => o.waitsFor t.parking signal
  | none, _ => false

/-- A thread is given up: its places in line become free and what it has is given back. -/
def abandon {α : Type} (t : Thread α) (w : World) : World :=
  let tickets := t.parkings.filterMap (·.ticket)
  (tickets.foldl Scene.leaveLine w).takeBack t.belongings

end Thread

/-! ## Hosts -/

namespace World

/-- Deliver the first message of the queue. -/
def deliverOne (w : World) : World :=
  match w.bus.take? with
  | none => w
  | some (m, granted, bus) =>
    let (bus, d) := bus.deliver m
    { w with bus }.signalAll
      (granted.toList.map Signal.granted ++ d.waiter.toList.map Signal.replied
        ++ d.resolved.map Signal.resolved ++ d.lanes.map fun lane => Signal.wake (.lane lane))

/-- Deliver all messages of the queue, if they are to be delivered. -/
def deliverAll (w : World) : World :=
  if w.running then w.bus.queue.foldl (fun w _ => w.deliverOne) w else w

/-- Run the periodic sweep, if there is one. -/
def sweepNow (w : World) : World :=
  if w.sweeper.isSome then
    w.withCollector (w.bus.collector.sweep w.now).1
  else w

/-- Start to handle the messages in a lane. -/
def openInbox (w : World) (position : Nat) : World :=
  match w.bus.lanes[position]? with
  | none => w
  | some lane =>
    match w.actors[lane.agent]? with
    | none => w
    | some actor =>
      let fresh := (List.range' w.nextHandling lane.inbox.length).zip lane.inbox
      let lanes := w.bus.lanes.modify position fun l => { l with inbox := [] }
      { w with
        bus := { w.bus with lanes }
        nextHandling := w.nextHandling + lane.inbox.length
        handlings := w.handlings ++ fresh.map fun (number, m) =>
          ⟨number, position, { code := actor.agent.serve lane.agent m }⟩
        runnable := w.runnable ++ fresh.map fun (number, _) => (position, number) }

/-- A handling has its turn. -/
def handlingTurn (w : World) (number : Nat) : World :=
  match w.handlings.find? (·.number == number) with
  | none => w
  | some h =>
    match h.thread.advance w with
    | (w, .waits thread) =>
      { w with handlings := w.handlings.map fun other =>
        if other.number == number then { other with thread } else other }
    | (w, _) => { w with handlings := w.handlings.filter (·.number != number) }

/-- The handlings of a lane have their turns, after those of new messages have been started. -/
def laneTurn (w : World) (position : Nat) : World :=
  let w := w.openInbox position
  let (mine, others) := w.runnable.partition (·.1 == position)
  (mine.map (·.2)).foldl handlingTurn { w with runnable := others }

end World

end Switchboard
