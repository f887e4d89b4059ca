import Switchboard.World.Turn

/-!
# Runs

The user does one thing after another. A run is one of them: it goes on, together with everything
else in the world, until it ends and nothing else can happen without time passing. Time passes only
when nothing else can happen.

* `Run` : the world and what the user is doing; `Run.dispatch`, `Run.turn`, `Run.tick` : what
  happened wakes work; a host has its turn; time passes;
* `World.run` : run a program of the user, which is given up after ten minutes.
-/

namespace Switchboard

/-- What the user is doing. -/
inductive UserState (α : Type) where
  | going (t : Thread α)
  | ended (a : α)
  | crashed (text : String)
  /-- It took too long and was given up. -/
  | stuck

/-- The world and what the user is doing. -/
structure Run (α : Type) where
  world : World
  user : UserState α
  /-- When the user gives up. -/
  limit : Nat

namespace Run

variable {α : Type}

/-- Line a host up for a turn. -/
def wakeHost (r : Run α) (h : Host) : Run α :=
  if r.world.ready.contains h then r
  else { r with world := { r.world with ready := r.world.ready ++ [h] } }

/-- Line a handling up for a turn of its lane. -/
def wakeHandling (r : Run α) (h : Handling) : Run α :=
  let entry := (h.lane, h.number)
  let runnable := r.world.runnable
  let runnable := if runnable.contains entry then runnable else runnable ++ [entry]
  { r with world := { r.world with runnable } }.wakeHost (.lane h.lane)

/-- Whether what the user is doing has a property. -/
def userIs (r : Run α) (p : Thread α → Bool) : Bool :=
  match r.user with
  | .going t => p t
  | _ => false

/-- Wake the work that waits for something that happened. -/
def dispatchOne (r : Run α) : Signal → Run α
  | .wake h => r.wakeHost h
  | s =>
    let r := (r.world.handlings.filter (·.thread.waitsFor s)).foldl wakeHandling r
    if r.userIs (·.waitsFor s) then r.wakeHost .user else r

/-- Wake the work that waits for what happened in the last turn. -/
def dispatch (r : Run α) : Run α :=
  let signals := r.world.signals
  signals.foldl dispatchOne { r with world := { r.world with signals := [] } }

/-- The user has his turn. -/
def userTurn (r : Run α) : Run α :=
  match r.user with
  | .going t =>
    match t.advance r.world with
    | (world, .ended a) => { r with world, user := .ended a }
    | (world, .crashed text) => { r with world, user := .crashed text }
    | (world, .waits t) =>
      if r.limit ≤ world.now then { r with world := t.abandon world, user := .stuck }
      else { r with world, user := .going t }
  | _ => r

/-- A host has its turn. -/
def turn (r : Run α) : Host → Run α
  | .user => r.userTurn
  | .delivery => { r with world := r.world.deliverAll }
  | .sweep => { r with world := r.world.sweepNow }
  | .lane position => { r with world := r.world.laneTurn position }

/-! ## Time -/

/-- An alarm and the work that it wakes, which is the user's if it is not the handling of a
message. -/
abbrev Call := Alarm × Option Handling

/-- The alarms that are set. -/
def calls (r : Run α) : List Call :=
  let ofThread := fun (ps : List Parking) => ps.filterMap (·.alarm)
  let user := match r.user with
    | .going t => (ofThread t.parkings).map fun a => (a, none)
    | _ => []
  r.world.handlings.flatMap (fun h => (ofThread h.thread.parkings).map fun a => (a, some h)) ++ user

/-- The next moment at which something happens by itself. -/
def nextTime (r : Run α) : Nat :=
  let sweep := r.world.sweeper.bind fun s => s.nextUse r.world.now r.world.bus.collector
  (r.calls.map (·.1.time) ++ sweep.toList).foldl min r.limit

/-- Which of two alarms comes first. -/
def earlier (a b : Call) : Bool :=
  decide (a.1.time < b.1.time) || (a.1.time == b.1.time && decide (a.1.number ≤ b.1.number))

/-- Time passes up to a moment: the sweep and the alarms that are due wake their work. -/
def tick (r : Run α) (time : Nat) : Run α :=
  let r := { r with world := { r.world with now := time } }
  let sweeps := (r.world.sweeper.map fun s => decide (s.lastRun time = time)).getD false
  let r := if sweeps then r.wakeHost .sweep else r
  let due := (r.calls.filter fun c => decide (c.1.time ≤ time)).mergeSort earlier
  let r := due.foldl (fun r c => match c.2 with
    | some h => r.wakeHandling h
    | none => r.wakeHost .user) r
  if r.limit ≤ time then r.wakeHost .user else r

/-- Go on for so many turns, or until the user has ended and nothing else can happen. -/
def go : Nat → Run α → Run α
  | 0, r => r
  | fuel + 1, r =>
    let r := r.dispatch
    match r.world.ready with
    | h :: rest => go fuel (turn { r with world := { r.world with ready := rest } } h)
    | [] =>
      match r.user with
      | .going _ => go fuel (r.tick r.nextTime)
      | _ => r

end Run

namespace World

/-- How long the user waits before he gives up, in milliseconds. -/
def userPatience : Nat := 600000

/-- More turns than any run takes. -/
def turnLimit : Nat := Nat.pow 10 12

/-- Run a program of the user until it ends and nothing else can happen. -/
def run {α : Type} (w : World) (p : Program α) : World × UserState α :=
  let r : Run α := ⟨w, .going { code := p }, w.now + userPatience⟩
  let r := (r.wakeHost .user).go turnLimit
  (r.world, r.user)

/-- Let everything happen that can happen without time passing. -/
def settle (w : World) : World := (w.run (.done ())).1

end World

end Switchboard
