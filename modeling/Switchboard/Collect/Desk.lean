import Switchboard.Collect.Collector
import Switchboard.Settings

/-!
# Collections on a clock

* `CollectDesk` : the table of collections, the time and the periodic sweep;
* `CollectDesk.advance` : time passes, and the sweep runs;
* `CollectDesk.start`, `CollectDesk.stop`, `CollectDesk.drop` : the sweep begins and ends, and all
  collections are lost;
* `CollectDesk.wait` : wait for the answer of a collection, however long it takes.
-/

namespace Switchboard

/-- The table of collections, the time and the periodic sweep. -/
structure CollectDesk where
  settings : AggregatorSettings
  collector : Collector := {}
  sweeper : Option Sweeper := none
  now : Nat := 0
  /-- Whether all collections were lost. -/
  dropped : Bool := false
  deriving DecidableEq, Inhabited

namespace CollectDesk

/-- Time passes up to a moment. Of the sweeps that run meanwhile, the last one leaves what all of
them together leave. -/
def advance (d : CollectDesk) (time : Nat) : CollectDesk :=
  let collector := match d.sweeper with
    | some s =>
      if d.now < s.lastRun time then (d.collector.sweep (s.lastRun time)).1 else d.collector
    | none => d.collector
  { d with collector, now := time }

/-- The sweep begins and runs at once, unless it has begun before. -/
def start (d : CollectDesk) : CollectDesk :=
  if d.sweeper.isSome then d
  else
    { d with
      sweeper := some ⟨d.now, d.settings.sweepInterval⟩
      collector := (d.collector.sweep d.now).1 }

/-- The sweep ends. -/
def stop (d : CollectDesk) : CollectDesk := { d with sweeper := none }

/-- All collections are lost; answers that were put aside are kept. -/
def drop (d : CollectDesk) : CollectDesk :=
  { d with collector := { d.collector with entries := [] }, sweeper := none, dropped := true }

/-- Start collecting the replies to a request, for the usual time unless one is given. -/
def register (d : CollectDesk) (requestId capability : String) (expected : List String)
    (strategy : Strategy) (timeout : Option Nat) : CollectDesk × Pending :=
  let timeout := timeout.getD d.settings.defaultTimeoutMs.toNat
  let (collector, p) := d.collector.register d.now requestId capability expected strategy timeout
  ({ d with collector }, p)

/-- Wait for the answer of a collection, up to its deadline if need be. -/
def wait (d : CollectDesk) (p : Pending) : CollectDesk × Collected :=
  match d.collector.wait d.now p with
  | some (collector, answer) => ({ d with collector }, answer)
  | none =>
    let d := d.advance p.deadline
    match d.collector.wait d.now p with
    | some (collector, answer) => ({ d with collector }, answer)
    | none => (d, p.lost)

end CollectDesk

end Switchboard
