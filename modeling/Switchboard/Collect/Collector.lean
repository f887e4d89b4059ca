import Switchboard.Collect.Basic

/-!
# The table of collections

Each request that waits for several replies has one collection under its id. Registering gives a
handle, and the answer of a collection is put aside for its handle once: by the reply that
completes it, when it is overdue, or when its id is registered again.

* `Collector` : the collections by id and the answers put aside;
* `Collector.register`, `Collector.add`, `Collector.expire`, `Collector.sweep` : the events;
* `Collector.wait` : what a handle obtains at a given time;
* `Sweeper` : the periodic sweep; `Sweeper.lastRun`, `Sweeper.nextRun` : when it runs;
* `Collector.stats` : how many collections there are of each kind.
-/

namespace Switchboard

/-- A collection in the table. -/
structure CollectorEntry where
  /-- Whom the answer is put aside for. -/
  handle : Nat
  collection : Collection
  /-- Whether the answer has been put aside. -/
  resolved : Bool := false
  deriving DecidableEq, Inhabited

/-- The answer of an entry as it stands, for its handle. -/
def CollectorEntry.answer (timedOut : Bool) (e : CollectorEntry) : Nat × Collected :=
  (e.handle, e.collection.conclude timedOut)

/-- What whoever registered a request holds: how to wait for its answer. -/
structure Pending where
  handle : Nat
  requestId : String
  capability : String
  strategy : Strategy
  deadline : Nat
  deriving DecidableEq, Repr, Inhabited

/-- What is obtained in place of an answer that was lost. -/
def Pending.lost (p : Pending) : Collected := .lost p.requestId p.capability p.strategy

/-- The collections by id and the answers put aside. -/
structure Collector where
  entries : List CollectorEntry := []
  results : List (Nat × Collected) := []
  /-- The next handle. -/
  next : Nat := 0
  deriving DecidableEq, Inhabited

/-- How many collections there are. -/
structure CollectorStats where
  tracked : Nat
  pending : Nat
  resolved : Nat
  /-- By the name of their strategy; strategies without a collection are left out. -/
  byStrategy : List (String × Nat)
  deriving DecidableEq, Repr, Inhabited

/-- The counts in JSON. -/
def CollectorStats.toJson (s : CollectorStats) : Json :=
  .obj [
    ("tracked", .nat s.tracked),
    ("pending", .nat s.pending),
    ("resolved", .nat s.resolved),
    ("by_strategy", .obj (s.byStrategy.map fun (name, count) => (name, .nat count)))]

namespace Collector

/-- The collection of a request. -/
def get? (c : Collector) (requestId : String) : Option CollectorEntry :=
  c.entries.find? (·.collection.requestId == requestId)

/-- Whether a request has a collection. -/
def isTracking (c : Collector) (requestId : String) : Bool := (c.get? requestId).isSome

/-- Put the answers aside of all entries that a condition selects and that have none yet. -/
def resolveWhere (timedOut : Bool) (selected : CollectorEntry → Bool) (c : Collector) :
    Collector :=
  let fresh := fun (e : CollectorEntry) => selected e && !e.resolved
  { c with
    entries := c.entries.map fun e => if fresh e then { e with resolved := true } else e
    results := c.results ++ (c.entries.filter fresh).map (CollectorEntry.answer timedOut) }

/-- Answer a request with what it has. -/
def expire (requestId : String) (c : Collector) : Collector :=
  c.resolveWhere true (·.collection.requestId == requestId)

/-- Start collecting the replies to a request. A collection of the same id is answered with what
it has and replaced; without expected providers the answer is there at once. -/
def register (now : Nat) (requestId capability : String) (expected : List String)
    (strategy : Strategy) (timeout : Nat) (c : Collector) : Collector × Pending :=
  let entry : CollectorEntry :=
    { handle := c.next
      collection := { requestId, capability, expected, strategy, timeout, createdAt := now } }
  let c := c.expire requestId
  let others := c.entries.filter (·.collection.requestId != requestId)
  let c := { c with entries := others ++ [entry], next := c.next + 1 }
  (if expected.isEmpty then c.resolveWhere false (·.collection.requestId == requestId) else c,
    ⟨entry.handle, requestId, capability, strategy, now + timeout⟩)

/-- Put an entry in the place of the one with its handle. -/
def put (c : Collector) (entry : CollectorEntry) : Collector :=
  { c with entries := c.entries.map fun e => if e.handle == entry.handle then entry else e }

/-- Add a reply, if its request waits for one. -/
def add (requestId sender : String) (content : Json) (isError : Bool) (c : Collector) :
    Collector × Bool :=
  match c.get? requestId with
  | none => (c, false)
  | some e =>
    if e.resolved then (c, false)
    else
      let collection := e.collection.add sender content isError
      let c := c.put { e with collection }
      (if collection.isComplete then c.resolveWhere false (·.handle == e.handle) else c, true)

/-- Answer every overdue collection, and drop those that have their answer or are older than twice
their timeout; the number of dropped ones. -/
def sweep (now : Nat) (c : Collector) : Collector × Nat :=
  let c := c.resolveWhere true (·.collection.deadline ≤ now)
  let kept := c.entries.filter fun e =>
    !e.resolved && decide (now < e.collection.createdAt + 2 * e.collection.timeout)
  ({ c with entries := kept }, c.entries.length - kept.length)

/-- The answer put aside for a handle. -/
def result? (c : Collector) (handle : Nat) : Option Collected :=
  (c.results.find? (·.1 == handle)).map (·.2)

/-- Whether a handle will have an answer. -/
def isOpen (c : Collector) (handle : Nat) : Bool :=
  c.entries.any fun e => e.handle == handle && !e.resolved

/-- What a handle obtains at a given time, if it need not wait any longer: its answer; or that its
collection was lost; or, from the deadline on, its answer after its id is expired. -/
def wait (now : Nat) (p : Pending) (c : Collector) : Option (Collector × Collected) :=
  match c.result? p.handle with
  | some answer => some (c, answer)
  | none =>
    if !c.isOpen p.handle then some (c, p.lost)
    else if p.deadline ≤ now then
      let c := c.expire p.requestId
      some (c, (c.result? p.handle).getD p.lost)
    else none

/-- How many collections there are. -/
def stats (c : Collector) : CollectorStats :=
  let count := fun (s : Strategy) => c.entries.countP (·.collection.strategy == s)
  { tracked := c.entries.length
    pending := c.entries.countP (!·.resolved)
    resolved := c.entries.countP (·.resolved)
    byStrategy :=
      ([Strategy.all, .first, .majority, .timeout].map fun s => (s.name, count s)).filter
        (·.2 != 0) }

end Collector

/-! ## The periodic sweep -/

/-- A sweep that runs when it is started and then every `interval` milliseconds. -/
structure Sweeper where
  startedAt : Nat
  interval : Nat
  deriving DecidableEq, Repr, Inhabited

namespace Sweeper

/-- The last run at or before a time. -/
def lastRun (s : Sweeper) (now : Nat) : Nat :=
  s.startedAt + (now - s.startedAt) / s.interval * s.interval

/-- The first run at or after a time. -/
def nextRun (s : Sweeper) (now : Nat) : Nat :=
  s.startedAt + (now - s.startedAt + (s.interval - 1)) / s.interval * s.interval

/-- The first run after `now` that changes the table, as long as nothing else does: the next one
while there are answered collections, else the first at which a collection is overdue. -/
def nextUse (s : Sweeper) (now : Nat) (c : Collector) : Option Nat :=
  (c.entries.map fun e =>
    s.nextRun (if e.resolved then now + 1 else max (now + 1) e.collection.deadline)).min?

end Sweeper

end Switchboard
