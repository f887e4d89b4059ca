import Switchboard.Graph.Basic

/-!
# Plans

A graph is peeled into waves: each wave holds the capabilities whose dependencies lie in earlier
waves. What is left when nothing can be peeled any more is blocked by a cycle, and then the whole
graph runs one capability at a time.

* `WavePlan` : waves that run one after another; `WavePlan.linear` : one capability a wave;
* `CapabilityGraph.peel` : the waves of a graph and what is left of it;
* `CapabilityGraph.plan` : the plan of a graph.
-/

namespace Switchboard

/-- Waves that run one after another; the capabilities of a wave run together. -/
structure WavePlan where
  waves : List (List String) := []
  /-- A cycle forces one capability at a time. -/
  fellBack : Bool := false
  /-- Capabilities that a cycle keeps from being ordered. -/
  blocked : List String := []
  deriving DecidableEq, Repr, Inhabited

namespace WavePlan

/-- One capability a wave. -/
def linear (names : List String) : WavePlan := { waves := names.map fun n => [n] }

/-- The capabilities in the order in which they run. -/
def order (p : WavePlan) : List String := p.waves.flatten

/-- How many capabilities run. -/
def size (p : WavePlan) : Nat := p.waves.foldr (fun wave n => wave.length + n) 0

/-- Whether there is no wave. -/
def isEmpty (p : WavePlan) : Bool := p.waves.isEmpty

end WavePlan

namespace CapabilityGraph

/-- Take at most `fuel` waves off the nodes in `rest`, given the capabilities that are done: the
waves, and the nodes that are left. -/
def peel : (fuel : Nat) → (done : List String) → (rest : List GraphNode) →
    List (List String) × List GraphNode
  | 0, _, rest => ([], rest)
  | fuel + 1, done, rest =>
    let (ready, blocked) := rest.partition fun n => n.2.all done.contains
    if ready.isEmpty then ([], blocked)
    else
      let wave := ready.map (·.1)
      let (waves, left) := peel fuel (done ++ wave) blocked
      (wave :: waves, left)

/-- The plan of a graph. -/
def plan (g : CapabilityGraph) : WavePlan :=
  match peel g.size [] g.nodes with
  | (waves, []) => { waves }
  | (waves, left) =>
    let blocked := left.map (·.1)
    { waves := (waves.flatten ++ blocked).map fun n => [n], fellBack := true, blocked }

end CapabilityGraph

end Switchboard
