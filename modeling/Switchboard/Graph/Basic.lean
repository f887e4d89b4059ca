import Switchboard.Fault

/-!
# Graphs of capabilities

* `CapabilityGraph` : capabilities with what each depends on, in the order of insertion;
* `CapabilityGraph.add` : insert a capability or replace its dependencies;
* `CapabilityGraph.ofJson?`, `CapabilityGraph.ofEntries` : graphs from JSON and from lists;
* `CapabilityGraph.retain` : the part of a graph that can be served.
-/

namespace Switchboard

/-- A capability and what it depends on. -/
abbrev GraphNode := String × List String

/-- Capabilities with what each depends on, in the order of insertion. -/
structure CapabilityGraph where
  nodes : List GraphNode := []
  deriving DecidableEq, Repr, Inhabited

namespace CapabilityGraph

/-- The items of a list without repetitions, at the places where they first occur. -/
def distinct (items : List String) : List String :=
  items.foldl (fun seen item => if seen.contains item then seen else seen ++ [item]) []

/-- Give a capability its dependencies: one that is there keeps its place. -/
def place : List GraphNode → String → List String → List GraphNode
  | [], name, deps => [(name, deps)]
  | (n, old) :: rest, name, deps =>
    if n == name then (n, deps) :: rest else (n, old) :: place rest name deps

/-- Add a capability with its dependencies, or replace the dependencies of one that is there. -/
def add (g : CapabilityGraph) (name : String) (deps : List String) : CapabilityGraph :=
  ⟨place g.nodes name (distinct deps)⟩

/-- Add capabilities one after another. -/
def ofEntries (entries : List GraphNode) : CapabilityGraph :=
  entries.foldl (fun g entry => g.add entry.1 entry.2) {}

/-- Add capabilities in the order of their names. -/
def ofSorted (entries : List GraphNode) : CapabilityGraph :=
  ofEntries (entries.mergeSort fun a b => a.1 ≤ b.1)

/-- The dependencies that a field of a JSON object lists, null standing for none. -/
def depsOfJson (name : String) : Json → Except Fault (List String)
  | .null => .ok []
  | .arr items =>
    match items.mapM Json.string? with
    | some deps => .ok deps
    | none => .error (.invalidParameter ("dependency of '" ++ name ++ "' must be a string"))
  | _ => .error (.invalidParameter ("dependencies of '" ++ name ++ "' must be an array"))

/-- Add the fields of a JSON object one after another, up to the first that does not fit. -/
def addFields (g : CapabilityGraph) : Fields → Except Fault CapabilityGraph
  | [] => .ok g
  | (name, value) :: rest =>
    match depsOfJson name value with
    | .ok deps => addFields (g.add name deps) rest
    | .error fault => .error fault

/-- The graph of a JSON object of capabilities with lists of dependencies. -/
def ofJson? : Json → Except Fault CapabilityGraph
  | .obj fields => addFields {} fields
  | _ => .error (.invalidParameter "dag must be an object of capability -> [dependencies]")

/-- The capabilities in order. -/
def names (g : CapabilityGraph) : List String := g.nodes.map (·.1)

/-- How many capabilities there are. -/
def size (g : CapabilityGraph) : Nat := g.nodes.length

/-- Whether there is no capability. -/
def isEmpty (g : CapabilityGraph) : Bool := g.nodes.isEmpty

/-- What a capability depends on. -/
def dependencies (g : CapabilityGraph) (name : String) : List String :=
  ((g.nodes.find? (·.1 == name)).map (·.2)).getD []

/-- The part of a graph whose capabilities are known, dependencies on others removed, and the
names of the others. -/
def retain (g : CapabilityGraph) (known : String → Bool) : CapabilityGraph × List String :=
  let kept := g.nodes.filter fun n => known n.1
  let names := kept.map (·.1)
  (⟨kept.map fun n => (n.1, n.2.filter names.contains)⟩,
    (g.nodes.filter fun n => !known n.1).map (·.1))

end CapabilityGraph

end Switchboard
