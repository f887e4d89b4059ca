/-!
# Who provides what

* `Directory` : the providers of each capability, in the order of registration;
* `Directory.enroll`, `Directory.withdraw` : an agent registers, or leaves;
* `Directory.providers`, `Directory.sorted` : the providers of one capability, and of all.
-/

namespace Switchboard

/-- The providers of each capability, in the order of registration. -/
structure Directory where
  entries : List (String × List String) := []
  deriving DecidableEq, Repr, Inhabited

namespace Directory

/-- The providers of a capability. -/
def providers (d : Directory) (capability : String) : List String :=
  ((d.entries.find? (·.1 == capability)).map (·.2)).getD []

/-- Whether a capability has a provider. -/
def has (d : Directory) (capability : String) : Bool := !(d.providers capability).isEmpty

/-- Add a provider at the end of the list of a capability. -/
def append : List (String × List String) → String → String → List (String × List String)
  | [], capability, agent => [(capability, [agent])]
  | (c, agents) :: rest, capability, agent =>
    if c == capability then (c, agents ++ [agent]) :: rest
    else (c, agents) :: append rest capability agent

/-- Take an agent off every list. -/
def strike (d : Directory) (agent : String) : Directory :=
  ⟨d.entries.map fun (c, agents) => (c, agents.filter (· != agent))⟩

/-- Drop capabilities without a provider. -/
def compact (d : Directory) : Directory := ⟨d.entries.filter fun entry => !entry.2.isEmpty⟩

/-- An agent registers with its capabilities, which replace those it had. -/
def enroll (d : Directory) (agent : String) (capabilities : List String) : Directory :=
  compact ⟨capabilities.foldl (fun entries c => append entries c agent) (d.strike agent).entries⟩

/-- An agent leaves. -/
def withdraw (d : Directory) (agent : String) : Directory := (d.strike agent).compact

/-- The providers of all capabilities, sorted by capability. -/
def sorted (d : Directory) : List (String × List String) :=
  d.entries.mergeSort fun a b => a.1 ≤ b.1

end Directory

end Switchboard
