import Mathlib.Data.List.Forall2
import Switchboard.Proofs.Graph.Dependencies
import Switchboard.Proofs.Json.Fields

/-!
# Graphs read from JSON

* `Lists` : the dependencies that a value lists, `ListsAll` : an object of such values;
* `CapabilityGraph.complaint`, `CapabilityGraph.NamesFirst` : the wording for the first field that
  lists none;
* `CapabilityGraph.addFields_cases` : fields are added up to this one;
* `CapabilityGraph.Reads`, `CapabilityGraph.addFields_eq_ok` : what is added is what they list;
* `CapabilityGraph.toJson`, `CapabilityGraph.ofJson?_toJson` : a graph comes back from its object;
* `CapabilityGraph.reads_dependencies` : what is read, what is refused, and what comes back.
-/

namespace Switchboard

/-! ## Values that list dependencies -/

/-- The dependencies that a value lists: its strings, or none if it is null. -/
inductive Lists : Json → List String → Prop
  | null : Lists .null []
  | strings (deps : List String) : Lists (Json.strings deps) deps

/-- A value lists dependencies. -/
def Listing (value : Json) : Prop := ∃ deps, Lists value deps

/-- An object of values that list dependencies. -/
def ListsAll (v : Json) : Prop := ∃ fields, v = .obj fields ∧ ∀ field ∈ fields, Listing field.2

theorem mapM_string?_eq_some_iff {items : List Json} {deps : List String} :
    items.mapM Json.string? = some deps ↔ items = deps.map .str := by
  induction items generalizing deps with
  | nil => cases deps <;> simp
  | cons item items ih =>
    have hitem (dep : String) : item.string? = some dep ↔ item = .str dep := by
      cases item <;> simp [Json.string?]
    cases deps with
    | nil => simp [List.mapM_cons, Option.bind_eq_some_iff]
    | cons dep deps => simp [List.mapM_cons, Option.bind_eq_some_iff, ih, hitem]

namespace CapabilityGraph

/-- The wording for a field that lists no dependencies. -/
def complaint (name : String) : Json → String
  | .arr _ => "dependency of '" ++ name ++ "' must be a string"
  | _ => "dependencies of '" ++ name ++ "' must be an array"

theorem depsOfJson_of_lists {name : String} {value : Json} {deps : List String}
    (h : Lists value deps) : depsOfJson name value = .ok deps := by
  cases h with
  | null => rfl
  | strings =>
    rw [Json.strings, depsOfJson, mapM_string?_eq_some_iff.mpr rfl]

theorem depsOfJson_of_not_listing {name : String} {value : Json} (h : ¬ Listing value) :
    depsOfJson name value = .error (.invalidParameter (complaint name value)) := by
  cases value with
  | null => exact absurd ⟨[], .null⟩ h
  | arr items =>
    cases hdeps : items.mapM Json.string? with
    | none =>
      rw [depsOfJson, hdeps]
      rfl
    | some deps =>
      rw [mapM_string?_eq_some_iff.mp hdeps] at h
      exact absurd ⟨deps, .strings deps⟩ h
  | _ => rfl

/-! ## Fields -/

/-- The wording names the first field that lists no dependencies. -/
def NamesFirst (fields : Fields) (text : String) : Prop :=
  ∃ before name value after, fields = before ++ (name, value) :: after ∧
    (∀ field ∈ before, Listing field.2) ∧ ¬ Listing value ∧ text = complaint name value

/-- Fields are added one after another if they all list dependencies, otherwise the first that
lists none is named. -/
theorem addFields_cases (g : CapabilityGraph) (fields : Fields) :
    (∀ field ∈ fields, Listing field.2) ∧ (∃ g', addFields g fields = .ok g') ∨
      ∃ text, NamesFirst fields text ∧
        addFields g fields = .error (.invalidParameter text) := by
  induction fields generalizing g with
  | nil => exact .inl ⟨by simp, g, rfl⟩
  | cons field rest ih =>
    obtain ⟨name, value⟩ := field
    by_cases hlists : Listing value
    · obtain ⟨deps, hdeps⟩ := hlists
      have hstep : addFields g ((name, value) :: rest) = addFields (g.add name deps) rest := by
        rw [addFields, depsOfJson_of_lists hdeps]
      rw [hstep]
      rcases ih (g.add name deps) with
        ⟨hall, hok⟩ | ⟨text, ⟨before, first, unfit, after, rfl, hbefore, hnot, htext⟩, herror⟩
      · exact .inl ⟨List.forall_mem_cons.mpr ⟨⟨deps, hdeps⟩, hall⟩, hok⟩
      · exact .inr ⟨text, ⟨(name, value) :: before, first, unfit, after, rfl,
          List.forall_mem_cons.mpr ⟨⟨deps, hdeps⟩, hbefore⟩, hnot, htext⟩, herror⟩
    · refine .inr ⟨complaint name value, ⟨[], name, value, rest, rfl, by simp, hlists, rfl⟩, ?_⟩
      rw [addFields, depsOfJson_of_not_listing hlists]

theorem NamesFirst.exists_not_listing {fields : Fields} {text : String}
    (h : NamesFirst fields text) : ∃ field ∈ fields, ¬ Listing field.2 := by
  obtain ⟨before, name, value, after, rfl, -, hnot, -⟩ := h
  exact ⟨(name, value), by simp, hnot⟩

theorem distinct_eq (items : List String) : distinct items = items.eraseDups := by
  unfold distinct
  induction items using List.reverseRecOn with
  | nil => rfl
  | append_singleton items item ih =>
    rw [List.foldl_append, eraseDups_concat, ih]
    simp [List.mem_eraseDups]

theorem place_of_notMem {nodes : List GraphNode} {name : String} (h : name ∉ nodes.map (·.1))
    (deps : List String) : place nodes name deps = nodes ++ [(name, deps)] := by
  induction nodes with
  | nil => rfl
  | cons n rest ih =>
    obtain ⟨hne, hrest⟩ : name ≠ n.1 ∧ name ∉ rest.map (·.1) := by simpa using h
    rw [place, if_neg (by simpa using hne.symm), ih hrest, List.cons_append]

/-- A node has the name of a field, and what the field lists, each dependency where it occurs
first. -/
def Reads (field : String × Json) (n : GraphNode) : Prop :=
  n.1 = field.1 ∧ ∃ deps, Lists field.2 deps ∧ n.2 = deps.eraseDups

/-- Fields with new names are added as nodes, in their order. -/
theorem addFields_eq_ok {g : CapabilityGraph} {fields : Fields}
    (hd : (g.names ++ fields.map (·.1)).Nodup) (hall : ∀ field ∈ fields, Listing field.2) :
    ∃ nodes, addFields g fields = .ok ⟨g.nodes ++ nodes⟩ ∧ List.Forall₂ Reads fields nodes := by
  induction fields generalizing g with
  | nil => exact ⟨[], by simp [addFields], .nil⟩
  | cons field rest ih =>
    obtain ⟨name, value⟩ := field
    obtain ⟨⟨deps, hdeps⟩, hrest⟩ := List.forall_mem_cons.mp hall
    have hnew : name ∉ g.nodes.map (·.1) := fun hmem =>
      (List.nodup_append.mp hd).2.2 _ hmem _ List.mem_cons_self rfl
    have hadd : g.add name deps = ⟨g.nodes ++ [(name, deps.eraseDups)]⟩ := by
      rw [add, distinct_eq, place_of_notMem hnew]
    have hd' : ((g.add name deps).names ++ rest.map (·.1)).Nodup := by
      rw [hadd]
      simpa [names] using hd
    obtain ⟨nodes, hok, hreads⟩ := ih hd' hrest
    refine ⟨(name, deps.eraseDups) :: nodes, ?_, .cons ⟨rfl, deps, hdeps, rfl⟩ hreads⟩
    rw [addFields, depsOfJson_of_lists hdeps]
    dsimp only
    rw [hok, hadd, List.append_assoc, List.singleton_append]

/-! ## Graphs as objects -/

/-- A graph as an object of lists of dependencies. -/
def toJson (g : CapabilityGraph) : Json := .obj (g.nodes.map fun n => (n.1, Json.strings n.2))

/-- What an object without repeated keys is read as. -/
theorem ofJson?_eq_ok {fields : Fields} (hd : (fields.map (·.1)).Nodup)
    (hall : ∀ field ∈ fields, Listing field.2) :
    ∃ nodes, ofJson? (.obj fields) = .ok ⟨nodes⟩ ∧ List.Forall₂ Reads fields nodes := by
  obtain ⟨nodes, hok, hreads⟩ := addFields_eq_ok (g := {}) (by simpa [names] using hd) hall
  exact ⟨nodes, hok, hreads⟩

/-- A field made of a node that depends on nothing twice is read as this node. -/
theorem eq_of_reads {n m : GraphNode} (hd : n.2.Nodup) (h : Reads (n.1, Json.strings n.2) m) :
    n = m := by
  obtain ⟨hname, deps, hlists, hdeps⟩ := h
  generalize hvalue : Json.strings n.2 = value at hlists
  cases hlists with
  | null => cases hvalue
  | strings =>
    have hsame : n.2 = deps :=
      List.map_injective_iff.mpr (fun _ _ => Json.str.inj) (Json.arr.inj hvalue)
    rw [← hsame, eraseDups_of_nodup hd] at hdeps
    exact Prod.ext hname.symm hdeps.symm

/-- A graph that has nothing twice comes back from its object. -/
theorem ofJson?_toJson {g : CapabilityGraph} (hd : g.names.Nodup) (hdeps : g.NodupDeps) :
    ofJson? g.toJson = .ok g := by
  have hkeys : (g.nodes.map fun n => (n.1, Json.strings n.2)).map (·.1) = g.names := by
    rw [List.map_map]
    rfl
  have hall : ∀ field ∈ g.nodes.map fun n => (n.1, Json.strings n.2), Listing field.2 := by
    intro field hfield
    obtain ⟨n, -, rfl⟩ := List.mem_map.mp hfield
    exact ⟨n.2, .strings n.2⟩
  obtain ⟨nodes, hok, hreads⟩ := ofJson?_eq_ok (hkeys ▸ hd) hall
  have hsame : List.Forall₂ Eq g.nodes nodes := by
    rw [List.forall₂_map_left_iff] at hreads
    exact ((List.forall₂_and_left _ _).mpr ⟨hdeps, hreads⟩).imp
      fun n m hnm => eq_of_reads hnm.1 hnm.2
  rw [List.forall₂_eq_eq_eq] at hsame
  rw [toJson, hok, ← hsame]

/-- A value that is no object of lists of dependencies is refused. -/
theorem ofJson?_of_not_listsAll {v : Json} (h : ¬ ListsAll v) :
    ∃ text, ofJson? v = .error (.invalidParameter text) ∧
      ∀ fields, v = .obj fields → NamesFirst fields text := by
  cases v with
  | obj fields =>
    rcases addFields_cases {} fields with ⟨hall, -⟩ | ⟨text, hfirst, herror⟩
    · exact absurd ⟨fields, rfl, hall⟩ h
    · exact ⟨text, herror, fun _ heq => Json.obj.inj heq ▸ hfirst⟩
  | _ => exact ⟨_, rfl, fun fields heq => nomatch heq⟩

theorem exists_ofJson?_iff {v : Json} : (∃ g, ofJson? v = .ok g) ↔ ListsAll v := by
  constructor
  · rintro ⟨g, hok⟩
    by_contra hnot
    obtain ⟨text, herror, -⟩ := ofJson?_of_not_listsAll hnot
    rw [hok] at herror
    cases herror
  · rintro ⟨fields, rfl, hall⟩
    rcases addFields_cases {} fields with ⟨-, hok⟩ | ⟨text, hfirst, -⟩
    · exact hok
    · obtain ⟨field, hfield, hnot⟩ := hfirst.exists_not_listing
      exact absurd (hall field hfield) hnot

/-- **What is read as a graph.** A value is read as a graph exactly if it is an object of which each
value is null or an array of strings. The graph of an object without repeated keys has a node for
each key, in their order, with the dependencies that the key lists, each where it occurs first. Any
other value is refused as an invalid parameter; of an object the first key that lists no
dependencies is named. And every graph that can be made comes back from its object. -/
theorem reads_dependencies :
    (∀ v : Json, (∃ g, ofJson? v = .ok g) ↔ ListsAll v) ∧
    (∀ fields g, (fields.map (·.1)).Nodup → ofJson? (.obj fields) = .ok g →
      List.Forall₂ Reads fields g.nodes) ∧
    (∀ v : Json, ¬ ListsAll v → ∃ text, ofJson? v = .error (.invalidParameter text) ∧
      ∀ fields, v = .obj fields → NamesFirst fields text) ∧
    ∀ g, Built g → ofJson? g.toJson = .ok g := by
  refine ⟨fun _ => exists_ofJson?_iff, fun fields g hd hok => ?_,
    fun _ => ofJson?_of_not_listsAll, fun g hg => ofJson?_toJson hg.nodup_names hg.nodupDeps⟩
  obtain ⟨fields', heq, hall⟩ := exists_ofJson?_iff.mp ⟨g, hok⟩
  obtain rfl := Json.obj.inj heq
  obtain ⟨nodes, hnodes, hreads⟩ := ofJson?_eq_ok hd hall
  obtain rfl := Except.ok.inj (hok.symm.trans hnodes)
  exact hreads

/-- A key that lists a dependency twice, a key that lists a number between one that lists nothing
and one that is no list at all, and a graph of which a part was left out. -/
theorem reads_dependencies_unfit_between :
    let good : Fields := [("b", .arr [.str "a", .str "c", .str "a"]), ("a", .null)]
    let bad : Fields := [("a", .null), ("b", .arr [.str "a", .nat 1]), ("c", .bool true)]
    let g := (((({} : CapabilityGraph).add "b" ["x", "a"]).add "a" []).retain fun c => c != "x").1
    ofJson? (.obj good) = .ok ⟨[("b", ["a", "c"]), ("a", [])]⟩ ∧
      List.Forall₂ Reads good [("b", ["a", "c"]), ("a", [])] ∧
      ofJson? (.obj bad) = .error (.invalidParameter "dependency of 'b' must be a string") ∧
      NamesFirst bad "dependency of 'b' must be a string" ∧
      Built g ∧ ofJson? g.toJson = .ok g := by
  intro good bad g
  obtain ⟨haccepts, hreads, hrefuses, hback⟩ := reads_dependencies
  have hgood : ofJson? (.obj good) = .ok ⟨[("b", ["a", "c"]), ("a", [])]⟩ := by decide
  have hbad : ofJson? (.obj bad) =
      .error (.invalidParameter "dependency of 'b' must be a string") := by decide
  have hunfit : ¬ ListsAll (.obj bad) := by
    intro hall
    obtain ⟨g', hok⟩ := (haccepts _).mpr hall
    rw [hbad] at hok
    cases hok
  obtain ⟨text, herror, hfirst⟩ := hrefuses _ hunfit
  obtain rfl := Fault.invalidParameter.inj (Except.error.inj (hbad.symm.trans herror))
  have hg : Built g := .retain (.add (.add .empty _ _) _ _) _
  exact ⟨hgood, hreads good _ (by decide) hgood, hbad, hfirst _ rfl, hg, hback g hg⟩

end CapabilityGraph

end Switchboard
