import Mathlib.Data.List.Induction
import Mathlib.Data.List.Nodup
import Switchboard.Graph.Basic

/-!
# Graphs as they are made

* `CapabilityGraph.Built` : the graphs that are made by adding capabilities one by one, from
  entries, from JSON, and by leaving unknown capabilities out;
* `CapabilityGraph.Built.nodup_names` : each capability of such a graph stands in it once.
-/

namespace Switchboard

namespace CapabilityGraph

/-- The graphs that can be made. -/
inductive Built : CapabilityGraph → Prop
  | empty : Built {}
  | add {g : CapabilityGraph} (hg : Built g) (name : String) (deps : List String) :
      Built (g.add name deps)
  | ofSorted (entries : List GraphNode) : Built (ofSorted entries)
  | ofJson {value : Json} {g : CapabilityGraph} (h : ofJson? value = .ok g) : Built g
  | retain {g : CapabilityGraph} (hg : Built g) (known : String → Bool) : Built (g.retain known).1

/-- A capability that is there keeps its place, a new one comes last. -/
theorem names_place (nodes : List GraphNode) (name : String) (deps : List String) :
    (place nodes name deps).map (·.1) =
      if name ∈ nodes.map (·.1) then nodes.map (·.1) else nodes.map (·.1) ++ [name] := by
  induction nodes with
  | nil => rfl
  | cons n rest ih =>
    obtain ⟨n, old⟩ := n
    by_cases hn : n = name
    · subst hn
      simp [place]
    · have hne : name ≠ n := fun h => hn h.symm
      simp only [place, beq_iff_eq, hn, if_false, List.map_cons, ih, List.mem_cons, hne,
        false_or]
      split <;> rfl

theorem nodup_names_add {g : CapabilityGraph} (h : g.names.Nodup) (name : String)
    (deps : List String) : (g.add name deps).names.Nodup := by
  unfold names add at *
  rw [names_place]
  split
  · exact h
  · rename_i hmem
    rw [← List.concat_eq_append]
    exact h.concat hmem

theorem nodup_names_ofEntries (entries : List GraphNode) : (ofEntries entries).names.Nodup := by
  unfold ofEntries
  induction entries using List.reverseRecOn with
  | nil => exact List.nodup_nil
  | append_singleton entries entry ih =>
    rw [List.foldl_append]
    exact nodup_names_add ih entry.1 entry.2

theorem nodup_names_addFields {fields : Fields} {g g' : CapabilityGraph} (h : g.names.Nodup)
    (hadd : addFields g fields = .ok g') : g'.names.Nodup := by
  induction fields generalizing g with
  | nil =>
    cases hadd
    exact h
  | cons field rest ih =>
    obtain ⟨name, value⟩ := field
    simp only [addFields] at hadd
    split at hadd
    · exact ih (nodup_names_add h name _) hadd
    · cases hadd

theorem nodup_names_retain {g : CapabilityGraph} (h : g.names.Nodup) (known : String → Bool) :
    (g.retain known).1.names.Nodup := by
  have hkept : (g.retain known).1.names = (g.nodes.filter fun n => known n.1).map (·.1) := by
    simp [retain, names, Function.comp_def]
  rw [hkept]
  exact h.sublist (List.filter_sublist.map _)

/-- Each capability of a graph stands in it once. -/
theorem Built.nodup_names {g : CapabilityGraph} (hg : Built g) : g.names.Nodup := by
  induction hg with
  | empty => exact List.nodup_nil
  | add _ name deps ih => exact nodup_names_add ih name deps
  | ofSorted entries => exact nodup_names_ofEntries _
  | @ofJson value g h =>
    cases value with
    | obj fields =>
      have hempty : names {} = [] := rfl
      exact nodup_names_addFields (hempty ▸ List.nodup_nil) h
    | _ => cases h
  | retain _ known ih => exact nodup_names_retain ih known

end CapabilityGraph

end Switchboard
