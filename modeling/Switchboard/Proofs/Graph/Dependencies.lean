import Switchboard.Proofs.Graph.Cycles

/-!
# What capabilities depend on

* `CapabilityGraph.NodupDeps`, `CapabilityGraph.Built.nodupDeps` : nothing depends on something
  twice;
* `CapabilityGraph.dependencies_retain` : what is left of dependencies when some capabilities are;
* `CapabilityGraph.perm_plan`, `CapabilityGraph.layers_plan` : where a plan has the capabilities.
-/

namespace Switchboard

namespace CapabilityGraph

/-- The graphs that depend on nothing twice. -/
def NodupDeps (g : CapabilityGraph) : Prop := ∀ n ∈ g.nodes, n.2.Nodup

theorem nodup_distinct (items : List String) : (distinct items).Nodup := by
  unfold distinct
  induction items using List.reverseRecOn with
  | nil => exact List.nodup_nil
  | append_singleton items item ih =>
    rw [List.foldl_append]
    dsimp only [List.foldl_cons, List.foldl_nil]
    split
    · exact ih
    · rename_i hnew
      rw [← List.concat_eq_append]
      exact ih.concat (by simpa using hnew)

theorem mem_place {nodes : List GraphNode} {name : String} {deps : List String} {n : GraphNode}
    (h : n ∈ place nodes name deps) : n ∈ nodes ∨ n = (name, deps) := by
  induction nodes with
  | nil => exact .inr (List.mem_singleton.mp h)
  | cons m rest ih =>
    rw [place] at h
    split at h
    · rcases List.mem_cons.mp h with rfl | hmem
      · rename_i heq
        exact .inr (by rw [eq_of_beq heq])
      · exact .inl (List.mem_cons_of_mem _ hmem)
    · rcases List.mem_cons.mp h with rfl | hmem
      · exact .inl List.mem_cons_self
      · exact (ih hmem).imp (List.mem_cons_of_mem _) id

theorem NodupDeps.add {g : CapabilityGraph} (h : g.NodupDeps) (name : String)
    (deps : List String) : (g.add name deps).NodupDeps := by
  intro n hn
  rcases mem_place hn with hmem | rfl
  · exact h n hmem
  · exact nodup_distinct deps

theorem NodupDeps.addFields {fields : Fields} {g g' : CapabilityGraph} (h : g.NodupDeps)
    (hadd : addFields g fields = .ok g') : g'.NodupDeps := by
  induction fields generalizing g with
  | nil =>
    cases hadd
    exact h
  | cons field rest ih =>
    obtain ⟨name, value⟩ := field
    simp only [CapabilityGraph.addFields] at hadd
    split at hadd
    · exact ih (h.add name _) hadd
    · cases hadd

/-- A graph that was made depends on nothing twice. -/
theorem Built.nodupDeps {g : CapabilityGraph} (hg : Built g) : g.NodupDeps := by
  induction hg with
  | empty => exact fun n hn => nomatch hn
  | add _ name deps ih => exact ih.add name deps
  | ofSorted entries =>
    unfold CapabilityGraph.ofSorted ofEntries
    generalize entries.mergeSort _ = sorted
    induction sorted using List.reverseRecOn with
    | nil => exact fun n hn => nomatch hn
    | append_singleton sorted entry ih =>
      rw [List.foldl_append]
      exact ih.add entry.1 entry.2
  | @ofJson value g h =>
    cases value with
    | obj fields => exact NodupDeps.addFields (g := {}) (fun n hn => nomatch hn) h
    | _ => cases h
  | retain _ known ih =>
    intro n hn
    obtain ⟨m, hm, rfl⟩ := List.mem_map.mp hn
    exact (ih m (List.mem_of_mem_filter hm)).filter _

theorem NodupDeps.dependencies {g : CapabilityGraph} (h : g.NodupDeps) (c : String) :
    (g.dependencies c).Nodup := by
  unfold CapabilityGraph.dependencies
  cases hfind : g.nodes.find? (·.1 == c) with
  | none => exact List.nodup_nil
  | some n => exact h n (List.mem_of_find?_eq_some hfind)

/-- The dependencies of a capability of a graph, without those that are missing. -/
theorem dependencies_retain {g : CapabilityGraph} (hd : g.names.Nodup) {known : String → Bool}
    {c : String} (hc : c ∈ (g.retain known).1.names) :
    (g.retain known).1.dependencies c =
      (g.dependencies c).filter (g.retain known).1.names.contains := by
  obtain ⟨n, hn, rfl⟩ := List.mem_map.mp hc
  rw [dependencies_of_mem (nodup_names_retain hd known) hn]
  obtain ⟨m, hm, rfl⟩ := List.mem_map.mp hn
  rw [dependencies_of_mem hd (List.mem_of_mem_filter hm), names_retain]
  have hkept : ((g.nodes.filter fun n => known n.1).map (·.1)) = g.names.filter known := by
    simp [names, List.filter_map, Function.comp_def]
  rw [hkept]

/-! ## Plans -/

/-- A plan has every capability once. -/
theorem perm_plan (g : CapabilityGraph) : g.plan.waves.flatten.Perm g.names := by
  obtain ⟨waves, left, hpeeled, hpeel⟩ := exists_peeled g.size [] g.nodes (Nat.le_refl _)
  have hall : ((waves.map namesOf).flatten ++ namesOf left).Perm g.names := by
    rw [← namesOf_flatten, ← namesOf_append]
    exact hpeeled.perm.map _
  cases left with
  | nil =>
    rw [plan_of_peel hpeel]
    simpa [namesOf] using hall
  | cons n left =>
    rw [plan_of_peel_left hpeel (by simp), ← WavePlan.order, order_singles]
    exact hall

/-- Without a cycle each capability comes in a later wave than those it depends on. -/
theorem layers_plan {g : CapabilityGraph} (hd : g.names.Nodup) (h : g.plan.fellBack = false) :
    Layers g.nodes g.plan.waves := by
  obtain ⟨waves, left, hpeeled, hpeel⟩ := exists_peeled g.size [] g.nodes (Nat.le_refl _)
  cases left with
  | nil =>
    rw [plan_of_peel hpeel]
    have hlayers := hpeeled.layers hd
    rwa [show free g.nodes (namesOf []) = g.nodes from List.filter_eq_self.mpr fun n _ => rfl]
      at hlayers
  | cons n left =>
    rw [plan_of_peel_left hpeel (by simp)] at h
    cases h

/-- A capability stands in a wave of which the number is lower. -/
theorem waveOf_lt_iff {waves : List (List String)} (hd : waves.flatten.Nodup) {k : Nat}
    (hk : k ≤ waves.length) {name : String} :
    waveOf waves name < k ↔ name ∈ (waves.take k).flatten := by
  rw [mem_flatten_iff_inWave]
  constructor
  · intro hlt
    have hin : waveOf waves name < waves.length := Nat.lt_of_lt_of_le hlt hk
    have hmem : waves[waveOf waves name].contains name = true := List.findIdx_getElem
    refine ⟨waveOf waves name, _, ?_, by simpa using hmem⟩
    rw [List.getElem?_take_of_lt hlt, List.getElem?_eq_getElem hin]
  · rintro ⟨i, wave, hi, hname⟩
    rw [List.getElem?_take] at hi
    split at hi
    · rename_i hlt
      rwa [waveOf_eq hd ⟨wave, hi, hname⟩]
    · cases hi

end CapabilityGraph

end Switchboard
