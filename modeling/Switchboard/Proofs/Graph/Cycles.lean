import Mathlib.Data.Fintype.Card
import Mathlib.Data.Set.Finite.List
import Mathlib.Logic.Relation
import Mathlib.Order.WellFounded
import Switchboard.Proofs.Graph.Order
import Switchboard.Proofs.Keyed

/-!
# What a cycle keeps from being ordered

Peeling stops when each node that is left waits for another one. In a finite graph this happens
exactly when there is a cycle, provided that nothing waits for a capability that is no node; leaving
out what is unknown provides that.

* `CapabilityGraph.DependsOn`, `CapabilityGraph.ReachesCycle` : following dependencies;
* `CapabilityGraph.Closed` : all dependencies are capabilities of the graph;
* `exists_cycle_of_next` : who can always go on in a finite list comes back to where he was;
* `CapabilityGraph.mem_blocked_iff` : a plan blocks what reaches a cycle;
* `CapabilityGraph.plan_retain_cycles` : the graph that is left of known capabilities, and its plan.
-/

namespace Switchboard

/-! ## Walks in finite lists -/

/-- Who can always go on without leaving a list comes back to where he was. -/
theorem exists_cycle_of_next {α : Type} {r : α → α → Prop} {s : List α}
    (next : ∀ a ∈ s, ∃ b ∈ s, r a b) {a : α} (ha : a ∈ s) :
    ∃ c, Relation.ReflTransGen r a c ∧ Relation.TransGen r c c := by
  by_contra hnone
  have : Finite {b // b ∈ s ∧ Relation.ReflTransGen r a b} :=
    ((List.finite_toSet s).subset fun _ h => h.1).to_subtype
  -- without a cycle, going on descends in a finite set
  have hdown : WellFounded fun x y : {b // b ∈ s ∧ Relation.ReflTransGen r a b} =>
      Relation.TransGen r y.1 x.1 := by
    have htrans : IsTrans {b // b ∈ s ∧ Relation.ReflTransGen r a b}
        fun x y => Relation.TransGen r y.1 x.1 := ⟨fun _ _ _ hxy hyz => hyz.trans hxy⟩
    have hirrefl : Std.Irrefl fun x y : {b // b ∈ s ∧ Relation.ReflTransGen r a b} =>
        Relation.TransGen r y.1 x.1 := ⟨fun x hx => hnone ⟨x.1, x.2.2, hx⟩⟩
    exact Finite.wellFounded_of_trans_of_irrefl _
  have hnever : ∀ x : {b // b ∈ s ∧ Relation.ReflTransGen r a b}, False := by
    intro x
    induction x using hdown.induction with
    | _ x ih =>
      obtain ⟨b, hb, hxb⟩ := next x.1 x.2.1
      exact ih ⟨b, hb, x.2.2.tail hxb⟩ (.single hxb)
  exact hnever ⟨a, ha, .refl⟩

namespace CapabilityGraph

variable {g : CapabilityGraph} {a d : String}

/-! ## Following dependencies -/

/-- The capability lists the other one among its dependencies. -/
def DependsOn (g : CapabilityGraph) (a d : String) : Prop := d ∈ g.dependencies a

/-- Following dependencies from the capability leads to one that depends on itself, directly or
through others. -/
def ReachesCycle (g : CapabilityGraph) (a : String) : Prop :=
  ∃ c, Relation.ReflTransGen g.DependsOn a c ∧ Relation.TransGen g.DependsOn c c

/-- All dependencies are capabilities of the graph. -/
def Closed (g : CapabilityGraph) : Prop := ∀ a d, g.DependsOn a d → d ∈ g.names

theorem exists_node_of_dependsOn (h : g.DependsOn a d) : ∃ n ∈ g.nodes, n.1 = a ∧ d ∈ n.2 := by
  unfold DependsOn dependencies at h
  cases hfind : g.nodes.find? (·.1 == a) with
  | none => simp [hfind] at h
  | some n =>
    refine ⟨n, List.mem_of_find?_eq_some hfind, ?_, by simpa [hfind] using h⟩
    simpa using List.find?_some hfind

theorem dependencies_of_mem (hd : g.names.Nodup) {n : GraphNode} (hn : n ∈ g.nodes) :
    g.dependencies n.1 = n.2 := by
  have hfind : g.nodes.find? (·.1 == n.1) = some n := (find?_key_eq_some_iff hd).mpr ⟨hn, rfl⟩
  rw [dependencies, hfind]
  rfl

theorem dependsOn_iff (hd : g.names.Nodup) :
    g.DependsOn a d ↔ ∃ n ∈ g.nodes, n.1 = a ∧ d ∈ n.2 := by
  refine ⟨exists_node_of_dependsOn, ?_⟩
  rintro ⟨n, hn, rfl, hdep⟩
  rw [DependsOn, dependencies_of_mem hd hn]
  exact hdep

/-! ## Peeling and cycles -/

namespace Peeled

variable {waves : List (List GraphNode)} {left : List GraphNode}

/-- From a node that was taken off, dependencies lead down through earlier waves only. -/
theorem descends (h : Peeled [] g.nodes waves left) (hd : g.names.Nodup)
    (hfree : a ∉ namesOf left) (hdep : g.DependsOn a d) :
    d ∉ namesOf left ∧ waveOf (waves.map namesOf) d < waveOf (waves.map namesOf) a := by
  obtain ⟨n, hn, rfl, hdn⟩ := exists_node_of_dependsOn hdep
  obtain ⟨hmem, hlt⟩ := (h.layers hd).before n (mem_free.mpr ⟨hn, hfree⟩) d hdn
  obtain ⟨m, hm, rfl⟩ := List.mem_map.mp hmem
  exact ⟨(mem_free.mp hm).2, hlt⟩

theorem descends_transGen (h : Peeled [] g.nodes waves left) (hd : g.names.Nodup)
    (hfree : a ∉ namesOf left) (hpath : Relation.TransGen g.DependsOn a d) :
    d ∉ namesOf left ∧ waveOf (waves.map namesOf) d < waveOf (waves.map namesOf) a := by
  induction hpath with
  | single hdep => exact h.descends hd hfree hdep
  | tail _ hdep ih =>
    obtain ⟨hmid, hlt⟩ := ih
    obtain ⟨hlast, hlt'⟩ := h.descends hd hmid hdep
    exact ⟨hlast, Nat.lt_trans hlt' hlt⟩

theorem not_reachesCycle (h : Peeled [] g.nodes waves left) (hd : g.names.Nodup)
    (hfree : a ∉ namesOf left) : ¬ g.ReachesCycle a := by
  rintro ⟨c, hac, hcycle⟩
  have hc : c ∉ namesOf left := by
    rcases Relation.reflTransGen_iff_eq_or_transGen.mp hac with rfl | hpath
    · exact hfree
    · exact (h.descends_transGen hd hfree hpath).1
  exact Nat.lt_irrefl _ (h.descends_transGen hd hc hcycle).2

/-- Each node that is left waits for another one that is left. -/
theorem exists_left_dependency (h : Peeled [] g.nodes waves left) (hd : g.names.Nodup)
    (hclosed : g.Closed) (hleft : a ∈ namesOf left) : ∃ d ∈ namesOf left, g.DependsOn a d := by
  obtain ⟨n, hn, rfl⟩ := List.mem_map.mp hleft
  have hnode : n ∈ g.nodes := h.left_sublist.subset hn
  obtain ⟨d, hdn, hnot⟩ := h.waits hd hnode hleft
  have hdep : g.DependsOn n.1 d := (dependsOn_iff hd).mpr ⟨n, hnode, rfl, hdn⟩
  refine ⟨d, ?_, hdep⟩
  obtain ⟨m, hm, rfl⟩ := List.mem_map.mp (hclosed n.1 d hdep)
  by_contra hout
  exact hnot (List.mem_map_of_mem (mem_free.mpr ⟨hm, hout⟩))

theorem mem_left_iff (h : Peeled [] g.nodes waves left) (hd : g.names.Nodup)
    (hclosed : g.Closed) : a ∈ namesOf left ↔ g.ReachesCycle a := by
  constructor
  · exact exists_cycle_of_next fun b hb => h.exists_left_dependency hd hclosed hb
  · intro hcycle
    by_contra hfree
    exact h.not_reachesCycle hd hfree hcycle

end Peeled

theorem exists_peeled_plan (g : CapabilityGraph) :
    ∃ waves left, Peeled [] g.nodes waves left ∧ g.plan.blocked = namesOf left ∧
      (g.plan.fellBack = true ↔ left ≠ []) := by
  obtain ⟨waves, left, hpeeled, hpeel⟩ := exists_peeled g.size [] g.nodes (Nat.le_refl _)
  refine ⟨waves, left, hpeeled, ?_⟩
  by_cases hleft : left = []
  · subst hleft
    rw [plan_of_peel hpeel]
    simp [namesOf]
  · rw [plan_of_peel_left hpeel hleft]
    simp [hleft]

/-- A plan blocks exactly what reaches a cycle. -/
theorem mem_blocked_iff (hd : g.names.Nodup) (hclosed : g.Closed) :
    a ∈ g.plan.blocked ↔ g.ReachesCycle a := by
  obtain ⟨waves, left, hpeeled, hblocked, -⟩ := g.exists_peeled_plan
  rw [hblocked]
  exact hpeeled.mem_left_iff hd hclosed

theorem fellBack_iff (g : CapabilityGraph) : g.plan.fellBack = true ↔ g.plan.blocked ≠ [] := by
  obtain ⟨waves, left, -, hblocked, hback⟩ := g.exists_peeled_plan
  rw [hblocked, hback]
  simp [namesOf]

/-- A plan runs one capability at a time exactly when there is a cycle. -/
theorem fellBack_iff_cycle (hd : g.names.Nodup) (hclosed : g.Closed) :
    g.plan.fellBack = true ↔ ∃ c, Relation.TransGen g.DependsOn c c := by
  rw [fellBack_iff]
  constructor
  · intro hne
    obtain ⟨a, ha⟩ := List.exists_mem_of_ne_nil _ hne
    obtain ⟨c, -, hcycle⟩ := (mem_blocked_iff hd hclosed).mp ha
    exact ⟨c, hcycle⟩
  · rintro ⟨c, hcycle⟩
    exact List.ne_nil_of_mem ((mem_blocked_iff hd hclosed).mpr ⟨c, .refl, hcycle⟩)

/-! ## What is left of known capabilities -/

variable {known : String → Bool}

theorem names_retain (g : CapabilityGraph) (known : String → Bool) :
    (g.retain known).1.names = g.names.filter known := by
  simp [retain, names, List.filter_map, Function.comp_def]

theorem dropped_retain (g : CapabilityGraph) (known : String → Bool) :
    (g.retain known).2 = g.names.filter fun name => !known name := by
  simp [retain, names, List.filter_map, Function.comp_def]

/-- Between known capabilities dependencies stay as they are, and there are no others. -/
theorem dependsOn_retain_iff (hd : g.names.Nodup) :
    (g.retain known).1.DependsOn a d ↔
      g.DependsOn a d ∧ known a = true ∧ d ∈ (g.retain known).1.names := by
  rw [dependsOn_iff (nodup_names_retain hd known), dependsOn_iff hd, names_retain]
  have hkept : ((g.nodes.filter fun n => known n.1).map (·.1)) = g.names.filter known := by
    simp [names, List.filter_map, Function.comp_def]
  constructor
  · rintro ⟨n, hn, rfl, hdep⟩
    obtain ⟨m, hm, rfl⟩ := List.mem_map.mp hn
    obtain ⟨hmem, hknown⟩ := List.mem_filter.mp hm
    obtain ⟨hdep, hin⟩ := List.mem_filter.mp hdep
    rw [hkept] at hin
    exact ⟨⟨m, hmem, rfl, hdep⟩, hknown, by simpa using hin⟩
  · rintro ⟨⟨n, hn, rfl, hdep⟩, hknown, hin⟩
    refine ⟨_, List.mem_map_of_mem (List.mem_filter.mpr ⟨hn, hknown⟩), rfl, ?_⟩
    rw [hkept]
    exact List.mem_filter.mpr ⟨hdep, by simpa using hin⟩

theorem closed_retain (hd : g.names.Nodup) (known : String → Bool) :
    (g.retain known).1.Closed :=
  fun _ _ hdep => ((dependsOn_retain_iff hd).mp hdep).2.2

/-- **What runs of a graph, and when it falls back.** The known capabilities and the others split
the graph in its order; dependencies between known capabilities stay and no others are left; and
the plan of what is left falls back to one capability at a time exactly when there is a cycle,
blocking exactly the capabilities from which dependencies lead to one. -/
theorem plan_retain_cycles (hg : Built g) (known : String → Bool) :
    let kept := (g.retain known).1
    (kept.names = g.names.filter known ∧
      (g.retain known).2 = g.names.filter fun name => !known name) ∧
    (∀ a ∈ kept.names, ∀ d ∈ kept.names, kept.DependsOn a d ↔ g.DependsOn a d) ∧
    kept.Closed ∧
    (kept.plan.fellBack = true ↔ ∃ c, Relation.TransGen kept.DependsOn c c) ∧
    ∀ a, a ∈ kept.plan.blocked ↔ kept.ReachesCycle a := by
  intro kept
  have hd : g.names.Nodup := hg.nodup_names
  have hdkept : kept.names.Nodup := nodup_names_retain hd known
  have hclosed : kept.Closed := closed_retain hd known
  refine ⟨⟨names_retain g known, dropped_retain g known⟩, fun a ha d hin => ?_, hclosed,
    fellBack_iff_cycle hdkept hclosed, fun a => mem_blocked_iff hdkept hclosed⟩
  have hknown : known a = true := by
    rw [names_retain] at ha
    exact List.of_mem_filter ha
  rw [dependsOn_retain_iff hd]
  exact ⟨fun h => h.1, fun h => ⟨h, hknown, hin⟩⟩

/-- One of two cycles goes with the capability that is not known; what depends on the other one is
blocked with it. -/
theorem plan_retain_one_of_two_cycles :
    let g := ((((({} : CapabilityGraph).add "a" ["b"]).add "b" ["a"]).add "c" ["b", "x"]).add "x"
      ["y"]).add "y" ["x"]
    let kept := (g.retain fun name => name != "y").1
    Built g ∧ (g.retain fun name => name != "y").2 = ["y"] ∧
      kept.plan.waves = [["x"], ["a"], ["b"], ["c"]] ∧
      kept.ReachesCycle "a" ∧ kept.ReachesCycle "c" ∧ ¬ kept.ReachesCycle "x" ∧
      ∃ c, Relation.TransGen kept.DependsOn c c := by
  intro g kept
  have hg : Built g := .add (.add (.add (.add (.add .empty _ _) _ _) _ _) _ _) _ _
  have hplan : kept.plan =
      { waves := [["x"], ["a"], ["b"], ["c"]], fellBack := true, blocked := ["a", "b", "c"] } := by
    decide
  obtain ⟨-, -, -, hback, hblocked⟩ := plan_retain_cycles hg fun name => name != "y"
  refine ⟨hg, by decide, by rw [hplan], (hblocked "a").mp ?_, (hblocked "c").mp ?_,
    fun hx => absurd ((hblocked "x").mpr hx) ?_, hback.mp ?_⟩
  · decide
  · decide
  · decide
  · decide

end CapabilityGraph

end Switchboard
