import Mathlib.Data.List.Nodup
import Switchboard.Proofs.Graph.Built
import Switchboard.Proofs.Graph.Waves

/-!
# Plans keep the order of dependencies

* `CapabilityGraph.firstWave` : the earliest wave that dependencies allow;
* `CapabilityGraph.Layers` : nodes in the earliest waves in which they can stand;
* `CapabilityGraph.Linearized` : one node a wave, what a cycle blocks last;
* `Peeled.layers` : peeling puts into layers what it takes off;
* `CapabilityGraph.plan_order` : a plan has every node once, in layers, or linearized when a cycle
  blocks some of them.
-/

namespace Switchboard

namespace CapabilityGraph

/-- The number of the wave in which a capability stands. -/
def waveOf (waves : List (List String)) (name : String) : Nat :=
  waves.findIdx fun wave => wave.contains name

/-- The first wave in which something with these dependencies can stand. -/
def firstWave (waves : List (List String)) : List String → Nat
  | [] => 0
  | d :: deps => max (waveOf waves d + 1) (firstWave waves deps)

/-- The nodes stand once each in waves that keep their order, each node in the earliest wave in
which it can stand: the first one without dependencies, otherwise the one after the latest of its
dependencies, which are nodes too. -/
structure Layers (nodes : List GraphNode) (waves : List (List String)) : Prop where
  perm : waves.flatten.Perm (namesOf nodes)
  ne_nil : ∀ wave ∈ waves, wave ≠ []
  inOrder : ∀ wave ∈ waves, wave.Sublist (namesOf nodes)
  before : ∀ n ∈ nodes, ∀ d ∈ n.2, d ∈ namesOf nodes ∧ waveOf waves d < waveOf waves n.1
  earliest : ∀ n ∈ nodes, waveOf waves n.1 = firstWave waves n.2

def free (nodes : List GraphNode) (blocked : List String) : List GraphNode :=
  nodes.filter fun n => !blocked.contains n.1

/-- Each wave has one node. First come the nodes that are not blocked, wave by wave as they would
stand without the others, so that each comes after all it depends on; then come the blocked ones,
which all wait for another blocked one or for something that is no node. -/
structure Linearized (nodes : List GraphNode) (p : WavePlan) : Prop where
  single : ∀ wave ∈ p.waves, wave.length = 1
  blocked_ne_nil : p.blocked ≠ []
  blocked_inOrder : p.blocked.Sublist (namesOf nodes)
  order : ∃ waves, Layers (free nodes p.blocked) waves ∧ p.order = waves.flatten ++ p.blocked
  after : ∀ n ∈ free nodes p.blocked, ∀ d ∈ n.2, [d, n.1].Sublist p.order
  waits : ∀ n ∈ nodes, n.1 ∈ p.blocked → ∃ d ∈ n.2, d ∉ namesOf (free nodes p.blocked)

theorem mem_free {nodes : List GraphNode} {blocked : List String} {n : GraphNode} :
    n ∈ free nodes blocked ↔ n ∈ nodes ∧ n.1 ∉ blocked := by
  simp [free]

theorem order_singles (names blocked : List String) (fellBack : Bool) :
    ({ waves := names.map fun n => [n], fellBack, blocked } : WavePlan).order = names :=
  List.flatMap_singleton' names

theorem namesOf_append (a b : List GraphNode) : namesOf (a ++ b) = namesOf a ++ namesOf b :=
  List.map_append

theorem namesOf_flatten (waves : List (List GraphNode)) :
    namesOf waves.flatten = (waves.map namesOf).flatten :=
  List.map_flatten

theorem firstWave_le_iff {waves : List (List String)} {deps : List String} {i : Nat} :
    firstWave waves deps ≤ i ↔ ∀ d ∈ deps, waveOf waves d < i := by
  induction deps with
  | nil => simp [firstWave]
  | cons d deps ih =>
    rw [firstWave, Nat.max_le, Nat.succ_le_iff, ih, List.forall_mem_cons]

/-! ## Waves without repetitions -/

section Distinct

variable {waves : List (List String)} {name : String} {i : Nat}

theorem mem_flatten_iff_inWave : name ∈ waves.flatten ↔ ∃ i, InWave waves i name := by
  rw [List.mem_flatten]
  constructor
  · rintro ⟨wave, hw, hn⟩
    obtain ⟨i, hi⟩ := List.getElem?_of_mem hw
    exact ⟨i, wave, hi, hn⟩
  · rintro ⟨i, wave, hi, hn⟩
    exact ⟨wave, List.mem_of_getElem? hi, hn⟩

/-- A capability that stands in no second wave is found where it stands. -/
theorem waveOf_eq (hd : waves.flatten.Nodup) (h : InWave waves i name) :
    waveOf waves name = i := by
  obtain ⟨wave, hi, hn⟩ := h
  obtain ⟨hlt, rfl⟩ := List.getElem?_eq_some_iff.mp hi
  have hdisjoint := List.pairwise_iff_getElem.mp (List.nodup_flatten.mp hd).2
  refine (List.findIdx_eq hlt).mpr ⟨by simpa using hn, fun j hj => ?_⟩
  have hne := hdisjoint j i (Nat.lt_trans hj hlt) hlt hj
  by_contra hmem
  exact hne (by simpa using hmem) hn

/-- What stands in an earlier wave comes earlier. -/
theorem sublist_flatten_of_lt {other : String} {j : Nat} (hij : i < j)
    (hi : InWave waves i name) (hj : InWave waves j other) :
    [name, other].Sublist waves.flatten := by
  obtain ⟨a, ha, hname⟩ := hi
  obtain ⟨b, hb, hother⟩ := hj
  have htake : name ∈ (waves.take j).flatten := by
    refine List.mem_flatten.mpr ⟨a, List.mem_of_getElem? (i := i) ?_, hname⟩
    rw [List.getElem?_take_of_lt hij, ha]
  have hdrop : other ∈ (waves.drop j).flatten := by
    refine List.mem_flatten.mpr ⟨b, List.mem_of_getElem? (i := 0) ?_, hother⟩
    rw [List.getElem?_drop, Nat.add_zero, hb]
  rw [← List.take_append_drop j waves, List.flatten_append]
  exact (List.singleton_sublist.mpr htake).append (List.singleton_sublist.mpr hdrop)

end Distinct

/-! ## What peeling takes off -/

namespace Peeled

variable {nodes left : List GraphNode} {waves : List (List GraphNode)}

theorem nodup_names (h : Peeled [] nodes waves left) (hd : (namesOf nodes).Nodup) :
    ((waves.map namesOf).flatten ++ namesOf left).Nodup := by
  have hperm : (namesOf (waves.flatten ++ left)).Perm (namesOf nodes) := h.perm.map _
  rw [namesOf_append, namesOf_flatten] at hperm
  exact hperm.nodup_iff.mpr hd

/-- The nodes that are taken off are those whose names are not left. -/
theorem perm_free (h : Peeled [] nodes waves left) (hd : (namesOf nodes).Nodup) :
    waves.flatten.Perm (free nodes (namesOf left)) := by
  have hleft : free left (namesOf left) = [] := by
    rw [List.eq_nil_iff_forall_not_mem]
    intro n hn
    obtain ⟨hmem, hnot⟩ := mem_free.mp hn
    exact hnot (List.mem_map_of_mem hmem)
  have htaken : free waves.flatten (namesOf left) = waves.flatten := by
    rw [free, List.filter_eq_self]
    intro n hn
    have hname : n.1 ∈ (waves.map namesOf).flatten :=
      namesOf_flatten waves ▸ List.mem_map_of_mem hn
    have hnot : n.1 ∉ namesOf left :=
      fun hmem => (List.nodup_append.mp (h.nodup_names hd)).2.2 _ hname _ hmem rfl
    simpa using hnot
  have hperm := h.perm.filter fun n => !(namesOf left).contains n.1
  rw [List.filter_append] at hperm
  unfold free at hleft htaken ⊢
  rwa [hleft, htaken, List.append_nil] at hperm

/-- A node that is not left has its wave: its dependencies are in earlier ones, and one of them
is in the wave before. -/
theorem exists_wave (h : Peeled [] nodes waves left) (hd : (namesOf nodes).Nodup)
    {n : GraphNode} (hn : n ∈ free nodes (namesOf left)) :
    ∃ i, InWave (waves.map namesOf) i n.1 ∧
      (∀ d ∈ n.2, ∃ j < i, InWave (waves.map namesOf) j d) ∧
      ∀ k, i = k + 1 → ∃ d ∈ n.2, InWave (waves.map namesOf) k d := by
  have hmem := (h.perm_free hd).mem_iff.mpr hn
  obtain ⟨wave, hwave, hnw⟩ := List.mem_flatten.mp hmem
  obtain ⟨i, hi⟩ := List.getElem?_of_mem hwave
  refine ⟨i, ⟨namesOf wave, ?_, List.mem_map_of_mem hnw⟩, fun d hdep => ?_, fun k hk => ?_⟩
  · rw [List.getElem?_map, hi]
    rfl
  · rcases h.after i wave hi n hnw d hdep with hnil | hearlier
    · cases hnil
    · exact hearlier
  · subst hk
    exact h.soonest k wave hi n hnw

theorem layers (h : Peeled [] nodes waves left) (hd : (namesOf nodes).Nodup) :
    Layers (free nodes (namesOf left)) (waves.map namesOf) := by
  have hflat := (List.nodup_append.mp (h.nodup_names hd)).1
  have hperm : (waves.map namesOf).flatten.Perm
      (namesOf (free nodes (namesOf left))) := by
    rw [← namesOf_flatten]
    exact (h.perm_free hd).map _
  have hbefore : ∀ n ∈ free nodes (namesOf left), ∀ d ∈ n.2,
      d ∈ (waves.map namesOf).flatten ∧
        waveOf (waves.map namesOf) d < waveOf (waves.map namesOf) n.1 := by
    intro n hn d hdep
    obtain ⟨i, hi, hdeps, -⟩ := h.exists_wave hd hn
    obtain ⟨j, hj, hin⟩ := hdeps d hdep
    rw [waveOf_eq hflat hin, waveOf_eq hflat hi]
    exact ⟨mem_flatten_iff_inWave.mpr ⟨j, hin⟩, hj⟩
  refine ⟨hperm, ?_, ?_, ?_, ?_⟩
  · intro wave hwave
    obtain ⟨nodes, hnodes, rfl⟩ := List.mem_map.mp hwave
    simpa [namesOf] using h.ne_nil nodes hnodes
  · intro wave hwave
    obtain ⟨taken, htaken, rfl⟩ := List.mem_map.mp hwave
    have hkept : free taken (namesOf left) = taken := by
      rw [free, List.filter_eq_self]
      intro n hn
      have hfree := (h.perm_free hd).subset (List.mem_flatten.mpr ⟨taken, htaken, hn⟩)
      simpa using (mem_free.mp hfree).2
    rw [← hkept]
    exact ((h.sublist taken htaken).filter _).map _
  · intro n hn d hdep
    exact ⟨hperm.subset (hbefore n hn d hdep).1, (hbefore n hn d hdep).2⟩
  · intro n hn
    refine Nat.le_antisymm ?_ (firstWave_le_iff.mpr fun d hdep => (hbefore n hn d hdep).2)
    obtain ⟨i, hi, -, hlatest⟩ := h.exists_wave hd hn
    rw [waveOf_eq hflat hi]
    cases i with
    | zero => exact Nat.zero_le _
    | succ k =>
      obtain ⟨d, hdep, hin⟩ := hlatest k rfl
      have hlt : waveOf (waves.map namesOf) d < firstWave (waves.map namesOf) n.2 :=
        firstWave_le_iff.mp (Nat.le_refl _) d hdep
      rwa [waveOf_eq hflat hin] at hlt

theorem waits (h : Peeled [] nodes waves left) (hd : (namesOf nodes).Nodup) {n : GraphNode}
    (hn : n ∈ nodes) (hblocked : n.1 ∈ namesOf left) :
    ∃ d ∈ n.2, d ∉ namesOf (free nodes (namesOf left)) := by
  have hleft : n ∈ left := by
    rcases List.mem_append.mp (h.perm.mem_iff.mpr hn) with htaken | hleft
    · have hfree := (h.perm_free hd).subset htaken
      exact absurd hblocked (mem_free.mp hfree).2
    · exact hleft
  obtain ⟨d, hdep, hnot⟩ := h.stuck n hleft
  refine ⟨d, hdep, fun hmem => hnot ?_⟩
  rw [List.nil_append]
  exact ((h.perm_free hd).map _).mem_iff.mpr hmem

/-- With the rest after the layers, every dependency of a node in a layer comes before it. -/
theorem linearized (h : Peeled [] nodes waves left) (hd : (namesOf nodes).Nodup)
    (hleft : left ≠ []) :
    Linearized nodes
      { waves := ((waves.map namesOf).flatten ++ namesOf left).map fun n => [n]
        fellBack := true
        blocked := namesOf left } := by
  have hlayers := h.layers hd
  refine ⟨?_, ?_, h.left_sublist.map _, ⟨_, hlayers, order_singles _ _ _⟩, ?_, fun n hn => h.waits hd hn⟩
  · intro wave hwave
    obtain ⟨name, -, rfl⟩ := List.mem_map.mp hwave
    rfl
  · simpa [namesOf] using hleft
  · intro n hn d hdep
    obtain ⟨i, hi, hdeps, -⟩ := h.exists_wave hd hn
    obtain ⟨j, hj, hin⟩ := hdeps d hdep
    rw [order_singles]
    exact (sublist_flatten_of_lt hj hin hi).trans (List.sublist_append_left _ _)

end Peeled

/-! ## Plans -/

theorem plan_of_peel {g : CapabilityGraph} {waves : List (List String)}
    (h : peel g.size [] g.nodes = (waves, [])) : g.plan = { waves } := by
  unfold plan
  rw [h]

theorem plan_of_peel_left {g : CapabilityGraph} {waves : List (List String)}
    {left : List GraphNode} (h : peel g.size [] g.nodes = (waves, left)) (hleft : left ≠ []) :
    g.plan =
      { waves := (waves.flatten ++ namesOf left).map fun n => [n]
        fellBack := true
        blocked := namesOf left } := by
  unfold plan
  rw [h]
  cases left with
  | nil => exact absurd rfl hleft
  | cons => rfl

/-- The loop ends by itself, the plan has every node once and nothing else, and its waves are
layers unless something is blocked. -/
theorem plan_order {g : CapabilityGraph} (hg : Built g) :
    (∃ waves left, Peeled [] g.nodes waves left ∧
      peel g.size [] g.nodes = (waves.map namesOf, left)) ∧
    g.plan.order.Perm g.names ∧ g.plan.order.Nodup ∧
    (g.plan.fellBack = false → g.plan.blocked = [] ∧ Layers g.nodes g.plan.waves) ∧
    (g.plan.fellBack = true → Linearized g.nodes g.plan) := by
  obtain ⟨waves, left, hpeeled, hpeel⟩ := exists_peeled g.size [] g.nodes (Nat.le_refl _)
  have hd : (namesOf g.nodes).Nodup := hg.nodup_names
  have hall : ((waves.map namesOf).flatten ++ namesOf left).Perm g.names := by
    rw [← namesOf_flatten, ← namesOf_append]
    exact hpeeled.perm.map _
  refine ⟨⟨waves, left, hpeeled, hpeel⟩, ?_⟩
  by_cases hleft : left = []
  · subst hleft
    have hlayers := hpeeled.layers hd
    have hfree : free g.nodes (namesOf []) = g.nodes := List.filter_eq_self.mpr fun n _ => rfl
    have hnames : (waves.map namesOf).flatten.Perm g.names := by
      rwa [namesOf, List.map_nil, List.append_nil] at hall
    rw [hfree] at hlayers
    rw [plan_of_peel hpeel]
    refine ⟨hnames, hnames.nodup_iff.mpr hd, fun _ => ⟨rfl, hlayers⟩, fun h => ?_⟩
    cases h
  · have hlinear := hpeeled.linearized hd hleft
    rw [plan_of_peel_left hpeel hleft]
    rw [order_singles]
    refine ⟨hall, hall.nodup_iff.mpr hd, fun h => ?_, fun _ => hlinear⟩
    cases h

/-- A graph with a cycle that blocks one more node, and the part of it that is in layers. -/
theorem plan_order_cycle :
    let g := ((((({} : CapabilityGraph).add "c" ["a"]).add "y" ["x"]).add "a" ["b"]).add "b"
      ["a"]).add "x" []
    let known := fun name => name == "x" || name == "y"
    Built g ∧ Built (g.retain known).1 ∧
      g.plan.waves = [["x"], ["y"], ["c"], ["a"], ["b"]] ∧ g.plan.blocked = ["c", "a", "b"] ∧
      Linearized g.nodes g.plan ∧ (g.retain known).1.plan.waves = [["x"], ["y"]] ∧
      Layers (g.retain known).1.nodes (g.retain known).1.plan.waves := by
  intro g known
  have hg : Built g := .add (.add (.add (.add (.add .empty _ _) _ _) _ _) _ _) _ _
  have hknown : Built (g.retain known).1 := hg.retain known
  have hplan : g.plan =
      { waves := [["x"], ["y"], ["c"], ["a"], ["b"]], fellBack := true
        blocked := ["c", "a", "b"] } := by
    decide
  have hpart : (g.retain known).1.plan = { waves := [["x"], ["y"]] } := by decide
  have hback : g.plan.fellBack = true := by rw [hplan]
  have hlayers : (g.retain known).1.plan.fellBack = false := by rw [hpart]
  refine ⟨hg, hknown, ?_, ?_, (plan_order hg).2.2.2.2 hback, ?_,
    ((plan_order hknown).2.2.2.1 hlayers).2⟩
  · rw [hplan]
  · rw [hplan]
  · rw [hpart]

end CapabilityGraph

end Switchboard
