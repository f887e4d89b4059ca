import Mathlib.Data.List.Nodup
import Switchboard.Graph.Plan

/-!
# Peeling a graph

The loop that peels a graph ends by itself when nothing more is ready. What it has taken off then
stands in waves: a capability is taken off in the first round in which all its dependencies are
done.

* `CapabilityGraph.Peeled` : the rounds of the loop, counted by nothing;
* `CapabilityGraph.exists_peeled` : with a round for each node the loop ends by itself;
* `Peeled.perm`, `Peeled.sublist`, `Peeled.stuck` : where the nodes end up;
* `Peeled.after`, `Peeled.soonest` : in which round a node is taken off.
-/

namespace Switchboard

/-- The capability stands in the wave of the given number. -/
def InWave (waves : List (List String)) (i : Nat) (name : String) : Prop :=
  ∃ wave, waves[i]? = some wave ∧ name ∈ wave

theorem InWave.cons {waves : List (List String)} {i : Nat} {name : String}
    (h : InWave waves i name) (wave : List String) : InWave (wave :: waves) (i + 1) name := h

theorem inWave_zero {wave : List String} {name : String} (h : name ∈ wave)
    (waves : List (List String)) : InWave (wave :: waves) 0 name := ⟨wave, rfl, h⟩

namespace CapabilityGraph

def namesOf (nodes : List GraphNode) : List String := nodes.map (·.1)

def ready (done : List String) (n : GraphNode) : Bool := n.2.all done.contains

theorem ready_iff {done : List String} {n : GraphNode} :
    ready done n = true ↔ ∀ d ∈ n.2, d ∈ done := by
  simp [ready]

theorem exists_waiting {done : List String} {n : GraphNode} (h : ready done n = false) :
    ∃ d ∈ n.2, d ∉ done := by
  simpa [ready] using h

/-- The rounds of the loop from the nodes in `rest` on, given the capabilities that are done: each
takes off what is ready, until nothing is. -/
inductive Peeled : List String → List GraphNode → List (List GraphNode) → List GraphNode → Prop
  | stop {done : List String} {rest : List GraphNode} (h : rest.filter (ready done) = []) :
      Peeled done rest [] rest
  | round {done : List String} {rest : List GraphNode} {waves : List (List GraphNode)}
      {left : List GraphNode} (h : rest.filter (ready done) ≠ [])
      (next : Peeled (done ++ namesOf (rest.filter (ready done)))
        (rest.filter fun n => !ready done n) waves left) :
      Peeled done rest (rest.filter (ready done) :: waves) left

theorem peel_succ (fuel : Nat) (done : List String) (rest : List GraphNode) :
    peel (fuel + 1) done rest =
      if (rest.filter (ready done)).isEmpty then ([], rest.filter fun n => !ready done n)
      else
        (namesOf (rest.filter (ready done)) ::
            (peel fuel (done ++ namesOf (rest.filter (ready done)))
              (rest.filter fun n => !ready done n)).1,
          (peel fuel (done ++ namesOf (rest.filter (ready done)))
            (rest.filter fun n => !ready done n)).2) := by
  simp only [peel, List.partition_eq_filter_filter]
  rfl

/-- With a round for each node the loop ends by itself, and its waves are what the rounds took. -/
theorem exists_peeled (fuel : Nat) (done : List String) (rest : List GraphNode)
    (hlen : rest.length ≤ fuel) :
    ∃ waves left, Peeled done rest waves left ∧
      peel fuel done rest = (waves.map namesOf, left) := by
  induction fuel generalizing done rest with
  | zero =>
    obtain rfl : rest = [] := List.length_eq_zero_iff.mp (Nat.le_zero.mp hlen)
    exact ⟨[], [], .stop rfl, rfl⟩
  | succ fuel ih =>
    rw [peel_succ]
    by_cases hready : rest.filter (ready done) = []
    · have hkept : (rest.filter fun n => !ready done n) = rest := by
        rw [List.filter_eq_self]
        intro n hn
        have hnot := List.filter_eq_nil_iff.mp hready n hn
        simpa using hnot
      refine ⟨[], rest, .stop hready, ?_⟩
      rw [hready, hkept]
      rfl
    · have hshort : (rest.filter fun n => !ready done n).length ≤ fuel := by
        have hsum := (List.filter_append_perm (ready done) rest).length_eq
        have hpos := List.length_pos_iff.mpr hready
        rw [List.length_append] at hsum
        omega
      obtain ⟨waves, left, hpeeled, heq⟩ := ih _ _ hshort
      refine ⟨_ :: waves, left, .round hready hpeeled, ?_⟩
      rw [if_neg (by simpa using hready), heq]
      rfl

namespace Peeled

variable {done : List String} {rest left : List GraphNode} {waves : List (List GraphNode)}

/-- No node is lost and none comes twice. -/
theorem perm (h : Peeled done rest waves left) : (waves.flatten ++ left).Perm rest := by
  induction h with
  | stop => exact List.Perm.refl _
  | @round done rest waves left _ _ ih =>
    rw [List.flatten_cons, List.append_assoc]
    exact (ih.append_left _).trans (List.filter_append_perm (ready done) rest)

theorem ne_nil (h : Peeled done rest waves left) : ∀ wave ∈ waves, wave ≠ [] := by
  induction h with
  | stop => simp
  | round hready _ ih => exact List.forall_mem_cons.mpr ⟨hready, ih⟩

theorem sublist (h : Peeled done rest waves left) : ∀ wave ∈ waves, wave.Sublist rest := by
  induction h with
  | stop => simp
  | round _ _ ih =>
    refine List.forall_mem_cons.mpr ⟨List.filter_sublist, ?_⟩
    exact fun wave hw => (ih wave hw).trans List.filter_sublist

theorem left_sublist (h : Peeled done rest waves left) : left.Sublist rest := by
  induction h with
  | stop => exact List.Sublist.refl _
  | round _ _ ih => exact ih.trans List.filter_sublist

/-- What is left waits for something that is not done. -/
theorem stuck (h : Peeled done rest waves left) :
    ∀ n ∈ left, ∃ d ∈ n.2, d ∉ done ++ namesOf waves.flatten := by
  induction h with
  | @stop done rest hready =>
    intro n hn
    have hnot := List.filter_eq_nil_iff.mp hready n hn
    simpa [namesOf] using exists_waiting (by simpa using hnot)
  | round _ _ ih =>
    intro n hn
    obtain ⟨d, hd, hnot⟩ := ih n hn
    refine ⟨d, hd, ?_⟩
    simpa [namesOf, or_assoc] using hnot

/-- A node is taken off when all that it depends on is done. -/
theorem after (h : Peeled done rest waves left) :
    ∀ i wave, waves[i]? = some wave → ∀ n ∈ wave, ∀ d ∈ n.2,
      d ∈ done ∨ ∃ j < i, InWave (waves.map namesOf) j d := by
  induction h with
  | stop => simp
  | @round done rest waves left hready hnext ih =>
    intro i wave hi n hn d hd
    cases i with
    | zero =>
      obtain rfl : rest.filter (ready done) = wave := by simpa using hi
      have hdeps := ready_iff.mp (List.of_mem_filter hn)
      exact .inl (hdeps d hd)
    | succ i =>
      rcases ih i wave hi n hn d hd with hdone | ⟨j, hj, hwave⟩
      · rcases List.mem_append.mp hdone with hdone | hfirst
        · exact .inl hdone
        · exact .inr ⟨0, by omega, inWave_zero hfirst _⟩
      · exact .inr ⟨j + 1, by omega, hwave.cons _⟩

/-- A node is taken off no later than that: something it depends on was done in the round before. -/
theorem soonest (h : Peeled done rest waves left) :
    ∀ k wave, waves[k + 1]? = some wave → ∀ n ∈ wave,
      ∃ d ∈ n.2, InWave (waves.map namesOf) k d := by
  induction h with
  | stop => simp
  | @round done rest waves left hready hnext ih =>
    intro k wave hk n hn
    have hk' : waves[k]? = some wave := hk
    cases k with
    | zero =>
      -- in the second round because something it depends on was not done before the first
      have hrest : n ∈ rest.filter fun n => !ready done n :=
        (hnext.sublist wave (List.mem_of_getElem? hk')).subset hn
      obtain ⟨d, hd, hlate⟩ := exists_waiting (by simpa using List.of_mem_filter hrest)
      refine ⟨d, hd, ?_⟩
      rcases hnext.after 0 wave hk' n hn d hd with hdone | ⟨j, hj, -⟩
      · rcases List.mem_append.mp hdone with hdone | hfirst
        · exact absurd hdone hlate
        · exact inWave_zero hfirst _
      · omega
    | succ k =>
      obtain ⟨d, hd, hwave⟩ := ih k wave hk' n hn
      exact ⟨d, hd, hwave.cons _⟩

end Peeled

end CapabilityGraph

end Switchboard
