import Switchboard.Orchestrate.Run
import Switchboard.Proofs.Graph.Dependencies

/-!
# Schedules

* `inWaves` : items with the numbers of their waves, in the order in which they come;
* `Schedule.Sound` : steps with keys of their own, each of which has its place in one wave;
* `Schedule.sound_ofGraph` : the schedule of a graph is such a one;
* `Schedule.map_keys_waves` : the steps of a graph are done in the waves of its plan.
-/

namespace Switchboard

/-- Items with the numbers of their waves, the first wave having the given number. -/
def inWaves {α : Type} : Nat → List (List α) → List (Nat × α)
  | _, [] => []
  | n, wave :: rest => wave.map (fun x => (n, x)) ++ inWaves (n + 1) rest

section InWaves

variable {α β : Type}

theorem map_snd_inWaves (n : Nat) (waves : List (List α)) :
    (inWaves n waves).map (·.2) = waves.flatten := by
  induction waves generalizing n with
  | nil => rfl
  | cons wave rest ih =>
    rw [inWaves, List.map_append, ih, List.map_map, List.flatten_cons]
    simp [Function.comp_def]

theorem inWaves_append (n : Nat) (waves waves' : List (List α)) :
    inWaves n (waves ++ waves') = inWaves n waves ++ inWaves (n + waves.length) waves' := by
  induction waves generalizing n with
  | nil => rfl
  | cons wave rest ih =>
    rw [List.cons_append, inWaves, ih, inWaves, List.append_assoc, List.length_cons,
      show n + 1 + rest.length = n + (rest.length + 1) by omega]

theorem inWaves_map (f : α → β) (n : Nat) (waves : List (List α)) :
    inWaves n (waves.map (·.map f)) = (inWaves n waves).map fun x => (x.1, f x.2) := by
  induction waves generalizing n with
  | nil => rfl
  | cons wave rest ih => simp [inWaves, ih, Function.comp_def]

theorem mem_inWaves {n : Nat} {waves : List (List α)} {x : Nat × α} :
    x ∈ inWaves n waves ↔ ∃ i wave, waves[i]? = some wave ∧ x.2 ∈ wave ∧ x.1 = n + i := by
  induction waves generalizing n with
  | nil => simp [inWaves]
  | cons wave rest ih =>
    rw [inWaves, List.mem_append, ih]
    constructor
    · rintro (hx | ⟨i, wave', hi, hx, hn⟩)
      · obtain ⟨a, ha, rfl⟩ := List.mem_map.mp hx
        exact ⟨0, wave, rfl, ha, rfl⟩
      · exact ⟨i + 1, wave', hi, hx, by omega⟩
    · rintro ⟨_ | i, wave', hi, hx, hn⟩
      · cases hi
        exact .inl (List.mem_map.mpr ⟨x.2, hx, by rw [← Nat.add_zero n, ← hn]⟩)
      · exact .inr ⟨i, wave', hi, hx, by omega⟩

end InWaves

/-! ## Schedules -/

section Positions

variable {names : List String} {name : String}

theorem idxOf?_of_mem (h : name ∈ names) : names.idxOf? name = some (names.idxOf name) := by
  obtain ⟨i, hi⟩ : ∃ i, names.idxOf? name = some i := by
    rw [← Option.isSome_iff_exists]
    simpa using h
  rw [hi, List.idxOf_eq_getD_idxOf?, hi, Option.getD_some]

theorem filterMap_idxOf? {names' : List String} (h : ∀ name ∈ names', name ∈ names) :
    names'.filterMap (fun name => names.idxOf? name) = names'.map fun name => names.idxOf name := by
  rw [← List.filterMap_eq_map]
  exact List.filterMap_congr fun name hname => idxOf?_of_mem (h name hname)

theorem map_idxOf (hd : names.Nodup) :
    names.map (fun name => names.idxOf name) = List.range names.length := by
  refine List.ext_getElem (by simp) fun i hi _ => ?_
  rw [List.getElem_map, List.getElem_range]
  exact hd.idxOf_getElem i _

end Positions

namespace Schedule

/-- The steps with the numbers of their waves, in the order in which they are done. -/
def places (s : Schedule) : List (Nat × Nat) := inWaves 0 s.waves

/-- Steps have keys of their own, and each has its place in one wave. -/
structure Sound (s : Schedule) : Prop where
  nodup_keys : (s.steps.map (·.1)).Nodup
  perm : s.waves.flatten.Perm (List.range s.steps.length)

theorem key_eq {s : Schedule} {i : Nat} {x : String × Job} (h : s.steps[i]? = some x) :
    s.key i = x.1 := by
  simp [key, h]

theorem map_key_range (s : Schedule) :
    (List.range s.steps.length).map s.key = s.steps.map (·.1) := by
  refine List.ext_getElem (by simp) fun i hi _ => ?_
  have hi : i < s.steps.length := by simpa using hi
  simp [key_eq (List.getElem?_eq_getElem hi)]

/-- Each key has its place. -/
theorem Sound.perm_keys {s : Schedule} (h : s.Sound) :
    (s.places.map fun x => s.key x.2).Perm (s.steps.map (·.1)) := by
  have hplaces : (s.places.map fun x => s.key x.2) = s.waves.flatten.map s.key := by
    rw [← map_snd_inWaves 0, List.map_map]
    rfl
  rw [hplaces, ← map_key_range]
  exact h.perm.map _

theorem Sound.lt_of_mem_places {s : Schedule} (h : s.Sound) {x : Nat × Nat} (hx : x ∈ s.places) :
    x.2 < s.steps.length := by
  have hmem : x.2 ∈ s.waves.flatten := by
    rw [← map_snd_inWaves 0]
    exact List.mem_map_of_mem hx
  exact List.mem_range.mp (h.perm.mem_iff.mp hmem)

/-- Steps with the same key are the same. -/
theorem Sound.eq_of_key_eq {s : Schedule} (h : s.Sound) {i j : Nat} (hi : i < s.steps.length)
    (hj : j < s.steps.length) (hkey : s.key i = s.key j) : i = j := by
  rw [key_eq (List.getElem?_eq_getElem hi), key_eq (List.getElem?_eq_getElem hj)] at hkey
  have hi' : i < (s.steps.map (·.1)).length := by simpa using hi
  have hj' : j < (s.steps.map (·.1)).length := by simpa using hj
  exact (@List.Nodup.getElem_inj_iff _ _ h.nodup_keys i hi' j hj').mp (by simpa using hkey)

section OfGraph

variable {r : GraphRequest} {g : CapabilityGraph}

theorem keys_ofGraph (r : GraphRequest) (g : CapabilityGraph) :
    (ofGraph r g).steps.map (·.1) = g.names := by
  simp [ofGraph, GraphRequest.jobs, GraphRequest.job, CapabilityGraph.names, Function.comp_def]

theorem capability_ofGraph {i : Nat} {x : String × Job}
    (h : (ofGraph r g).steps[i]? = some x) : x.2.capability = x.1 := by
  obtain ⟨j, -, rfl⟩ := List.mem_map.mp (List.mem_of_getElem? h)
  rfl

theorem mem_names_of_mem_wave {wave : List String} (hw : wave ∈ g.plan.waves) {name : String}
    (hname : name ∈ wave) : name ∈ g.names :=
  g.perm_plan.mem_iff.mp (List.mem_flatten.mpr ⟨wave, hw, hname⟩)

theorem waves_ofGraph (r : GraphRequest) (g : CapabilityGraph) :
    (ofGraph r g).waves = g.plan.waves.map (·.map fun name => g.names.idxOf name) :=
  List.map_congr_left fun _ hw => filterMap_idxOf? fun _ hname => mem_names_of_mem_wave hw hname

theorem key_ofGraph (r : GraphRequest) {name : String} (h : name ∈ g.names) :
    (ofGraph r g).key (g.names.idxOf name) = name := by
  rw [key, keys_ofGraph, List.getElem?_eq_getElem (List.idxOf_lt_length_of_mem h),
    List.getElem_idxOf, Option.getD_some]

/-- The steps of a graph are done in the waves of its plan. -/
theorem keys_wave_ofGraph (r : GraphRequest) {k : Nat} {wave : List Nat}
    (h : (ofGraph r g).waves[k]? = some wave) :
    g.plan.waves[k]? = some (wave.map (ofGraph r g).key) := by
  rw [waves_ofGraph, List.getElem?_map] at h
  obtain ⟨names, hk, rfl⟩ := Option.map_eq_some_iff.mp h
  have hsame : names.map ((ofGraph r g).key ∘ fun name => g.names.idxOf name) = names := by
    conv_rhs => rw [← List.map_id names]
    exact List.map_congr_left fun name hname =>
      key_ofGraph r (mem_names_of_mem_wave (List.mem_of_getElem? hk) hname)
  rw [hk, List.map_map, hsame]

theorem map_keys_waves (r : GraphRequest) (g : CapabilityGraph) :
    (ofGraph r g).waves.map (·.map (ofGraph r g).key) = g.plan.waves := by
  refine List.ext_getElem? fun k => ?_
  rw [List.getElem?_map]
  cases hk : (ofGraph r g).waves[k]? with
  | none =>
    rw [waves_ofGraph, List.getElem?_map, Option.map_eq_none_iff] at hk
    exact hk.symm
  | some wave => exact (keys_wave_ofGraph r hk).symm

theorem inWaves_keys (r : GraphRequest) (g : CapabilityGraph) (k : Nat) :
    (inWaves 0 ((ofGraph r g).waves.take k)).map (fun x => (x.1, (ofGraph r g).key x.2)) =
      inWaves 0 (g.plan.waves.take k) := by
  rw [← inWaves_map, List.map_take, map_keys_waves]

/-- Each capability of a graph is a step of its own and has its place in one wave. -/
theorem sound_ofGraph (r : GraphRequest) (hd : g.names.Nodup) : (ofGraph r g).Sound where
  nodup_keys := keys_ofGraph r g ▸ hd
  perm := by
    have hlength : (ofGraph r g).steps.length = g.names.length := by
      rw [← keys_ofGraph r g, List.length_map]
    rw [waves_ofGraph, ← List.map_flatten, hlength, ← map_idxOf hd]
    exact g.perm_plan.map _

end OfGraph

end Schedule

end Switchboard
