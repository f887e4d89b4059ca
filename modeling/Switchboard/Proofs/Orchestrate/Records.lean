import Switchboard.Orchestrate.Progress
import Switchboard.Proofs.Keyed

/-!
# What the records of a request say

* `StepEnd` : the end of a step, with its place in the schedule; `StepEnd.entry` : its entry in the
  history;
* `Progress.Adds`, `Progress.AddsAll` : an end is written down, and several one after another;
* `Progress.addsAll_recordWave`, `Progress.addsAll_skipWave` : the ends of a wave are;
* `Progress.Records` : the records say how certain steps ended, and nothing else;
* `Progress.Records.add`, `Progress.Records.addAll` : one more end, and several.
-/

namespace Switchboard

/-- The end of the step at a position, in a wave. -/
structure StepEnd where
  wave : Nat
  position : Nat
  outcome : StepOutcome

namespace StepEnd

def key (s : Schedule) (e : StepEnd) : String := s.key e.position

def entry (s : Schedule) (e : StepEnd) : HistoryEntry :=
  ⟨e.key s, e.outcome.fromAgent, e.outcome.result, e.wave⟩

def place (e : StepEnd) : Nat × Nat := (e.wave, e.position)

/-- The ends of the steps of a wave. -/
def ofWave (wave : Nat) (positions : List Nat) (outcomes : List StepOutcome) : List StepEnd :=
  (positions.zip outcomes).map fun x => ⟨wave, x.1, x.2⟩

theorem places_ofWave {wave : Nat} {positions : List Nat} {outcomes : List StepOutcome}
    (h : outcomes.length = positions.length) :
    (ofWave wave positions outcomes).map place = positions.map fun i => (wave, i) := by
  have hfst : (positions.zip outcomes).map (·.1) = positions := List.map_fst_zip (Nat.le_of_eq h.symm)
  conv_rhs => rw [← hfst]
  simp [ofWave, place, Function.comp_def]

theorem map_key_eq (s : Schedule) (ends : List StepEnd) :
    ends.map (·.key s) = (ends.map place).map fun x => s.key x.2 := by
  simp [key, place, Function.comp_def]

end StepEnd

theorem Fields.perm_putSorted {fields : Fields} {key : String} (h : key ∉ fields.map (·.1))
    (value : Json) : (fields.putSorted key value).Perm ((key, value) :: fields) := by
  induction fields with
  | nil => exact .refl _
  | cons field rest ih =>
    obtain ⟨k, v⟩ := field
    obtain ⟨hne, hrest⟩ : key ≠ k ∧ key ∉ rest.map (·.1) := by simpa using h
    rw [putSorted]
    split
    · exact .refl _
    · rw [if_neg (by simpa using fun heq => hne heq.symm)]
      exact ((ih hrest).cons _).trans (.swap _ _ _)

namespace Progress

/-- The end of a step is written down. -/
structure Adds (s : Schedule) (e : StepEnd) (p p' : Progress) : Prop where
  jobs : p'.jobs = withResult p.jobs e.position e.outcome.result
  history : p'.history = p.history ++ [e.entry s]
  results : p'.results = p.results.putSorted (e.key s) e.outcome.result
  responders : p'.responders = p.responders ++ [(e.key s, e.outcome.fromAgent)] ∨
    p'.responders = p.responders ∧ e.outcome.fromAgent = none
  timedOut : p'.timedOut = if e.outcome.timedOut then p.timedOut ++ [e.key s] else p.timedOut

theorem adds_record (s : Schedule) (e : StepEnd) (p : Progress) :
    Adds s e p (p.record e.wave (e.key s) e.position e.outcome) :=
  ⟨rfl, rfl, rfl, .inl rfl, rfl⟩

/-- How a step ends that the deadline kept from starting. -/
def skipped : StepOutcome := ⟨tooLate, none, true⟩

theorem adds_skip (s : Schedule) (wave position : Nat) (p : Progress) :
    Adds s ⟨wave, position, skipped⟩ p (p.skip wave (s.key position) position) :=
  ⟨rfl, rfl, rfl, .inr ⟨rfl, rfl⟩, rfl⟩

theorem ofWave_skipped (wave : Nat) (positions : List Nat) :
    StepEnd.ofWave wave positions (positions.map fun _ => skipped) =
      positions.map fun i => ⟨wave, i, skipped⟩ := by
  induction positions with
  | nil => rfl
  | cons i rest ih => exact congrArg (_ :: ·) ih

/-- Ends of steps are written down one after another. -/
inductive AddsAll (s : Schedule) : List StepEnd → Progress → Progress → Prop
  | nil (p : Progress) : AddsAll s [] p p
  | cons {e : StepEnd} {ends : List StepEnd} {p p' p'' : Progress} (hadd : Adds s e p p')
    (hrest : AddsAll s ends p' p'') : AddsAll s (e :: ends) p p''

theorem addsAll_foldl {s : Schedule} {β : Type} {f : Progress → β → Progress}
    {stepEnd : β → StepEnd} (hf : ∀ p b, Adds s (stepEnd b) p (f p b)) (bs : List β)
    (p : Progress) : AddsAll s (bs.map stepEnd) p (bs.foldl f p) := by
  induction bs generalizing p with
  | nil => exact .nil p
  | cons b bs ih => exact .cons (hf p b) (ih _)

section Wave

variable (s : Schedule) (wave : Nat) (positions : List Nat) (p : Progress)

theorem addsAll_recordWave (outcomes : List StepOutcome) :
    AddsAll s (StepEnd.ofWave wave positions outcomes) p
      (p.recordWave s wave positions outcomes) :=
  addsAll_foldl (fun p (x : Nat × StepOutcome) => adds_record s ⟨wave, x.1, x.2⟩ p) _ p

theorem addsAll_skipWave :
    AddsAll s (StepEnd.ofWave wave positions (positions.map fun _ => skipped)) p
      (p.skipWave s wave positions) := by
  rw [ofWave_skipped]
  exact addsAll_foldl (fun p i => adds_skip s wave i p) _ p

end Wave

namespace AddsAll

variable {s : Schedule} {ends more : List StepEnd} {p p' p'' : Progress}

theorem append (h : AddsAll s ends p p') (hmore : AddsAll s more p' p'') :
    AddsAll s (ends ++ more) p p'' := by
  induction h with
  | nil => exact hmore
  | cons hadd _ ih => exact .cons hadd (ih hmore)

theorem history (h : AddsAll s ends p p') : p'.history = p.history ++ ends.map (·.entry s) := by
  induction h with
  | nil => exact (List.append_nil _).symm
  | cons hadd _ ih => rw [ih, hadd.history, List.append_assoc, List.map_cons, List.singleton_append]

theorem timedOut (h : AddsAll s ends p p') :
    p'.timedOut = p.timedOut ++ (ends.filter (·.outcome.timedOut)).map (·.key s) := by
  induction h with
  | nil => exact (List.append_nil _).symm
  | cons hadd _ ih =>
    rw [ih, hadd.timedOut, List.filter_cons]
    split
    · rw [List.append_assoc, List.map_cons, List.singleton_append]
    · rfl

end AddsAll

/-- The records say how certain steps of a schedule ended, and nothing else. -/
structure Records (s : Schedule) (ends : List StepEnd) (p : Progress) : Prop where
  length : p.jobs.length = s.steps.length
  jobs : ∀ i x, s.steps[i]? = some x → ∃ result, p.jobs[i]? = some { x.2 with result } ∧
    ∀ e ∈ ends, e.position = i → result = some e.outcome.result
  history : p.history = ends.map (·.entry s)
  results : p.results.Perm (ends.map fun e => (e.key s, e.outcome.result))
  repliers : ∀ x ∈ p.responders, x.1 ∈ ends.map (·.key s)
  replier : ∀ e ∈ ends, p.responder (e.key s) = e.outcome.fromAgent
  timedOut : p.timedOut = (ends.filter (·.outcome.timedOut)).map (·.key s)

theorem records_start (s : Schedule) : Records s [] (.start s) where
  length := by simp [start]
  jobs := fun i x hx => ⟨x.2.result, by simp [start, hx], by simp⟩
  history := rfl
  results := .refl _
  repliers := by simp [start]
  replier := by simp
  timedOut := rfl

theorem responder_eq_none {p : Progress} {key : String} (h : ∀ x ∈ p.responders, x.1 ≠ key) :
    p.responder key = none := by
  have hfind : p.responders.reverse.find? (·.1 == key) = none := by
    simpa [List.find?_eq_none] using h
  rw [responder, hfind]
  rfl

namespace Records

variable {s : Schedule} {ends : List StepEnd} {p p' : Progress} {e : StepEnd}

/-- Who replied to a step is asked for by its key, of which the last entry counts. -/
theorem replier_add (h : Records s ends p) (hadd : Adds s e p p')
    (hnew : e.key s ∉ ends.map (·.key s)) :
    ∀ f ∈ ends ++ [e], p'.responder (f.key s) = f.outcome.fromAgent := by
  have hfresh : p.responder (e.key s) = none :=
    responder_eq_none fun x hx heq => hnew (heq ▸ h.repliers x hx)
  intro f hf
  rcases hadd.responders with hmore | ⟨hsame, hnobody⟩
  · rcases List.mem_append.mp hf with hf | hf
    · have hne : e.key s ≠ f.key s := fun heq => hnew (heq ▸ List.mem_map_of_mem hf)
      rw [← h.replier f hf, responder, responder, hmore]
      simp [hne]
    · obtain rfl := List.mem_singleton.mp hf
      rw [responder, hmore]
      simp
  · have heq : p'.responder = p.responder := by
      funext key
      rw [responder, responder, hsame]
    rw [heq]
    rcases List.mem_append.mp hf with hf | hf
    · exact h.replier f hf
    · obtain rfl := List.mem_singleton.mp hf
      rw [hfresh, hnobody]

theorem jobs_add (h : Records s ends p) (hadd : Adds s e p p')
    (hnew : e.key s ∉ ends.map (·.key s)) {i : Nat} {x : String × Job}
    (hx : s.steps[i]? = some x) :
    ∃ result, p'.jobs[i]? = some { x.2 with result } ∧
      ∀ f ∈ ends ++ [e], f.position = i → result = some f.outcome.result := by
  obtain ⟨result, hjob, hends⟩ := h.jobs i x hx
  rw [hadd.jobs, withResult, List.getElem?_modify]
  by_cases hi : e.position = i
  · subst hi
    refine ⟨some e.outcome.result, by simp [hjob], fun f hf hpos => ?_⟩
    rcases List.mem_append.mp hf with hf | hf
    · refine absurd (List.mem_map.mpr ⟨f, hf, ?_⟩) hnew
      rw [StepEnd.key, StepEnd.key, hpos]
    · rw [List.mem_singleton.mp hf]
  · refine ⟨result, by simp [hi, hjob], fun f hf hpos => ?_⟩
    rcases List.mem_append.mp hf with hf | hf
    · exact hends f hf hpos
    · exact absurd (List.mem_singleton.mp hf ▸ hpos) hi

/-- One more end. -/
theorem add (h : Records s ends p) (hadd : Adds s e p p') (hnew : e.key s ∉ ends.map (·.key s)) :
    Records s (ends ++ [e]) p' where
  length := by rw [hadd.jobs, withResult, List.length_modify, h.length]
  jobs := fun _ _ hx => h.jobs_add hadd hnew hx
  history := by rw [hadd.history, h.history, List.map_append, List.map_singleton]
  results := by
    have hkeys : e.key s ∉ p.results.map (·.1) := by
      rwa [(h.results.map (·.1)).mem_iff, List.map_map]
    rw [hadd.results, List.map_append]
    refine (Fields.perm_putSorted hkeys _).trans ((h.results.cons _).trans ?_)
    exact (List.perm_append_singleton _ _).symm
  repliers := by
    intro x hx
    rw [List.map_append]
    rcases hadd.responders with hmore | ⟨hsame, -⟩
    · rw [hmore] at hx
      rcases List.mem_append.mp hx with hx | hx
      · exact List.mem_append_left _ (h.repliers x hx)
      · rw [List.mem_singleton.mp hx]
        exact List.mem_append_right _ (List.mem_singleton.mpr rfl)
    · exact List.mem_append_left _ (h.repliers x (hsame ▸ hx))
  replier := h.replier_add hadd hnew
  timedOut := by
    rw [hadd.timedOut, h.timedOut, List.filter_append, List.map_append]
    cases hlate : e.outcome.timedOut <;> simp [hlate]

/-- Several more ends, of steps with keys of their own. -/
theorem addAll (h : Records s ends p) {more : List StepEnd} (hall : AddsAll s more p p')
    (hnew : ((ends ++ more).map (·.key s)).Nodup) : Records s (ends ++ more) p' := by
  induction hall generalizing ends with
  | nil => rwa [List.append_nil]
  | @cons e more _ _ _ hadd _ ih =>
    have hcons : ends ++ e :: more = ends ++ [e] ++ more := by simp
    rw [hcons] at hnew ⊢
    refine ih (h.add hadd fun hmem => ?_) hnew
    have hfirst : ((ends ++ [e]).map (·.key s)).Nodup :=
      hnew.sublist ((List.sublist_append_left _ _).map _)
    rw [List.map_append] at hfirst
    exact (List.nodup_append.mp hfirst).2.2 _ hmem _ (List.mem_singleton.mpr rfl) rfl

/-- The jobs stay those of the steps. -/
theorem capabilities (h : Records s ends p) :
    p.jobs.map (·.capability) = s.steps.map (·.2.capability) := by
  refine List.ext_getElem (by simp [h.length]) fun i hi _ => ?_
  have hi : i < s.steps.length := by simpa [h.length] using hi
  obtain ⟨result, hjob, -⟩ := h.jobs i _ (List.getElem?_eq_getElem hi)
  obtain ⟨hlt, hjob⟩ := List.getElem?_eq_some_iff.mp hjob
  rw [List.getElem_map, List.getElem_map, hjob]

/-- The result of a step is the one it ended with. -/
theorem get?_results (h : Records s ends p) (hd : (ends.map (·.key s)).Nodup) (he : e ∈ ends) :
    Fields.get? p.results (e.key s) = some e.outcome.result := by
  have hkeys : (p.results.map (·.1)).Nodup := by
    rw [(h.results.map (·.1)).nodup_iff, List.map_map]
    exact hd
  have hmem : (e.key s, e.outcome.result) ∈ p.results :=
    h.results.mem_iff.mpr (List.mem_map.mpr ⟨e, he, rfl⟩)
  rw [Fields.get?, (find?_key_eq_some_iff hkeys).mpr ⟨hmem, rfl⟩]
  rfl

theorem get?_results_eq_none (h : Records s ends p) {key : String}
    (hnone : key ∉ ends.map (·.key s)) : Fields.get? p.results key = none := by
  have hkeys : key ∉ p.results.map (·.1) := by
    rwa [(h.results.map (·.1)).mem_iff, List.map_map]
  rw [Fields.get?, find?_key_eq_none_iff.mpr hkeys]
  rfl

end Records

end Progress

end Switchboard
