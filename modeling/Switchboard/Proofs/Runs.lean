import Mathlib.Data.List.Induction

/-!
# Runs

A system is driven by events, one `step` after another. What is said of a run is said of the moments
at which its events meet the system.

* `Encounter` : an event and the state it meets; `encounters` : those of a run, in order;
* `encounters_append`, `mem_encounters_iff` : a run is cut at any of its moments.
-/

namespace Switchboard

/-- An event and the state it meets. -/
structure Encounter (σ ε : Type) where
  before : σ
  event : ε
  deriving DecidableEq

section Runs

variable {σ ε : Type} (step : σ → ε → σ)

def encounters : σ → List ε → List (Encounter σ ε)
  | _, [] => []
  | s, e :: events => ⟨s, e⟩ :: encounters (step s e) events

variable {step}

theorem encounters_append (s : σ) (earlier later : List ε) :
    encounters step s (earlier ++ later) =
      encounters step s earlier ++ encounters step (earlier.foldl step s) later := by
  induction earlier generalizing s with
  | nil => rfl
  | cons e earlier ih => simp [encounters, ih]

/-- Each moment of a run comes at the end of a shorter run. -/
theorem mem_encounters_iff {s : σ} {events : List ε} {m : Encounter σ ε} :
    m ∈ encounters step s events ↔
      ∃ earlier later, events = earlier ++ m.event :: later ∧ m.before = earlier.foldl step s := by
  constructor
  · intro hm
    induction events generalizing s with
    | nil => cases hm
    | cons e events ih =>
      rcases List.mem_cons.mp hm with rfl | hm
      · exact ⟨[], events, rfl, rfl⟩
      · obtain ⟨earlier, later, rfl, hbefore⟩ := ih hm
        exact ⟨e :: earlier, later, rfl, hbefore⟩
  · rintro ⟨earlier, later, rfl, hbefore⟩
    rw [encounters_append, ← hbefore]
    exact List.mem_append_right _ List.mem_cons_self

end Runs

end Switchboard
