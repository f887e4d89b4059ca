import Mathlib.Data.List.Induction
import Mathlib.Data.List.Nodup

/-!
# Lists without repeated keys

* `find?_key_eq_some_iff`, `find?_key_eq_none_iff`, `filter_key_eq_singleton` : looking a key up;
* `eraseDups_concat`, `nodup_eraseDups`, `eraseDups_of_nodup`, `filter_eraseDups` : first
  occurrences.
-/

namespace Switchboard

section Keys

variable {α β : Type} [DecidableEq β] {f : α → β} {items : List α} {key : β}

theorem find?_key_eq_none_iff :
    items.find? (fun y => f y == key) = none ↔ key ∉ items.map f := by
  simp [List.find?_eq_none]

theorem find?_key_eq_some_iff (hd : (items.map f).Nodup) {x : α} :
    items.find? (fun y => f y == key) = some x ↔ x ∈ items ∧ f x = key := by
  constructor
  · intro h
    exact ⟨List.mem_of_find?_eq_some h, by simpa using List.find?_some h⟩
  · rintro ⟨hx, hkey⟩
    cases hfind : items.find? fun y => f y == key with
    | none => exact absurd (List.mem_map.mpr ⟨x, hx, hkey⟩) (find?_key_eq_none_iff.mp hfind)
    | some y =>
      have hy : f y = key := by simpa using List.find?_some hfind
      rw [List.inj_on_of_nodup_map hd hx (List.mem_of_find?_eq_some hfind) (hkey.trans hy.symm)]

theorem filter_key_eq_singleton (hd : (items.map f).Nodup) {x : α} (hx : x ∈ items) :
    items.filter (fun y => f y == f x) = [x] := by
  induction items with
  | nil => cases hx
  | cons y items ih =>
    obtain ⟨hy, hd⟩ := List.nodup_cons.mp hd
    rcases List.mem_cons.mp hx with rfl | hx
    · have hnone : items.filter (fun y => f y == f x) = [] := by
        refine List.filter_eq_nil_iff.mpr fun z hz hkey => hy ?_
        exact List.mem_map.mpr ⟨z, hz, by simpa using hkey⟩
      simp [hnone]
    · have hne : f y ≠ f x := fun heq => hy (List.mem_map.mpr ⟨x, hx, heq.symm⟩)
      simpa [hne] using ih hd hx

end Keys

/-- One more item at the end counts unless it occurred before. -/
theorem eraseDups_concat {α : Type} [BEq α] [LawfulBEq α] (items : List α) (x : α) :
    (items ++ [x]).eraseDups =
      if items.contains x then items.eraseDups else items.eraseDups ++ [x] := by
  rw [List.eraseDups_append]
  cases hx : items.contains x <;> simp_all [List.removeAll, List.eraseDups_cons]

theorem nodup_eraseDups {α : Type} [BEq α] [LawfulBEq α] (items : List α) :
    items.eraseDups.Nodup := by
  induction items using List.reverseRecOn with
  | nil => simp
  | append_singleton items x ih =>
    rw [eraseDups_concat]
    split
    · exact ih
    · rename_i hx
      have hnew : x ∉ items.eraseDups := by simpa [List.mem_eraseDups] using hx
      simpa using ih.concat hnew

theorem eraseDups_of_nodup {α : Type} [BEq α] [LawfulBEq α] {items : List α}
    (hd : items.Nodup) : items.eraseDups = items := by
  induction items using List.reverseRecOn with
  | nil => rfl
  | append_singleton items item ih =>
    obtain ⟨hitems, -, hnew⟩ := List.nodup_append.mp hd
    have hfresh : item ∉ items := fun hmem => hnew item hmem item (List.mem_singleton.mpr rfl) rfl
    rw [eraseDups_concat, if_neg (by simpa using hfresh), ih hitems]

theorem filter_eraseDups {α : Type} [BEq α] [LawfulBEq α] (p : α → Bool) (items : List α) :
    items.eraseDups.filter p = (items.filter p).eraseDups := by
  induction items using List.reverseRecOn with
  | nil => rfl
  | append_singleton items x ih =>
    rw [eraseDups_concat, List.filter_append]
    cases hp : p x with
    | false =>
      rw [List.filter_singleton, hp, cond_false, List.append_nil, ← ih]
      split <;> simp [hp]
    | true =>
      have hmem : (items.filter p).contains x = items.contains x := by simp [hp]
      rw [List.filter_singleton, hp, cond_true, eraseDups_concat, hmem, ← ih]
      split <;> simp [hp]

end Switchboard
