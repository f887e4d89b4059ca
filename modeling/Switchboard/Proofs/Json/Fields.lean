import Switchboard.Json.Written
import Switchboard.Proofs.Keyed

/-!
# Looking up fields

* `Fields.get?_eq_none_iff`, `Fields.get?_eq_some_iff`, `Fields.has_iff` : a key is there or not;
* `Fields.get?_insert`, `Fields.keys_insert` : the values and the order of the keys after a write;
* `Fields.nodup_keys_insert`, `Fields.nodup_keys_ofEntries` : no key is repeated;
* `Fields.values_eq_get?` : an object without repeated keys has at most one value under a key;
* `Json.keys` : the keys of a value, none unless it is an object;
* `Written.nodup_keys_of_toJson?` : a value that is read has no repeated keys.
-/

namespace Switchboard

namespace Fields

variable (fields : Fields) (key : String)

theorem get?_eq_none_iff : fields.get? key = none ↔ key ∉ fields.map (·.1) := by
  rw [get?, Option.map_eq_none_iff, find?_key_eq_none_iff]

theorem isSome_get?_iff : (fields.get? key).isSome = true ↔ key ∈ fields.map (·.1) := by
  rw [← not_iff_not, ← get?_eq_none_iff]
  simp

theorem mem_of_get? {fields : Fields} {key : String} {v : Json} (h : fields.get? key = some v) :
    (key, v) ∈ fields := by
  obtain ⟨entry, hfind, rfl⟩ := Option.map_eq_some_iff.mp h
  obtain rfl : entry.1 = key := by simpa using List.find?_some hfind
  exact List.mem_of_find?_eq_some hfind

/-- Where no key is repeated, every entry is found. -/
theorem get?_eq_some_iff (hd : (fields.map (·.1)).Nodup) (v : Json) :
    fields.get? key = some v ↔ (key, v) ∈ fields := by
  refine ⟨mem_of_get?, fun hmem => ?_⟩
  rw [get?, (find?_key_eq_some_iff hd).mpr ⟨hmem, rfl⟩, Option.map_some]

theorem has_iff : fields.has key = true ↔ key ∈ fields.map (·.1) := by
  simp [has]

theorem get?_insert (k : String) (value : Json) :
    (fields.insert k value).get? key = if key = k then some value else fields.get? key := by
  induction fields with
  | nil => by_cases h : key = k <;> simp [insert, get?, h, Ne.symm]
  | cons entry rest ih =>
    obtain ⟨name, old⟩ := entry
    simp only [insert, get?] at ih ⊢
    grind

/-- A key that is there keeps its place, a new one comes last. -/
theorem keys_insert (value : Json) :
    (fields.insert key value).map (·.1) =
      if key ∈ fields.map (·.1) then fields.map (·.1) else fields.map (·.1) ++ [key] := by
  induction fields with
  | nil => rfl
  | cons entry rest ih =>
    obtain ⟨name, old⟩ := entry
    by_cases h : name = key
    · simp [insert, h]
    · have hne : key ≠ name := Ne.symm h
      simp only [insert, beq_iff_eq, h, if_false, List.map_cons, ih, List.mem_cons, hne, false_or]
      split <;> rfl

/-- No key is repeated by a write. -/
theorem nodup_keys_insert (hd : (fields.map (·.1)).Nodup) (value : Json) :
    ((fields.insert key value).map (·.1)).Nodup := by
  rw [keys_insert]
  split
  · exact hd
  · next hnew =>
    rw [← List.concat_eq_append, List.nodup_concat]
    exact ⟨hnew, hd⟩

/-- What is read as an object repeats no key. -/
theorem nodup_keys_ofEntries (entries : List (String × Json)) :
    ((ofEntries entries).map (·.1)).Nodup := by
  unfold ofEntries
  induction entries using List.reverseRecOn with
  | nil => exact List.nodup_nil
  | append_singleton entries entry ih =>
    rw [List.foldl_concat]
    exact nodup_keys_insert _ entry.1 ih entry.2

/-- An object without repeated keys has at most one value under a key. -/
theorem values_eq_get? (hd : (fields.map (·.1)).Nodup) :
    (fields.filter (·.1 == key)).map (·.2) = (fields.get? key).toList := by
  cases hfind : fields.find? (·.1 == key) with
  | none =>
    have hnone : fields.filter (·.1 == key) = [] := by
      rw [List.filter_eq_nil_iff]
      exact List.find?_eq_none.mp hfind
    simp [get?, hfind, hnone]
  | some entry =>
    obtain ⟨hmem, rfl⟩ := (find?_key_eq_some_iff hd).mp hfind
    rw [filter_key_eq_singleton hd hmem]
    simp [get?, hfind]

end Fields

/-- The keys of an object in their order; none for any other value. -/
def Json.keys : Json → List String
  | .obj fields => fields.map (·.1)
  | _ => []

theorem Json.isSome_get?_iff (v : Json) (key : String) :
    (v.get? key).isSome = true ↔ key ∈ v.keys := by
  cases v with
  | obj fields => exact Fields.isSome_get?_iff fields key
  | _ => simp [get?, keys]

/-- A value that is read repeats no key. -/
theorem Written.nodup_keys_of_toJson? {room : Nat} {w : Written} {v : Json}
    (h : w.toJson? room = some v) : v.keys.Nodup := by
  cases v with
  | obj fields =>
    cases w with
    | obj members =>
      cases room with
      | zero => cases h
      | succ room =>
        obtain ⟨entries, -, hfields⟩ := Option.map_eq_some_iff.mp h
        obtain rfl := Json.obj.inj hfields
        exact Fields.nodup_keys_ofEntries entries
    | _ => cases room <;> simp [Written.toJson?] at h
  | _ => exact List.nodup_nil

end Switchboard
