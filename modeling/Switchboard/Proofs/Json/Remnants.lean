import Mathlib.Data.List.Perm.Basic
import Switchboard.Proofs.Json.Readers

/-!
# What is left of a value

* `Places` : a set of places in a value; `Places.covers` : the places of a set and all below them;
* `Remnant` : entries are struck out, those that stay are written in any order among new ones;
* `Record.Holds`, `Remnant.exists_record` : the record that is read off what is left of an object;
* `Reading.Restores` : what all that may be left of a value is read as; `Restores.leaf` : values
  without entries; `Restores.record` : objects;
* `Record.Holds.orElse?_eq`, `Record.Holds.orElse?_plain` : fields that may be missing.
-/

namespace Switchboard

/-! ## Striking out -/

/-- A set of places in a value, each of them the keys that lead there. -/
abbrev Places := List String → Bool

namespace Places

/-- No place at all. -/
def none : Places := fun _ => false

/-- Every place. -/
def all : Places := fun _ => true

/-- The places under a key, as they are seen from there. -/
def under (places : Places) (key : String) : Places := fun place => places (key :: place)

/-- The places of a set and all that is below them. -/
def covers : Places → Places
  | _, [] => false
  | places, key :: place => places [key] || covers (places.under key) place

/-- What is at a place, `default` if it is missing. -/
def pick {α : Type} (missing : Places) (place : List String) (default a : α) : α :=
  if missing place then default else a

theorem covers_under_of_mem {places : Places} {key : String} (h : places [key] = true) :
    places.covers.under key = all := by
  funext place
  rw [under, covers, h, Bool.true_or, all]

theorem covers_under_of_notMem {places : Places} {key : String} (h : places [key] = false) :
    places.covers.under key = (places.under key).covers := by
  funext place
  rw [under, covers, h, Bool.false_or]

theorem covers_none : none.covers = none := by
  funext place
  induction place with
  | nil => rfl
  | cons key place ih => exact ih

end Places

/-- The second value is what is left of the first when the entries at some places are struck out:
those that stay are written in any order among others that have keys of their own. -/
inductive Remnant : Places → Json → Json → Prop
  | plain {gone : Places} {v : Json} (h : v.fields? = none) : Remnant gone v v
  | object {gone : Places} {fields left : Fields} (kept more : Fields)
      (hkeys : kept.map (·.1) = (fields.map (·.1)).filter fun key => !gone [key])
      (hkept : ∀ key v w, fields.get? key = some v → kept.get? key = some w →
        Remnant (gone.under key) v w)
      (hmore : ∀ entry ∈ more, entry.1 ∉ fields.map (·.1)) (hperm : left.Perm (kept ++ more)) :
      Remnant gone (.obj fields) (.obj left)

section Keep

variable {gone : Places} {fields kept : Fields} {key : String} {v w : Json}

/-- No entry stays. -/
theorem Remnant.keep_nil :
    ∀ key v w, fields.get? key = some v → Fields.get? [] key = some w →
      Remnant (gone.under key) v w := by
  intro key v w _ hw
  cases hw

/-- One more entry stays. -/
theorem Remnant.keep_cons (hget : fields.get? key = some v)
    (hleft : Remnant (gone.under key) v w)
    (hkept : ∀ key v w, fields.get? key = some v → kept.get? key = some w →
      Remnant (gone.under key) v w) :
    ∀ name u x, fields.get? name = some u → Fields.get? ((key, w) :: kept) name = some x →
      Remnant (gone.under name) u x := by
  intro name u x hu hx
  rw [Fields.get?, List.find?_cons] at hx
  split at hx
  · next hname =>
    obtain rfl := eq_of_beq hname
    obtain rfl := Option.some.inj (hget.symm.trans hu)
    obtain rfl := Option.some.inj hx
    exact hleft
  · exact hkept name u x hu hx

end Keep

mutual

/-- All is left where nothing is struck out. -/
theorem Remnant.refl : ∀ v : Json, Remnant .none v v
  | .null | .bool _ | .num _ | .str _ | .arr _ => .plain rfl
  | .obj fields =>
    have hkept : ∀ key v w, Fields.get? fields key = some v → Fields.get? fields key = some w →
        Remnant .none v w := by
      intro key v w hv hw
      obtain rfl := Option.some.inj (hv.symm.trans hw)
      exact Remnant.refl_get? fields hv
    .object fields [] (by simp [Places.none]) hkept (by simp) (by simp)

theorem Remnant.refl_get? : ∀ (fields : Fields) {key : String} {v : Json},
    fields.get? key = some v → Remnant .none v v
  | (name, u) :: rest, key, v, h => by
    rw [Fields.get?, List.find?_cons] at h
    split at h
    · obtain rfl := Option.some.inj h
      exact Remnant.refl u
    · exact Remnant.refl_get? rest h

end

/-! ## Records -/

/-- A record holds what is left of an object. -/
structure Record.Holds (r : Record) (gone : Places) (fields : Fields) : Prop where
  struck {key : String} (h : gone [key] = true) : r.find? key = none
  kept {key : String} {v : Json} (hmem : (key, v) ∈ fields) (h : gone [key] = false) :
    ∃ w, Remnant (gone.under key) v w ∧ w.depth ≤ r.room ∧ r.find? key = some w.written

/-- Among the entries that are left, those under known keys are the ones that stayed. -/
theorem perm_filter_known {names : List String} {kept more left : Fields}
    (hkept : ∀ entry ∈ kept, entry.1 ∈ names) (hmore : ∀ entry ∈ more, entry.1 ∉ names)
    (hperm : left.Perm (kept ++ more)) : (left.filter (·.1 ∈ names)).Perm kept := by
  have hall : kept.filter (·.1 ∈ names) = kept := by simpa [List.filter_eq_self] using hkept
  have hnone : more.filter (·.1 ∈ names) = [] := by simpa [List.filter_eq_nil_iff] using hmore
  have hfilter := hperm.filter (·.1 ∈ names)
  rwa [List.filter_append, hall, hnone, List.append_nil] at hfilter

/-- What is left of an object is read as a record that holds it. -/
theorem Remnant.exists_record {gone : Places} {fields : Fields} {w : Json}
    (h : Remnant gone (.obj fields) w) (hd : (fields.map (·.1)).Nodup) {room : Nat}
    (hroom : w.depth ≤ room) :
    ∃ r, Record.of? (fields.map (·.1)) room w.written = some r ∧ r.Holds gone fields := by
  cases h with
  | plain hplain => cases hplain
  | object kept more hkeys hkept hmore hperm =>
    have hmem (key : String) :
        key ∈ kept.map (·.1) ↔ key ∈ fields.map (·.1) ∧ gone [key] = false := by
      rw [hkeys, List.mem_filter, Bool.not_eq_true']
    have hkeptNodup : (kept.map (·.1)).Nodup := by
      rw [hkeys]
      exact hd.filter _
    -- the members that are known are those that stayed, so none of them is repeated
    have hknown := perm_filter_known
      (fun entry hentry => ((hmem _).mp (List.mem_map_of_mem hentry)).1) hmore hperm
    have hknownNodup := ((hknown.map (·.1)).nodup_iff).mpr hkeptNodup
    refine ⟨_, Record.of?_written hknownNodup hroom, ⟨fun hgone => ?_, fun hfield hgone => ?_⟩⟩
    · rw [Record.find?_ofFields, Option.map_eq_none_iff, Fields.get?_eq_none_iff,
        (hknown.map (·.1)).mem_iff, hmem]
      simp [hgone]
    · obtain ⟨⟨key, w⟩, hentry, rfl⟩ :=
        List.mem_map.mp ((hmem _).mpr ⟨List.mem_map_of_mem hfield, hgone⟩)
      have hleft := hknown.mem_iff.mpr hentry
      have hdepth := Json.depth_le_depthFields (List.mem_of_mem_filter hleft)
      refine ⟨w, hkept _ _ w ((Fields.get?_eq_some_iff _ _ hd _).mpr hfield)
        ((Fields.get?_eq_some_iff _ _ hkeptNodup w).mpr hentry),
        Nat.le_trans hdepth (Nat.le_sub_one_of_lt hroom), ?_⟩
      rw [Record.find?_ofFields, (Fields.get?_eq_some_iff _ _ hknownNodup w).mpr hleft,
        Option.map_some]

/-! ## What is read -/

namespace Reading

variable {α : Type} {read : Reading α} {v : Json} {result : Places → Option α}

/-- All that may be left of a value is read as `result` tells of the places that are missing. -/
def Restores (read : Reading α) (v : Json) (result : Places → Option α) : Prop :=
  ∀ gone w, Remnant gone v w → read.Takes w (result gone.covers)

/-- A value without entries is there or it is missing. -/
theorem Restores.leaf {a : Option α} (h : read.Takes v a) (hv : v.fields? = none)
    (hresult : ∀ gone : Places, gone [] = false → result gone = a) : read.Restores v result := by
  intro gone w hw
  cases hw with
  | plain _ => rwa [hresult _ rfl]
  | object => cases hv

/-- An object is restored if the records are that hold what may be left of it. -/
theorem Restores.record {names : List String} {fields : Fields} {take : Record → Option α}
    (hnames : fields.map (·.1) = names) (hd : names.Nodup)
    (h : ∀ gone r, r.Holds gone fields → take r = result gone.covers) :
    Restores (fun room w => (Record.of? names room w).bind take) (.obj fields) result := by
  subst hnames
  intro gone w hw room hroom
  obtain ⟨r, hr, hholds⟩ := hw.exists_record hd hroom
  exact (congrArg (·.bind take) hr).trans (h gone r hholds)

end Reading

namespace Record.Holds

variable {α : Type} {r : Record} {gone : Places} {fields : Fields} {v : Json} {read : Reading α}

/-- A field that is missing has its default, and so has all that is missing with it. -/
theorem orElse?_eq {result : Places → Option α} (h : r.Holds gone fields) (key : String)
    (default : α) (hmem : (key, v) ∈ fields) (hread : read.Restores v result)
    (hall : result .all = some default) :
    r.orElse? key default read = result (gone.covers.under key) := by
  rw [orElse?]
  cases hgone : gone [key] with
  | true => rw [h.struck hgone, Places.covers_under_of_mem hgone, hall]
  | false =>
    obtain ⟨w, hw, hroom, hfind⟩ := h.kept hmem hgone
    rw [hfind, Places.covers_under_of_notMem hgone]
    exact hread _ w hw _ hroom

/-- A plain field is there, or it is missing and has its default. -/
theorem orElse?_plain {a : α} (h : r.Holds gone fields) (key : String) (default : α)
    (hmem : (key, v) ∈ fields) (hread : read.Takes v (some a)) (hv : v.fields? = none) :
    r.orElse? key default read = some (gone.covers.pick [key] default a) :=
  have hleaf : read.Restores v fun missing => some (missing.pick [] default a) :=
    .leaf hread hv fun missing hthere => by
      rw [Places.pick, hthere, if_neg Bool.false_ne_true]
  h.orElse?_eq key default hmem hleaf rfl

end Record.Holds

end Switchboard
