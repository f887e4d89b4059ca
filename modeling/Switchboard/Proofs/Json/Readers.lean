import Switchboard.Json.Record
import Switchboard.Proofs.Json.Fields

/-!
# What readers take values for

* `Reading.Takes` : what a value is read as wherever there is room enough for it;
* `Reading.takes_word64`, `Reading.takes_string`, `Reading.takes_double`, … : plain values;
  `Reading.takes_list` : arrays of them;
* `Record.ofFields`, `Record.of?_written` : objects are read as records of their known entries.
-/

namespace Switchboard

namespace Reading

variable {α : Type} {read : Reading α} {encode : α → Json} (items : List α)

/-- A value is read as `result`, or refused, wherever there is room enough for it. -/
def Takes (read : Reading α) (v : Json) (result : Option α) : Prop :=
  ∀ room, v.depth ≤ room → read room v.written = result

theorem below_nat {bound n : Nat} (h : n < bound) (room : Nat) :
    below bound room (Json.nat n).written = some n := by
  have hbound : (0 : Int) ≤ n ∧ (n : Int) < bound := ⟨Int.natCast_nonneg n, Int.ofNat_lt.mpr h⟩
  exact (if_pos hbound).trans (congrArg some (Int.toNat_natCast n))

theorem takes_word64 (n : UInt64) : word64.Takes (.nat n.toNat) (some n) := by
  intro room _
  rw [word64, below_nat n.toNat_lt_size, Option.map_some, UInt64.ofNat_toNat]

theorem takes_word32 (n : UInt32) : word32.Takes (.nat n.toNat) (some n) := by
  intro room _
  rw [word32, below_nat n.toNat_lt_size, Option.map_some, UInt32.ofNat_toNat]

theorem takes_word16 (n : UInt16) : word16.Takes (.nat n.toNat) (some n) := by
  intro room _
  rw [word16, below_nat n.toNat_lt_size, Option.map_some, UInt16.ofNat_toNat]

theorem takes_string (s : String) : string.Takes (.str s) (some s) := fun _ _ => rfl

theorem takes_bool (b : Bool) : bool.Takes (.bool b) (some b) := fun _ _ => rfl

/-- A double that is not finite is written as null, and null is read as no double. -/
theorem takes_double (x : Float) :
    double.Takes (.ofFloat x) (if x.isFinite then some x else none) := by
  intro room _
  unfold Json.ofFloat
  split <;> rfl

theorem takes_nullable_string (o : Option String) :
    (nullable string).Takes (Json.ofOption .str o) (some o) := by
  intro room _
  cases o <;> rfl

theorem mapM_writtenItems {room : Nat} (h : ∀ a ∈ items, read.Takes (encode a) (some a))
    (hroom : Json.depthItems (items.map encode) ≤ room) :
    (Json.writtenItems (items.map encode)).mapM (read room) = some items := by
  induction items with
  | nil => rfl
  | cons a items ih =>
    obtain ⟨ha, hitems⟩ := List.forall_mem_cons.mp h
    obtain ⟨hfirst, hrest⟩ := Nat.max_le.mp hroom
    rw [List.map_cons, Json.writtenItems, List.mapM_cons, ha room hfirst, ih hitems hrest]
    rfl

/-- A list is read off the values that its items are read off. -/
theorem takes_list (h : ∀ a ∈ items, read.Takes (encode a) (some a)) :
    (list read).Takes (.arr (items.map encode)) (some items) := by
  intro room hroom
  cases room with
  | zero => exact absurd hroom (Nat.not_succ_le_zero _)
  | succ room => exact mapM_writtenItems items h (Nat.le_of_succ_le_succ hroom)

theorem takes_strings (texts : List String) : (list string).Takes (.strings texts) (some texts) :=
  takes_list texts fun s _ => takes_string s

end Reading

/-! ## Members of objects -/

theorem Json.depth_le_depthFields {fields : Fields} {key : String} {v : Json}
    (h : (key, v) ∈ fields) : v.depth ≤ Json.depthFields fields := by
  induction fields with
  | nil => cases h
  | cons entry rest ih =>
    rw [Json.depthFields]
    rcases List.mem_cons.mp h with rfl | h
    · exact Nat.le_max_left _ _
    · exact Nat.le_trans (ih h) (Nat.le_max_right _ _)

namespace Record

/-- The record of the entries of an object. -/
def ofFields (room : Nat) (fields : Fields) : Record :=
  ⟨false, room, fields.map fun e => (e.1, e.2.written)⟩

theorem find?_ofFields (room : Nat) (fields : Fields) (key : String) :
    (ofFields room fields).find? key = (fields.get? key).map Json.written := by
  rw [find?, ofFields, List.find?_map, Fields.get?, Option.map_map, Option.map_map]
  rfl

theorem known?_writtenFields {names : List String} {fields : Fields}
    (hd : ((fields.filter (·.1 ∈ names)).map (·.1)).Nodup) :
    known? names (Json.writtenFields fields) =
      some ((fields.filter (·.1 ∈ names)).map fun e => (e.1, e.2.written)) := by
  induction fields with
  | nil => rfl
  | cons entry rest ih =>
    obtain ⟨key, v⟩ := entry
    rw [Json.writtenFields, known?]
    by_cases hknown : key ∈ names
    · obtain ⟨hnew, hrest⟩ : key ∉ (rest.filter (·.1 ∈ names)).map (·.1) ∧
          ((rest.filter (·.1 ∈ names)).map (·.1)).Nodup := by
        simpa [hknown] using hd
      have hfresh : ((rest.filter (·.1 ∈ names)).map fun e => (e.1, e.2.written)).any
          (·.1 == key) = false := by
        rw [← Bool.not_eq_true, List.any_map]
        simpa using hnew
      simp [ih hrest, hknown, hfresh]
    · have hrest : ((rest.filter (·.1 ∈ names)).map (·.1)).Nodup := by simpa [hknown] using hd
      simp [ih hrest, hknown]

/-- The known entries of an object are read if none of them is repeated, whatever the others. -/
theorem of?_written {names : List String} {fields : Fields} {room : Nat}
    (hd : ((fields.filter (·.1 ∈ names)).map (·.1)).Nodup)
    (hroom : (Json.obj fields).depth ≤ room) :
    of? names room (Json.obj fields).written =
      some (ofFields (room - 1) (fields.filter (·.1 ∈ names))) := by
  cases room with
  | zero => exact absurd hroom (Nat.not_succ_le_zero _)
  | succ room =>
    change (known? names (Json.writtenFields fields)).map _ = _
    rw [known?_writtenFields hd, Option.map_some]
    rfl

end Record

end Switchboard
