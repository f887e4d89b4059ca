import Switchboard.Json.Printer

/-!
# Printed values have no control characters

* `Text.Graphic` : no character of a text is below U+0020, so none is a line break;
* `Graphic.append`, `Graphic.intercalate` : texts put together;
* `Number.graphic_text`, `Json.graphic_quoted`, `Json.graphic_compact` : numbers, strings with their
  escapes and values on one line.
-/

namespace Switchboard

/-! ## Texts without control characters -/

namespace Text

/-- No character of a text is below U+0020. -/
def Graphic (s : String) : Prop := ∀ c ∈ s.toList, 32 ≤ c.toNat

instance (s : String) : Decidable (Graphic s) := List.decidableBAll _ _

namespace Graphic

variable {s t : String}

theorem ofList {cs : List Char} (h : ∀ c ∈ cs, 32 ≤ c.toNat) : Graphic (String.ofList cs) := by
  rwa [Graphic, String.toList_ofList]

theorem append (hs : Graphic s) (ht : Graphic t) : Graphic (s ++ t) := by
  rw [Graphic, String.toList_append]
  exact List.forall_mem_append.mpr ⟨hs, ht⟩

theorem of_subset (hs : Graphic s) (h : t.toList ⊆ s.toList) : Graphic t := fun c hc => hs c (h hc)

theorem intercalate {texts : List String} (hs : Graphic s) (h : ∀ t ∈ texts, Graphic t) :
    Graphic (s.intercalate texts) := by
  induction texts with
  | nil => rw [String.intercalate_nil]; decide
  | cons t texts ih =>
    obtain ⟨ht, hrest⟩ := List.forall_mem_cons.mp h
    cases texts with
    | nil => rwa [String.intercalate_singleton]
    | cons u texts =>
      rw [String.intercalate_cons_cons]
      exact (ht.append hs).append (ih hrest)

theorem pushn {c : Char} (hs : Graphic s) (hc : 32 ≤ c.toNat) (n : Nat) : Graphic (s.pushn c n) := by
  rw [String.pushn_eq_repeat_push]
  induction n with
  | zero => exact hs
  | succ n ih =>
    rw [Nat.repeat, Graphic, String.toList_push]
    exact List.forall_mem_append.mpr ⟨ih, by simpa using hc⟩

theorem newline_notMem (h : Graphic s) : '\n' ∉ s.toList := fun hmem =>
  absurd (h _ hmem) (by decide)

end Graphic

end Text

open Text

/-! ## Numbers -/

theorem Number.graphic_nat (n : Nat) : Graphic (toString n) := by
  intro c hc
  have hdigit : c.isDigit = true := by
    rw [Nat.toString_eq_repr, Nat.toList_repr] at hc
    exact Nat.isDigit_of_mem_toDigits (by decide) (by decide) hc
  simp only [Char.isDigit, Bool.and_eq_true, decide_eq_true_eq] at hdigit
  have hle : 48 ≤ c.toNat := hdigit.1
  omega

theorem Number.graphic_int (i : Int) : Graphic (toString i) := by
  rw [Int.toString_eq_repr, Int.repr_eq_if]
  split
  · exact graphic_nat _
  · exact .append (by decide) (graphic_nat _)

theorem Decimal.graphic_text (format : DoubleFormat) (d : Decimal) : Graphic (d.text format) := by
  have hdigits : Graphic (toString d.digits) := Number.graphic_nat _
  have htake (n : Nat) : Graphic ((toString d.digits).take n).toString :=
    hdigits.of_subset (by simp [List.take_subset])
  have hdrop (n : Nat) : Graphic ((toString d.digits).drop n).toString :=
    hdigits.of_subset (by simp [List.drop_subset])
  have hexponent (n : Nat) : Graphic (toString n) := Number.graphic_nat n
  unfold text
  dsimp only
  split
  · split
    · exact (hdigits.append (.pushn (by decide) (by decide) _)).append (by decide)
    · split
      · exact ((htake _).append (by decide)).append (hdrop _)
      · exact (Graphic.append (by decide) (.pushn (by decide) (by decide) _)).append hdigits
  · refine (((htake 1).append ?_).append ?_).append (hexponent _)
    · split
      · decide
      · exact .append (by decide) (hdrop 1)
    · split <;> decide

theorem Number.graphic_text (n : Number) : Graphic n.text := by
  cases n with
  | int i => exact graphic_int i
  | double x =>
    have hsign : Graphic (if x.toBits < 0x8000000000000000 then "" else "-") := by split <;> decide
    unfold text doubleText
    dsimp only
    split
    · decide
    · split
      · exact hsign.append (by decide)
      · exact hsign.append (Decimal.graphic_text _ _)

/-! ## Values -/

namespace Json

theorem toNat_hexChar {n : Nat} (h : n < 16) : 32 ≤ (hexChar n).toNat := by
  decide +revert

theorem graphic_escaped (c : Char) : Graphic (escaped c) := by
  unfold escaped
  iterate 7 (split; · decide)
  split
  · next h =>
    refine .append (by decide) (.ofList ?_)
    simp [toNat_hexChar (show c.toNat / 16 < 16 by omega),
      toNat_hexChar (show c.toNat % 16 < 16 by omega)]
  · next h =>
    rw [Graphic, String.toList_singleton]
    simpa using h

theorem graphic_quoted (s : String) : Graphic (quoted s) := by
  have hfold : ∀ (cs : List Char) (text : String), Graphic text →
      Graphic (cs.foldl (fun text c => text ++ escaped c) text) := by
    intro cs
    induction cs with
    | nil => exact fun _ h => h
    | cons c cs ih => exact fun _ h => ih _ (h.append (graphic_escaped c))
  exact (hfold _ _ (by decide)).append (by decide)

mutual

theorem graphic_compact : ∀ v : Json, Graphic v.compact
  | .null => by decide
  | .bool b => by cases b <;> decide
  | .num n => Number.graphic_text n
  | .str s => graphic_quoted s
  | .arr items =>
    (Graphic.append (by decide) (.intercalate (by decide) (graphic_compactItems items))).append
      (by decide)
  | .obj fields =>
    (Graphic.append (by decide) (.intercalate (by decide) (graphic_compactFields fields))).append
      (by decide)

theorem graphic_compactItems : ∀ items : List Json, ∀ t ∈ compactItems items, Graphic t
  | [] => by simp [compactItems]
  | v :: rest => List.forall_mem_cons.mpr ⟨graphic_compact v, graphic_compactItems rest⟩

theorem graphic_compactFields : ∀ fields : List (String × Json), ∀ t ∈ compactFields fields,
    Graphic t
  | [] => by simp [compactFields]
  | (key, v) :: rest => List.forall_mem_cons.mpr
    ⟨((graphic_quoted key).append (by decide)).append (graphic_compact v),
      graphic_compactFields rest⟩

end

end Json

end Switchboard
