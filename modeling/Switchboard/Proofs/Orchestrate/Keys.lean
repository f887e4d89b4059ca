import Mathlib.Data.List.Dedup
import Mathlib.Data.List.Nodup
import Switchboard.Orchestrate.Job

/-!
# The keys of a sequence

A job is numbered by how often its capability has come up. A number is told from the rest of a key
by the last `#` in it, so keys meet only where a capability reads like the key of another one.

* `append_cons_inj_of_last` : texts are the same if they are up to and after the last separator;
* `Job.marks` : capabilities with the numbers of their occurrences;
* `Job.numbered_eq_iff` : when two marks make the same key;
* `Job.mem_keys_iff`, `Job.nodup_keys_iff` : what the keys of jobs are, and when they differ.
-/

namespace Switchboard

/-- What stands before and after the last separator is determined by the whole. -/
theorem append_cons_inj_of_last {α : Type} {a : α} {xs ys xs' ys' : List α} (hys : a ∉ ys)
    (hys' : a ∉ ys') (h : xs ++ a :: ys = xs' ++ a :: ys') : xs = xs' ∧ ys = ys' := by
  rcases List.append_eq_append_iff.mp h with ⟨zs, hxs, hrest⟩ | ⟨zs, hxs, hrest⟩
  · rcases zs with _ | ⟨b, zs⟩
    · exact ⟨by simpa using hxs.symm, (List.cons.inj hrest).2⟩
    · refine absurd ?_ hys
      rw [(List.cons.inj hrest).2]
      exact List.mem_append_right _ List.mem_cons_self
  · rcases zs with _ | ⟨b, zs⟩
    · exact ⟨by simpa using hxs, (List.cons.inj hrest).2.symm⟩
    · refine absurd ?_ hys'
      rw [(List.cons.inj hrest).2]
      exact List.mem_append_right _ List.mem_cons_self

namespace Job

/-! ## Numbers -/

theorem hash_notMem_toString (n : Nat) : '#' ∉ (toString n).toList := by
  intro h
  rw [Nat.toString_eq_repr, Nat.toList_repr] at h
  exact absurd (Nat.isDigit_of_mem_toDigits (by omega) (by omega) h) (by decide)

theorem toString_injective {n m : Nat} (h : toString n = toString m) : n = m := by
  have hdigits : Nat.toDigits 10 n = Nat.toDigits 10 m := by
    rw [← Nat.toList_repr, ← Nat.toList_repr, ← Nat.toString_eq_repr, ← Nat.toString_eq_repr, h]
  rw [← @Nat.ofDigitChars_toDigits 10 n (by omega) (by omega), hdigits,
    Nat.ofDigitChars_toDigits (by omega) (by omega)]

theorem numbered_of_le {n : Nat} (h : n ≤ 1) (c : String) : numbered c n = c := if_pos h

theorem toList_numbered {n : Nat} (h : 2 ≤ n) (c : String) :
    (numbered c n).toList = c.toList ++ '#' :: (toString n).toList := by
  rw [numbered, if_neg (by omega), String.toList_append, String.toList_append, List.append_assoc]
  rfl

theorem numbered_ne {n : Nat} (h : 2 ≤ n) (c : String) : numbered c n ≠ c := by
  intro heq
  have hlength := congrArg List.length (toList_numbered h c)
  rw [heq, List.length_append, List.length_cons] at hlength
  omega

/-- Two marks make the same key if they are the same, or if one capability reads like the key of
the other mark. -/
theorem numbered_eq_iff {c d : String} {n m : Nat} (hn : 1 ≤ n) (hm : 1 ≤ m) :
    numbered c n = numbered d m ↔
      c = d ∧ n = m ∨ n = 1 ∧ 2 ≤ m ∧ c = numbered d m ∨ m = 1 ∧ 2 ≤ n ∧ d = numbered c n := by
  constructor
  · intro h
    rcases Nat.lt_or_ge n 2 with hn' | hn' <;> rcases Nat.lt_or_ge m 2 with hm' | hm'
    · rw [numbered_of_le (by omega), numbered_of_le (by omega)] at h
      exact .inl ⟨h, by omega⟩
    · rw [numbered_of_le (by omega)] at h
      exact .inr (.inl ⟨by omega, hm', h⟩)
    · rw [numbered_of_le (n := m) (by omega)] at h
      exact .inr (.inr ⟨by omega, hn', h.symm⟩)
    · have hlists := congrArg String.toList h
      rw [toList_numbered hn', toList_numbered hm'] at hlists
      obtain ⟨hc, hnumber⟩ :=
        append_cons_inj_of_last (hash_notMem_toString n) (hash_notMem_toString m) hlists
      exact .inl ⟨String.toList_injective hc, toString_injective (String.toList_injective hnumber)⟩
  · rintro (⟨rfl, rfl⟩ | ⟨rfl, -, rfl⟩ | ⟨rfl, -, rfl⟩)
    · rfl
    · exact numbered_of_le (Nat.le_refl 1) _
    · exact (numbered_of_le (Nat.le_refl 1) _).symm

/-! ## Occurrences -/

/-- Capabilities with the numbers of their occurrences, given those that come before. -/
def marks : List String → List String → List (String × Nat)
  | _, [] => []
  | before, c :: rest => (c, before.count c + 1) :: marks (c :: before) rest

theorem keysAfter_eq (before : List String) (jobs : List Job) :
    keysAfter before jobs =
      (marks before (jobs.map (·.capability))).map fun x => numbered x.1 x.2 := by
  induction jobs generalizing before with
  | nil => rfl
  | cons j rest ih => rw [keysAfter, ih, List.map_cons, marks, List.map_cons]

theorem mem_marks_iff {before caps : List String} {c : String} {n : Nat} :
    (c, n) ∈ marks before caps ↔ before.count c < n ∧ n ≤ before.count c + caps.count c := by
  induction caps generalizing before with
  | nil => simp [marks]
  | cons d rest ih =>
    rw [marks, List.mem_cons, ih, Prod.mk.injEq]
    by_cases h : d = c
    · subst h
      simp only [List.count_cons_self, true_and]
      omega
    · rw [List.count_cons_of_ne h, List.count_cons_of_ne h]
      simp [Ne.symm h]

theorem nodup_marks (before caps : List String) : (marks before caps).Nodup := by
  induction caps generalizing before with
  | nil => exact .nil
  | cons c rest ih =>
    refine List.nodup_cons.mpr ⟨fun hmem => ?_, ih _⟩
    have hlt := (mem_marks_iff.mp hmem).1
    rw [List.count_cons_self] at hlt
    omega

theorem length_marks (before caps : List String) : (marks before caps).length = caps.length := by
  induction caps generalizing before with
  | nil => rfl
  | cons c rest ih => rw [marks, List.length_cons, ih, List.length_cons]

theorem length_keys (jobs : List Job) : (keys jobs).length = jobs.length := by
  rw [keys, keysAfter_eq, List.length_map, length_marks, List.length_map]

theorem mem_keys_iff {key : String} {jobs : List Job} :
    key ∈ keys jobs ↔
      ∃ c n, 0 < n ∧ n ≤ (jobs.map (·.capability)).count c ∧ numbered c n = key := by
  rw [keys, keysAfter_eq, List.mem_map]
  constructor
  · rintro ⟨⟨c, n⟩, hmark, rfl⟩
    obtain ⟨hpos, hle⟩ := mem_marks_iff.mp hmark
    exact ⟨c, n, by simpa using hpos, by simpa using hle, rfl⟩
  · rintro ⟨c, n, hpos, hle, rfl⟩
    exact ⟨(c, n), mem_marks_iff.mpr ⟨by simpa using hpos, by simpa using hle⟩, rfl⟩

/-- Leaving jobs out gives the others no new keys. -/
theorem keys_subset {kept jobs : List Job} (h : kept.Sublist jobs) : keys kept ⊆ keys jobs := by
  intro key hkey
  obtain ⟨c, n, hpos, hle, rfl⟩ := mem_keys_iff.mp hkey
  exact mem_keys_iff.mpr ⟨c, n, hpos, Nat.le_trans hle ((h.map _).count_le c), rfl⟩

/-- No capability of the jobs reads like the key of one that comes up again. -/
def Unnumbered (jobs : List Job) : Prop :=
  ∀ c n, 2 ≤ n → n ≤ (jobs.map (·.capability)).count c →
    numbered c n ∉ jobs.map (·.capability)

/-- The keys of jobs differ unless a capability reads like the key of one that comes up again. -/
theorem nodup_keys_iff (jobs : List Job) : (keys jobs).Nodup ↔ Unnumbered jobs := by
  rw [keys, keysAfter_eq, List.nodup_map_iff_inj_on (nodup_marks _ _)]
  constructor
  · intro hinj c n htwo hn hmem
    have hnumbered : (c, n) ∈ marks [] (jobs.map (·.capability)) :=
      mem_marks_iff.mpr ⟨by simp; omega, by simpa using hn⟩
    have hplain : (numbered c n, 1) ∈ marks [] (jobs.map (·.capability)) := by
      refine mem_marks_iff.mpr ⟨by simp, ?_⟩
      simpa using List.count_pos_iff.mpr hmem
    have hsame := hinj _ hnumbered _ hplain (numbered_of_le (Nat.le_refl 1) _).symm
    exact numbered_ne htwo c (Prod.mk.inj hsame).1.symm
  · rintro hplain ⟨c, n⟩ hc ⟨d, m⟩ hd hkey
    obtain ⟨hn, hcount⟩ := mem_marks_iff.mp hc
    obtain ⟨hm, hcount'⟩ := mem_marks_iff.mp hd
    simp only [List.count_nil, Nat.zero_add] at hn hcount hm hcount'
    rcases (numbered_eq_iff hn hm).mp hkey with ⟨rfl, rfl⟩ | ⟨-, htwo, rfl⟩ | ⟨-, htwo, rfl⟩
    · rfl
    · exact absurd (List.count_pos_iff.mp (Nat.le_trans hn hcount)) (hplain d m htwo hcount')
    · exact absurd (List.count_pos_iff.mp (Nat.le_trans hm hcount')) (hplain c n htwo hcount)

end Job

end Switchboard
