import Mathlib.Data.List.Basic
import Switchboard.Proofs.Inquiry.Replies

/-!
# Which records are stale

A record is stale when it has waited longer than an age. An age that cannot be represented is taken
for none, and then every record is old enough; and a record that is just as old as the age goes too.

* `Inquiry.waited` : how long a record has waited; `Inquiries.lifetime` : the age that counts;
* `Inquiries.cleanup_eq` : what a cleanup does;
* `Inquiries.forgetsOlder_iff` : when it forgets the stale records and nothing else.
-/

namespace Switchboard

/-- How long a record has waited. -/
def Inquiry.waited (i : Inquiry) (now : Nat) : Nat := now - i.createdAt

namespace Inquiries

/-- The age that a record may reach, as far as it is represented. -/
def lifetime (age : Span) : Nat := if maxAge < age.nanos then 0 else age.nanos

theorem lifetime_of_le {age : Span} (h : age.nanos ≤ maxAge) : lifetime age = age.nanos :=
  if_neg (Nat.not_lt_of_le h)

theorem lifetime_of_lt {age : Span} (h : maxAge < age.nanos) : lifetime age = 0 := if_pos h

variable (is : Inquiries) (now : Nat) (age : Span)

/-- A record is kept that has not reached the age. -/
def Keeps (i : Inquiry) : Prop := now < i.createdAt + lifetime age

instance (i : Inquiry) : Decidable (Keeps now age i) := inferInstanceAs (Decidable (_ < _))

/-- What a cleanup does: there is no answer for an age that reaches back before the calendar, and
otherwise the records go that have reached it. -/
theorem cleanup_eq :
    is.cleanup now age =
      if now < lifetime age then none
      else some (is.filter fun i => Keeps now age i, is.countP fun i => ¬ Keeps now age i) := by
  have hcleanup : is.cleanup now age =
      let kept := is.filter fun i => decide (now - lifetime age < i.createdAt)
      if now < lifetime age then none else some (kept, is.length - kept.length) := rfl
  rw [hcleanup]
  dsimp only
  split
  · rfl
  · next hcalendar =>
    have hkept : (fun i : Inquiry => decide (now - lifetime age < i.createdAt)) =
        fun i => decide (Keeps now age i) := by
      funext i
      apply decide_eq_decide.mpr
      unfold Keeps
      omega
    have hsplit : is.length = is.countP (fun i => decide (Keeps now age i)) +
        is.countP (fun i => decide (¬ Keeps now age i)) := by
      simpa using List.length_eq_countP_add_countP fun i => decide (Keeps now age i)
    rw [hkept, ← List.countP_eq_length_filter]
    have hcount : is.length - is.countP (fun i => decide (Keeps now age i)) =
        is.countP fun i => decide (¬ Keeps now age i) := by omega
    rw [hcount]

/-- A cleanup forgets the records that have waited longer than an age and no others, and tells how
many they are. -/
def ForgetsOlder : Prop :=
  is.cleanup now age =
    some (is.filter fun i => ¬ age.nanos < i.waited now,
      is.countP fun i => age.nanos < i.waited now)

instance : Decidable (is.ForgetsOlder now age) := inferInstanceAs (Decidable (_ = _))

theorem forgetsOlder_iff_keeps :
    is.ForgetsOlder now age ↔
      lifetime age ≤ now ∧ ∀ i ∈ is, Keeps now age i ↔ ¬ age.nanos < i.waited now := by
  unfold ForgetsOlder
  rw [cleanup_eq]
  split
  · next hbefore => exact iff_of_false nofun fun h => Nat.not_lt_of_le h.1 hbefore
  · next hcalendar =>
    rw [Option.some.injEq, Prod.mk.injEq]
    constructor
    · rintro ⟨hkept, -⟩
      refine ⟨Nat.le_of_not_lt hcalendar, fun i hi => ?_⟩
      have hmem : i ∈ is.filter (fun i => decide (Keeps now age i)) ↔
          i ∈ is.filter fun i => decide (¬ age.nanos < i.waited now) := by rw [hkept]
      simpa [hi] using hmem
    · rintro ⟨-, hsame⟩
      refine ⟨List.filter_congr fun i hi => ?_, List.countP_congr fun i hi => ?_⟩
      · exact decide_eq_decide.mpr (hsame i hi)
      · simp [hsame i hi]

/-- **When a cleanup forgets the stale records and nothing else.** An age that is represented must
not reach back before the calendar, and no record may be just that old. An age beyond that forgets
every record that is there, so all of them must be older still. -/
theorem forgetsOlder_iff :
    is.ForgetsOlder now age ↔
      if age.nanos ≤ maxAge then age.nanos ≤ now ∧ ∀ i ∈ is, i.createdAt + age.nanos ≠ now
      else ∀ i ∈ is, i.createdAt ≤ now → age.nanos < i.waited now := by
  rw [forgetsOlder_iff_keeps]
  unfold Keeps Inquiry.waited
  split
  · next hrepresented =>
    rw [lifetime_of_le hrepresented]
    refine and_congr_right fun _ => forall₂_congr fun i _ => ?_
    omega
  · next hlong =>
    rw [lifetime_of_lt (Nat.lt_of_not_le hlong)]
    refine (and_iff_right (Nat.zero_le now)).trans (forall₂_congr fun i _ => ?_)
    omega

/-- A record that is just as old as the age goes, an age beyond the representable ones takes even a
record that has just been made, and the longest representable one has no answer. -/
theorem forgets_awaited :
    let record : Inquiry := .asked 15 "r" "plan" ["p"] .null
    Inquiries.cleanup [record] 25 ⟨10⟩ = some ([], 1) ∧
      ¬ ForgetsOlder [record] 25 ⟨10⟩ ∧
      Inquiries.cleanup [record] 15 (.ofMillis (2 ^ 63)) = some ([], 1) ∧
      ¬ ForgetsOlder [record] 15 (.ofMillis (2 ^ 63)) ∧
      Inquiries.cleanup [record] 15 (.ofMillis (2 ^ 63 - 1)) = none ∧
      ¬ ForgetsOlder [record] 15 (.ofMillis (2 ^ 63 - 1)) := by
  intro record
  exact ⟨by decide, by decide, by decide, by decide, by decide, by decide⟩

end Inquiries

end Switchboard
