import Switchboard.Proofs.Breaker.Slots

/-!
# Whose verdict ends a half-open period

A half-open breaker should be judged by its own trials. Trials that are given up are told apart by
their half-open period, outcomes are not: a call that was let through before the period began and
succeeds or fails while it lasts closes or reopens the breaker too.

* `Moment.lateVerdict` : such an outcome;
* `Moment.leavesHalfOpen_iff` : what makes calls leave a half-open period;
* `Traffic.trials_decide_iff` : trials alone decide in exactly the runs without late verdicts;
* `Traffic.late_success_closes` : a run in which they do not.
-/

namespace Switchboard

/-- The events of calls, and the passage of time. -/
def BreakerEvent.ofCalls : BreakerEvent → Bool
  | .enter | .settle _ _ | .wait _ => true
  | .recordSuccess | .recordFailure | .reset => false

namespace Traffic.Moment

def leavesHalfOpen (p : BreakerPolicy) (m : Moment) : Prop :=
  m.before.breaker.state = .halfOpen ∧ (m.after p).breaker.state ≠ .halfOpen

def ended? (m : Moment) : Option (Permit × Settlement) :=
  match m.event with
  | .settle i how => (m.before.held[i]?).map fun permit => (permit, how)
  | _ => none

def endsTrial (m : Moment) : Prop :=
  ∃ call ∈ m.ended?, call.1.isTrialOf m.before.breaker.epoch = true

/-- A call succeeds or fails that was let through before the breaker's half-open period began. -/
def lateVerdict (m : Moment) : Prop :=
  m.before.breaker.state = .halfOpen ∧
    ∃ call ∈ m.ended?, call.1.epoch < m.before.breaker.epoch ∧ call.2 ≠ .abandoned

instance (p : BreakerPolicy) (m : Moment) : Decidable (m.leavesHalfOpen p) :=
  inferInstanceAs (Decidable (_ ∧ _))

instance (m : Moment) : Decidable m.endsTrial :=
  inferInstanceAs (Decidable (∃ call ∈ m.ended?, _))

instance (m : Moment) : Decidable m.lateVerdict :=
  inferInstanceAs (Decidable (_ ∧ ∃ call ∈ m.ended?, _))

variable {p : BreakerPolicy} {m : Moment}

theorem not_endsTrial_of_lateVerdict (h : m.lateVerdict) : ¬ m.endsTrial := by
  obtain ⟨-, call, hcall, hlt, -⟩ := h
  rintro ⟨call', hcall', ht⟩
  obtain rfl : call = call' := Option.some.inj (hcall.symm.trans hcall')
  simp only [Permit.isTrialOf, Bool.and_eq_true, beq_iff_eq] at ht
  omega

/-- A held permit whose end moves a half-open breaker is one of its trials, or reports late. -/
theorem settle_leaves_iff {s : Traffic} {i : Nat} {permit : Permit} {how : Settlement}
    (hd : s.Dated) (hs : s.breaker.state = .halfOpen) (hi : s.held[i]? = some permit) :
    (s.step p (.settle i how)).breaker.state ≠ .halfOpen ↔
      permit.isTrialOf s.breaker.epoch = true ∨
        (permit.epoch < s.breaker.epoch ∧ how ≠ .abandoned) := by
  have hheld : permit ∈ s.held := List.mem_of_getElem? hi
  have hends : (s.step p (.settle i how)).breaker.state ≠ .halfOpen ↔
      (permit.signal how).ends s.breaker.epoch = true := by
    rw [breaker_step, signal_settle hi]
    constructor
    · intro hne
      by_contra hends
      have hkept : s.breaker.receive p s.now (permit.signal how) = s.breaker :=
        Breaker.receive_of_not_ends (permit.signal_ne how).1 (by simpa using hends)
      exact hne (by rw [hkept, hs])
    · exact Breaker.receive_state_of_ends hs
  rw [hends, permit.signal_ends_iff]
  constructor
  · rintro (hhow | ht)
    · rcases Nat.lt_or_eq_of_le (hd.le permit hheld) with hlt | heq
      · exact .inr ⟨hlt, hhow⟩
      · refine .inl ?_
        simp [Permit.isTrialOf, hd.trial hs permit hheld heq, heq]
    · exact .inl ht
  · rintro (ht | ⟨-, hhow⟩)
    · exact .inr ht
    · exact .inl hhow

theorem ended?_settle {s : Traffic} {i : Nat} {permit : Permit}
    (hi : s.held[i]? = some permit) (how : Settlement) :
    (⟨s, .settle i how⟩ : Moment).ended? = some (permit, how) := by
  simp [ended?, hi]

theorem leavesHalfOpen_iff_of_ended?_eq_none (hn : m.ended? = none)
    (hs : m.before.breaker.state = .halfOpen → (m.after p).breaker.state = .halfOpen) :
    m.leavesHalfOpen p ↔ m.before.breaker.state = .halfOpen ∧ (m.endsTrial ∨ m.lateVerdict) := by
  constructor
  · rintro ⟨hb, hne⟩
    exact absurd (hs hb) hne
  · rintro ⟨-, ⟨call, hcall, -⟩ | ⟨-, call, hcall, -⟩⟩
    · rw [hn] at hcall
      cases hcall
    · rw [hn] at hcall
      cases hcall

theorem leavesHalfOpen_settle_iff {s : Traffic} {i : Nat} {permit : Permit} (hd : s.Dated)
    (hi : s.held[i]? = some permit) (how : Settlement) :
    let m : Moment := ⟨s, .settle i how⟩
    m.leavesHalfOpen p ↔ s.breaker.state = .halfOpen ∧ (m.endsTrial ∨ m.lateVerdict) := by
  have hended := ended?_settle hi how
  constructor
  · rintro ⟨hs, hne⟩
    refine ⟨hs, ?_⟩
    rcases (settle_leaves_iff hd hs hi).mp hne with ht | hlate
    · exact .inl ⟨_, hended, ht⟩
    · exact .inr ⟨hs, _, hended, hlate⟩
  · rintro ⟨hs, h⟩
    refine ⟨hs, (settle_leaves_iff hd hs hi).mpr ?_⟩
    rcases h with ⟨call, hcall, ht⟩ | ⟨-, call, hcall, hlate⟩
    · obtain rfl := Option.some.inj (hended.symm.trans hcall)
      exact .inl ht
    · obtain rfl := Option.some.inj (hended.symm.trans hcall)
      exact .inr hlate

/-- Calls leave a half-open period by the end of one of its trials, or by a late verdict. -/
theorem leavesHalfOpen_iff (hd : m.before.Dated) (hc : m.event.ofCalls = true) :
    m.leavesHalfOpen p ↔ m.before.breaker.state = .halfOpen ∧ (m.endsTrial ∨ m.lateVerdict) := by
  obtain ⟨s, e⟩ := m
  cases e with
  | enter =>
    refine leavesHalfOpen_iff_of_ended?_eq_none rfl fun hs => ?_
    rw [after, breaker_step]
    exact Breaker.receive_enter_state hs
  | settle i how =>
    cases hi : s.held[i]? with
    | none =>
      refine leavesHalfOpen_iff_of_ended?_eq_none ?_ fun hs => ?_
      · simp [ended?, hi]
      · rw [after, step_settle_none hi]
        exact hs
    | some permit => exact leavesHalfOpen_settle_iff hd hi how
  | wait ms => exact leavesHalfOpen_iff_of_ended?_eq_none rfl fun hs => hs
  | recordSuccess => cases hc
  | recordFailure => cases hc
  | reset => cases hc

/-- A late verdict counts as much as that of a trial. -/
theorem lateVerdict_decides (h : m.lateVerdict) :
    ∃ call ∈ m.ended?, (call.2 = .success ∧ (m.after p).breaker.state = .closed) ∨
      (call.2 = .failure ∧ (m.after p).breaker.state = .opened) := by
  obtain ⟨hs, ⟨permit, how⟩, hcall, -, hhow⟩ := h
  refine ⟨_, hcall, ?_⟩
  obtain ⟨s, e⟩ := m
  cases e with
  | settle i how' =>
    obtain ⟨permit', hi, heq⟩ := Option.map_eq_some_iff.mp hcall
    obtain ⟨rfl, rfl⟩ := Prod.mk.inj heq
    rw [after, breaker_step, signal_settle hi]
    cases how' with
    | success =>
      refine .inl ⟨rfl, ?_⟩
      rw [Permit.signal, Breaker.receive, Breaker.recordSuccess_of_halfOpen hs]
    | failure =>
      refine .inr ⟨rfl, ?_⟩
      rw [Permit.signal, Breaker.receive, Breaker.recordFailure_of_halfOpen hs]
    | abandoned => exact absurd rfl hhow
  | enter => cases hcall
  | recordSuccess => cases hcall
  | recordFailure => cases hcall
  | reset => cases hcall
  | wait ms => cases hcall

end Traffic.Moment

namespace Traffic

open Moment

/-- **When trials alone decide.** In a run of calls nothing but the ends of its trials moves a
half-open breaker, unless a call that was let through before the half-open period succeeds or fails
in it; and every such verdict closes or reopens the breaker. -/
theorem trials_decide_iff (settings : BreakerSettings) (events : List BreakerEvent)
    (hc : ∀ e ∈ events, e.ofCalls = true) :
    let p := BreakerPolicy.ofSettings settings
    ((∀ m ∈ history p events, m.leavesHalfOpen p → m.endsTrial) ↔
      ∀ m ∈ history p events, ¬ m.lateVerdict) ∧
    ∀ m ∈ history p events, m.lateVerdict →
      ∃ call ∈ m.ended?, (call.2 = .success ∧ (m.after p).breaker.state = .closed) ∨
        (call.2 = .failure ∧ (m.after p).breaker.state = .opened) := by
  intro p
  have hleaves : ∀ m ∈ history p events, m.leavesHalfOpen p ↔
      m.before.breaker.state = .halfOpen ∧ (m.endsTrial ∨ m.lateVerdict) := by
    intro m hm
    obtain ⟨earlier, later, hevents, hbefore⟩ := exists_run_of_mem_history hm
    refine leavesHalfOpen_iff ?_ (hc m.event (by simp [hevents]))
    rw [hbefore]
    exact dated_run p earlier
  refine ⟨⟨?_, ?_⟩, fun m _ hlate => lateVerdict_decides hlate⟩
  · intro hown m hm hlate
    refine not_endsTrial_of_lateVerdict hlate (hown m hm ?_)
    exact (hleaves m hm).mpr ⟨hlate.1, .inr hlate⟩
  · intro hnone m hm hl
    rcases ((hleaves m hm).mp hl).2 with ht | hlate
    · exact ht
    · exact absurd hlate (hnone m hm)

/-- A call from before the half-open period that is given up in it leaves the trial to decide. -/
theorem trials_decide_despite_late_end :
    let settings : BreakerSettings :=
      { failureThreshold := 1, recoveryTimeoutMs := 20, halfOpenMaxCalls := 1 }
    let p := BreakerPolicy.ofSettings settings
    let events : List BreakerEvent := [.enter, .enter, .settle 0 .failure, .wait 20, .enter,
      .settle 0 .abandoned, .settle 0 .success]
    (∀ e ∈ events, e.ofCalls = true) ∧
    (∀ m ∈ history p events, m.leavesHalfOpen p → m.endsTrial) ∧
    ∃ m ∈ history p events, m.leavesHalfOpen p := by
  intro settings p events
  have hc : ∀ e ∈ events, e.ofCalls = true := by decide
  have hnone : ∀ m ∈ history p events, ¬ m.lateVerdict := by decide
  exact ⟨hc, (trials_decide_iff settings events hc).1.mpr hnone, by decide⟩

/-- **A late success closes a half-open breaker**: the first caller fails and opens the breaker, a
trial is under way, and the second caller, let through before all that, succeeds. -/
theorem late_success_closes :
    ¬ ∀ (settings : BreakerSettings) (events : List BreakerEvent),
      (∀ e ∈ events, e.ofCalls = true) →
      ∀ m ∈ history (.ofSettings settings) events,
        m.leavesHalfOpen (.ofSettings settings) → m.endsTrial := by
  intro h
  have hleft := h { failureThreshold := 1, recoveryTimeoutMs := 20, halfOpenMaxCalls := 1 }
    [.enter, .enter, .settle 0 .failure, .wait 20, .enter, .settle 0 .success] (by decide)
  revert hleft
  decide

end Traffic

end Switchboard
