import Mathlib.Data.List.Perm.Basic
import Switchboard.Proofs.Breaker.Traffic

/-!
# The trial slots of a half-open breaker

A half-open breaker counts its trials and does not know who makes them. The count is right all the
same: every slot that is taken belongs to a caller who still holds a trial permit of this half-open
period, so a breaker that refuses calls always has someone whose call will end its period.

* `BreakerSignal.ends` : the signals that end a half-open period;
* `Traffic.Dated` : held permits are never ahead of the breaker;
* `Traffic.Sound` : slots, failure times and permits agree; `Traffic.sound_run` : after every run;
* `Traffic.halfOpen_slots` : the same, and that a half-open breaker never gets stuck.
-/

namespace Switchboard

/-! ## Signals that end a half-open period -/

/-- The signals that end the half-open period of the given number. -/
def BreakerSignal.ends (epoch : Nat) : BreakerSignal → Bool
  | .success | .failure | .reset => true
  | .abandon e => e == epoch
  | .enter | .nothing => false

/-- A trial of the half-open period of the given number. -/
def Permit.isTrialOf (epoch : Nat) (permit : Permit) : Bool :=
  permit.admission == .trial && permit.epoch == epoch

/-- Any outcome ends a half-open period, whoever reports it; a call that is given up does so as one
of its trials. -/
theorem Permit.signal_ends_iff (permit : Permit) (how : Settlement) (epoch : Nat) :
    (permit.signal how).ends epoch = true ↔ how ≠ .abandoned ∨ permit.isTrialOf epoch = true := by
  cases how with
  | success => simp [signal, BreakerSignal.ends]
  | failure => simp [signal, BreakerSignal.ends]
  | abandoned =>
    unfold signal isTrialOf
    cases permit.admission <;> simp [BreakerSignal.ends]

namespace Breaker

variable {p : BreakerPolicy} {now : Nat} {b : Breaker} {sig : BreakerSignal}

theorem receive_state_of_ends (hb : b.state = .halfOpen) (h : sig.ends b.epoch = true) :
    (b.receive p now sig).state ≠ .halfOpen := by
  cases sig with
  | enter => cases h
  | success => simp [receive, recordSuccess_of_halfOpen hb]
  | failure => simp [receive, recordFailure_of_halfOpen hb]
  | abandon e =>
    obtain rfl : e = b.epoch := beq_iff_eq.mp h
    simp [receive, abandonTrial_of_current hb]
  | reset => simp [receive, reset]
  | nothing => cases h

/-- Other signals than these change nothing, callers who ask to be let through apart. -/
theorem receive_of_not_ends (he : sig ≠ .enter) (h : sig.ends b.epoch = false) :
    b.receive p now sig = b := by
  cases sig with
  | enter => exact absurd rfl he
  | success => cases h
  | failure => cases h
  | abandon e =>
    refine abandonTrial_of_not_current ?_
    rintro ⟨-, rfl⟩
    simp [BreakerSignal.ends] at h
  | reset => cases h
  | nothing => rfl

theorem receive_state_ne_halfOpen (hb : b.state ≠ .halfOpen) (he : sig ≠ .enter) :
    (b.receive p now sig).state ≠ .halfOpen := by
  cases sig with
  | enter => exact absurd rfl he
  | success =>
    simp only [receive, recordSuccess]
    split <;> simp_all
  | failure =>
    simp only [receive, recordFailure]
    split
    · simp
    · split <;> simp_all
    · simp_all
  | abandon e =>
    rw [receive, abandonTrial_of_not_current fun h => hb h.1]
    exact hb
  | reset => simp [receive, reset]
  | nothing => exact hb

theorem receive_enter_state (hb : b.state = .halfOpen) :
    (b.receive p now .enter).state = .halfOpen := by
  rw [receive, enter_of_halfOpen hb]
  split <;> exact hb

theorem receive_state_eq_halfOpen (he : sig ≠ .enter)
    (h : (b.receive p now sig).state = .halfOpen) :
    b.state = .halfOpen ∧ sig.ends b.epoch = false ∧ b.receive p now sig = b := by
  have hb : b.state = .halfOpen := by
    by_contra hb
    exact receive_state_ne_halfOpen hb he h
  have hs : sig.ends b.epoch = false := by
    by_contra hs
    exact receive_state_of_ends hb (by simpa using hs) h
  exact ⟨hb, hs, receive_of_not_ends he hs⟩

theorem receive_epoch (he : sig ≠ .enter) : (b.receive p now sig).epoch = b.epoch := by
  cases sig with
  | enter => exact absurd rfl he
  | success =>
    simp only [receive, recordSuccess]
    split <;> rfl
  | failure =>
    simp only [receive, recordFailure]
    split
    · rfl
    · split <;> rfl
    · rfl
  | abandon e =>
    simp only [receive, abandonTrial]
    split <;> rfl
  | reset => rfl
  | nothing => rfl

/-! ## Slots, failure times and the state -/

/-- Outside half-open periods no slot is taken, and an open breaker knows when it last failed. -/
structure Consistent (b : Breaker) : Prop where
  idle : b.state ≠ .halfOpen → b.halfOpenCalls = 0
  failed : b.state = .opened → b.lastFailure.isSome = true

theorem Consistent.receive (h : b.Consistent) (he : sig ≠ .enter) :
    (b.receive p now sig).Consistent := by
  obtain ⟨hidle, hfailed⟩ := h
  cases sig with
  | enter => exact absurd rfl he
  | success =>
    simp only [Breaker.receive, recordSuccess]
    split
    · exact ⟨fun _ => rfl, fun h => by simp at h⟩
    · exact ⟨hidle, hfailed⟩
    · exact ⟨hidle, hfailed⟩
  | failure =>
    simp only [Breaker.receive, recordFailure]
    split
    · exact ⟨fun _ => rfl, fun _ => rfl⟩
    · rename_i hs
      have hcalls : b.halfOpenCalls = 0 := hidle (by rw [hs]; decide)
      split
      · exact ⟨fun _ => hcalls, fun _ => rfl⟩
      · exact ⟨fun _ => hcalls, fun _ => rfl⟩
    · rename_i hs
      exact ⟨fun _ => hidle (by rw [hs]; decide), fun _ => rfl⟩
  | abandon e =>
    simp only [Breaker.receive, abandonTrial]
    split
    · exact ⟨fun _ => rfl, fun _ => rfl⟩
    · exact ⟨hidle, hfailed⟩
  | reset => exact ⟨fun _ => rfl, fun h => by simp [Breaker.receive, reset] at h⟩
  | nothing => exact ⟨hidle, hfailed⟩

end Breaker

theorem Permit.signal_ne (permit : Permit) (how : Settlement) :
    permit.signal how ≠ .enter ∧ permit.signal how ≠ .reset := by
  cases how with
  | success => simp [signal]
  | failure => simp [signal]
  | abandoned =>
    unfold signal
    cases permit.admission <;> simp

namespace Traffic

variable {p : BreakerPolicy} {s : Traffic} {e : BreakerEvent}

theorem signal_ne_enter (he : e ≠ .enter) : s.signal e ≠ .enter := by
  cases e with
  | enter => exact absurd rfl he
  | settle i how =>
    cases h : s.held[i]? with
    | none => simp [signal_settle_none h]
    | some permit =>
      rw [signal_settle h]
      exact (permit.signal_ne how).1
  | recordSuccess => simp [signal]
  | recordFailure => simp [signal]
  | reset => simp [signal]
  | wait ms => simp [signal]

theorem held_step_subset (he : e ≠ .enter) : (s.step p e).held ⊆ s.held := by
  cases e with
  | enter => exact absurd rfl he
  | settle i how =>
    cases h : s.held[i]? with
    | none => rw [step_settle_none h]; exact fun _ hm => hm
    | some permit => rw [step_settle h]; exact fun _ hm => List.mem_of_mem_eraseIdx hm
  | recordSuccess => exact fun _ hm => hm
  | recordFailure => exact fun _ hm => hm
  | reset => exact fun _ hm => hm
  | wait ms => exact fun _ hm => hm

/-! ## The age of permits -/

/-- Held permits are never ahead of the breaker, and those of its half-open period are trials. -/
structure Dated (s : Traffic) : Prop where
  le : ∀ permit ∈ s.held, permit.epoch ≤ s.breaker.epoch
  trial : s.breaker.state = .halfOpen →
    ∀ permit ∈ s.held, permit.epoch = s.breaker.epoch → permit.admission = .trial

/-- A new permit is as old as the breaker; a new half-open period leaves all others behind. -/
theorem Dated.enter {b : Breaker} {permit : Permit} (h : s.Dated)
    (hb : s.breaker.enter p s.now = (b, .ok permit)) :
    Dated { s with breaker := b, held := s.held ++ [permit] } := by
  obtain ⟨hs, rfl, rfl⟩ | ⟨hs, -, rfl, rfl⟩ | ⟨hs, -, -, rfl, rfl⟩ := Breaker.enter_eq_ok hb
  · refine ⟨List.forall_mem_append.mpr ⟨h.le, ?_⟩, fun hs' => ?_⟩
    · simp
    · rw [hs] at hs'
      cases hs'
  · refine ⟨List.forall_mem_append.mpr ⟨h.le, ?_⟩, fun _ =>
      List.forall_mem_append.mpr ⟨h.trial hs, ?_⟩⟩
    · simp
    · simp
  · refine ⟨List.forall_mem_append.mpr ⟨fun q hq => ?_, ?_⟩, fun _ =>
      List.forall_mem_append.mpr ⟨fun q hq hqe => ?_, ?_⟩⟩
    · exact Nat.le_succ_of_le (h.le q hq)
    · simp [Breaker.beginHalfOpen]
    · have hle := h.le q hq
      simp only [Breaker.beginHalfOpen] at hqe
      omega
    · simp

theorem Dated.step (h : s.Dated) (e : BreakerEvent) : (s.step p e).Dated := by
  by_cases he : e = .enter
  · subst he
    rcases hb : s.breaker.enter p s.now with ⟨b, why | permit⟩
    · rw [step_enter_error hb]
      obtain ⟨_, _, rfl, _⟩ | ⟨_, _, rfl, _⟩ | ⟨_, _, _, rfl, _⟩ := Breaker.enter_eq_error hb
      · exact h
      · exact h
      · refine ⟨fun q hq => Nat.le_succ_of_le (h.le q hq), fun _ q hq hqe => ?_⟩
        have hle := h.le q hq
        simp only [Breaker.beginHalfOpen] at hqe
        omega
    · rw [step_enter_ok hb]
      exact h.enter hb
  · have hsub := held_step_subset (p := p) (s := s) he
    have hsig := signal_ne_enter (s := s) he
    have hepoch : (s.step p e).breaker.epoch = s.breaker.epoch := by
      rw [breaker_step, Breaker.receive_epoch hsig]
    refine ⟨fun q hq => ?_, fun hs q hq hqe => ?_⟩
    · rw [hepoch]
      exact h.le q (hsub hq)
    · rw [breaker_step] at hs
      obtain ⟨hs, -, -⟩ := Breaker.receive_state_eq_halfOpen hsig hs
      exact h.trial hs q (hsub hq) (hqe.trans hepoch)

theorem dated_run (p : BreakerPolicy) (events : List BreakerEvent) : (run p events).Dated :=
  run_induction ⟨fun _ h => by simp at h, fun h => by simp at h⟩ (fun _ e h => h.step e) events

/-! ## Taken slots are held permits -/

/-- The trials of the breaker's half-open period whose calls have not ended. -/
def probes (s : Traffic) : Nat := s.held.countP (Permit.isTrialOf s.breaker.epoch)

/-- A half-open breaker has taken one slot for each of its trials, at least one and no more than
allowed; otherwise no slot is taken. An open breaker knows when it last failed. -/
structure Sound (p : BreakerPolicy) (s : Traffic) : Prop where
  slots : s.breaker.state = .halfOpen → s.breaker.halfOpenCalls = s.probes
  alive : s.breaker.state = .halfOpen → 1 ≤ s.probes
  bounded : s.breaker.state = .halfOpen → s.probes ≤ p.halfOpenMaxCalls
  consistent : s.breaker.Consistent

theorem countP_isTrialOf_of_lt {held : List Permit} {epoch : Nat}
    (h : ∀ q ∈ held, q.epoch < epoch) : held.countP (Permit.isTrialOf epoch) = 0 := by
  rw [List.countP_eq_zero]
  intro q hq hp
  have hlt := h q hq
  simp only [Permit.isTrialOf, Bool.and_eq_true, beq_iff_eq] at hp
  omega

/-- An end of a call that leaves the half-open period going is no end of one of its trials. -/
theorem probes_step (he : e ≠ .enter) (h : (s.signal e).ends s.breaker.epoch = false) :
    (s.step p e).held.countP (Permit.isTrialOf s.breaker.epoch) = s.probes := by
  cases e with
  | enter => exact absurd rfl he
  | settle i how =>
    cases hi : s.held[i]? with
    | none => rw [step_settle_none hi, probes]
    | some permit =>
      rw [signal_settle hi] at h
      have hprobe : ¬ permit.isTrialOf s.breaker.epoch = true := by
        intro ht
        rw [(permit.signal_ends_iff how _).mpr (.inr ht)] at h
        cases h
      obtain ⟨hlt, rfl⟩ := List.getElem?_eq_some_iff.mp hi
      rw [step_settle hi, probes, ← (List.getElem_cons_eraseIdx_perm hlt).countP_eq,
        List.countP_cons_of_neg hprobe]
  | recordSuccess => rfl
  | recordFailure => rfl
  | reset => rfl
  | wait ms => rfl

/-- Letting a call through takes one slot for it. -/
theorem Sound.enter {b : Breaker} {permit : Permit} (h : s.Sound p) (hd : s.Dated)
    (hb : s.breaker.enter p s.now = (b, .ok permit)) :
    Sound p { s with breaker := b, held := s.held ++ [permit] } := by
  obtain ⟨hs, rfl, rfl⟩ | ⟨hs, hlt, rfl, rfl⟩ | ⟨hs, -, hpos, rfl, rfl⟩ := Breaker.enter_eq_ok hb
  · have hne : s.breaker.state ≠ .halfOpen := by
      rw [hs]
      decide
    exact ⟨fun h' => absurd h' hne, fun h' => absurd h' hne, fun h' => absurd h' hne, h.consistent⟩
  · have hslots := h.slots hs
    have hprobes : probes ⟨s.now, { s.breaker with halfOpenCalls := s.breaker.halfOpenCalls + 1 },
        s.held ++ [⟨.trial, s.breaker.epoch⟩]⟩ = s.probes + 1 := by
      simp [probes, Permit.isTrialOf, List.countP_append]
    refine ⟨fun _ => ?_, fun _ => ?_, fun _ => ?_, ⟨fun h' => absurd hs h', fun h' => ?_⟩⟩
    · rw [hprobes, ← hslots]
    · rw [hprobes]
      omega
    · rw [hprobes, ← hslots]
      exact hlt
    · rw [hs] at h'
      cases h'
  · have hold : s.held.countP (Permit.isTrialOf (s.breaker.epoch + 1)) = 0 :=
      countP_isTrialOf_of_lt fun q hq => Nat.lt_succ_of_le (hd.le q hq)
    have hprobes : probes ⟨s.now, { s.breaker.beginHalfOpen with halfOpenCalls := 1 },
        s.held ++ [⟨.trial, s.breaker.epoch + 1⟩]⟩ = 1 := by
      change List.countP (Permit.isTrialOf (s.breaker.epoch + 1)) _ = 1
      rw [List.countP_append, hold]
      simp [Permit.isTrialOf]
    refine ⟨fun _ => hprobes.symm, fun _ => ?_, fun _ => ?_,
      ⟨fun h' => absurd rfl h', fun h' => ?_⟩⟩
    · exact Nat.le_of_eq hprobes.symm
    · rw [hprobes]
      exact hpos
    · cases h'

theorem Sound.step (hp : 1 ≤ p.halfOpenMaxCalls) (h : s.Sound p) (hd : s.Dated)
    (e : BreakerEvent) : (s.step p e).Sound p := by
  by_cases he : e = .enter
  · subst he
    rcases hb : s.breaker.enter p s.now with ⟨b, why | permit⟩
    · rw [step_enter_error hb]
      obtain ⟨_, _, rfl, _⟩ | ⟨_, _, rfl, _⟩ | ⟨_, _, hmax, _⟩ := Breaker.enter_eq_error hb
      · exact h
      · exact h
      · omega
    · rw [step_enter_ok hb]
      exact h.enter hd hb
  · have hsig := signal_ne_enter (s := s) he
    have hkept : (s.step p e).breaker.state = .halfOpen →
        s.breaker.state = .halfOpen ∧ (s.step p e).breaker = s.breaker ∧
          (s.step p e).probes = s.probes := by
      intro hs
      rw [breaker_step] at hs
      obtain ⟨hs, hends, hb⟩ := Breaker.receive_state_eq_halfOpen hsig hs
      have hbreaker : (s.step p e).breaker = s.breaker := by rw [breaker_step, hb]
      refine ⟨hs, hbreaker, ?_⟩
      rw [probes, hbreaker]
      exact probes_step he hends
    refine ⟨fun hs => ?_, fun hs => ?_, fun hs => ?_, ?_⟩
    · obtain ⟨hs, hb, hprobes⟩ := hkept hs
      rw [hb, hprobes]
      exact h.slots hs
    · obtain ⟨hs, -, hprobes⟩ := hkept hs
      rw [hprobes]
      exact h.alive hs
    · obtain ⟨hs, -, hprobes⟩ := hkept hs
      rw [hprobes]
      exact h.bounded hs
    · rw [breaker_step]
      exact h.consistent.receive hsig

theorem sound_run (hp : 1 ≤ p.halfOpenMaxCalls) (events : List BreakerEvent) :
    (run p events).Sound p := by
  have base : Sound p {} := by
    refine ⟨?_, ?_, ?_, ⟨fun _ => rfl, ?_⟩⟩
    all_goals
      intro h
      cases h
  have h : (run p events).Sound p ∧ (run p events).Dated :=
    run_induction (P := fun s => s.Sound p ∧ s.Dated) ⟨base, dated_run p []⟩
      (fun s e h => ⟨h.1.step hp h.2 e, h.2.step e⟩) events
  exact h.1

theorem step_settle_trial {i : Nat} {permit : Permit} (hs : s.breaker.state = .halfOpen)
    (hi : s.held[i]? = some permit) (ht : permit.isTrialOf s.breaker.epoch = true)
    (how : Settlement) : (s.step p (.settle i how)).breaker.state ≠ .halfOpen := by
  rw [breaker_step, signal_settle hi]
  exact Breaker.receive_state_of_ends hs ((permit.signal_ends_iff how _).mpr (.inr ht))

/-- **A half-open breaker never gets stuck and never lets too many trials through**: its slots are
those of the trials that callers hold, and while it refuses calls there is such a trial, whose end
moves it on. -/
theorem halfOpen_slots (p : BreakerPolicy) (hp : 1 ≤ p.halfOpenMaxCalls)
    (events : List BreakerEvent) :
    let s := run p events
    (s.breaker.state = .halfOpen → s.breaker.halfOpenCalls = s.probes ∧ 1 ≤ s.probes ∧
      s.probes ≤ p.halfOpenMaxCalls) ∧
    (s.breaker.state ≠ .halfOpen → s.breaker.halfOpenCalls = 0) ∧
    (s.breaker.state = .opened → s.breaker.lastFailure.isSome = true) ∧
    (∀ b why, s.breaker.state = .halfOpen → s.breaker.enter p s.now = (b, .error why) →
      ∃ i permit, s.held[i]? = some permit ∧ permit.isTrialOf s.breaker.epoch = true ∧
        ∀ how, (s.step p (.settle i how)).breaker.state ≠ .halfOpen) := by
  intro s
  have h : s.Sound p := sound_run hp events
  refine ⟨fun hs => ⟨h.slots hs, h.alive hs, h.bounded hs⟩, h.consistent.idle,
    h.consistent.failed, ?_⟩
  intro b why hs _
  obtain ⟨permit, hheld, ht⟩ := List.countP_pos_iff.mp (h.alive hs)
  obtain ⟨i, hi⟩ := List.getElem?_of_mem hheld
  exact ⟨i, permit, hi, ht, step_settle_trial hs hi ht⟩

/-- Two trials are under way and a third call is refused: there is a trial whose end moves the
breaker on. -/
theorem halfOpen_slots_two :
    let p : BreakerPolicy := ⟨1, 20, 2⟩
    let s := run p [.enter, .recordFailure, .wait 20, .enter, .enter]
    1 ≤ p.halfOpenMaxCalls ∧ s.breaker.state = .halfOpen ∧
    s.breaker.enter p s.now = (s.breaker, .error .probing) ∧
    s.breaker.halfOpenCalls = s.probes ∧ s.probes = 2 ∧
    ∃ i permit, s.held[i]? = some permit ∧ permit.isTrialOf s.breaker.epoch = true ∧
      ∀ how, (s.step p (.settle i how)).breaker.state ≠ .halfOpen := by
  intro p s
  have hp : 1 ≤ p.halfOpenMaxCalls := by decide
  obtain ⟨hslots, -, -, halive⟩ :=
    halfOpen_slots p hp [.enter, .recordFailure, .wait 20, .enter, .enter]
  have hs : s.breaker.state = .halfOpen := by decide
  have hrefused : s.breaker.enter p s.now = (s.breaker, .error .probing) := by decide
  exact ⟨hp, hs, hrefused, (hslots hs).1, by decide, halive s.breaker .probing hs hrefused⟩

end Traffic

end Switchboard
