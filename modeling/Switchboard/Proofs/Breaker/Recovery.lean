import Mathlib.Data.List.DropRight
import Switchboard.Proofs.Breaker.Slots

/-!
# When a breaker opens, and when it lets calls through again

Both are told from the history of a run, not from what the breaker remembers: it opens at the last
of so many failures in a row, and it refuses calls until the recovery time has passed since the
last trouble.

* `Traffic.failuresInARow` : the failures since the count last started anew;
* `Traffic.lastSinceReset?` : when something last happened since the breaker was last reset;
* `Traffic.Counted`, `Traffic.Remembered` : what the breaker remembers of them;
* `Traffic.opens_iff_and_recovers` : the two rules, for every run.
-/

namespace Switchboard

namespace Breaker

variable {p : BreakerPolicy} {now : Nat} {b : Breaker} {sig : BreakerSignal}

/-- Whatever comes of it, a caller who asks to be let through changes no count or time of failures,
and no state but that of an open breaker whose recovery time has passed. -/
theorem receive_enter (p : BreakerPolicy) (now : Nat) (b : Breaker) :
    (b.receive p now .enter).failureCount = b.failureCount ∧
    (b.receive p now .enter).lastFailure = b.lastFailure ∧
    ((b.receive p now .enter).state = b.state ∨
      (b.state = .opened ∧ b.refusalLeft p now = none ∧
        (b.receive p now .enter).state = .halfOpen)) := by
  change (b.enter p now).1.failureCount = _ ∧ (b.enter p now).1.lastFailure = _ ∧
    ((b.enter p now).1.state = _ ∨ _ ∧ _ ∧ (b.enter p now).1.state = _)
  rcases h : b.enter p now with ⟨b', why | permit⟩
  · obtain ⟨_, _, rfl, _⟩ | ⟨_, _, rfl, _⟩ | ⟨hs, hr, _, rfl, _⟩ := enter_eq_error h
    · exact ⟨rfl, rfl, .inl rfl⟩
    · exact ⟨rfl, rfl, .inl rfl⟩
    · exact ⟨rfl, rfl, .inr ⟨hs, hr, rfl⟩⟩
  · obtain ⟨_, rfl, _⟩ | ⟨_, _, rfl, _⟩ | ⟨hs, hr, _, rfl, _⟩ := enter_eq_ok h
    · exact ⟨rfl, rfl, .inl rfl⟩
    · exact ⟨rfl, rfl, .inl rfl⟩
    · exact ⟨rfl, rfl, .inr ⟨hs, hr, rfl⟩⟩

theorem receive_of_closed (hb : b.state = .closed) (hf : sig ≠ .failure) (hs : sig ≠ .success)
    (hr : sig ≠ .reset) : b.receive p now sig = b := by
  cases sig with
  | enter => rw [receive, enter_of_closed hb]
  | success => exact absurd rfl hs
  | failure => exact absurd rfl hf
  | abandon epoch =>
    refine abandonTrial_of_not_current fun h => ?_
    rw [hb] at h
    cases h.1
  | reset => exact absurd rfl hr
  | nothing => rfl

/-- Only a failure opens a closed breaker. -/
theorem receive_opens (hb : b.state = .closed) (h : (b.receive p now sig).state = .opened) :
    sig = .failure := by
  by_contra hf
  have hstays : (b.receive p now sig).state = .closed := by
    by_cases hs : sig = .success
    · rw [hs, receive, recordSuccess_of_closed hb]
      exact hb
    by_cases hr : sig = .reset
    · rw [hr]
      rfl
    rw [receive_of_closed hb hf hs hr]
    exact hb
  rw [hstays] at h
  cases h

theorem receive_failure_of_closed (p : BreakerPolicy) (now : Nat) (hb : b.state = .closed) :
    (b.receive p now .failure).failureCount = b.failureCount + 1 ∧
    ((b.receive p now .failure).state = .opened ↔ p.failureThreshold ≤ b.failureCount + 1) ∧
    ((b.receive p now .failure).state = .closed ↔ b.failureCount + 1 < p.failureThreshold) := by
  rw [receive, recordFailure_of_closed hb]
  refine ⟨rfl, ?_⟩
  dsimp only
  split
  · rename_i hle
    exact ⟨⟨fun _ => hle, fun _ => rfl⟩, ⟨fun h => (by cases h), fun h => (by omega)⟩⟩
  · rename_i hlt
    exact ⟨⟨fun h => (by cases h), fun h => (by omega)⟩, ⟨fun _ => by omega, fun _ => rfl⟩⟩

theorem receive_failure_ne_closed (hb : b.state ≠ .closed) :
    (b.receive p now .failure).state ≠ .closed := by
  rw [receive]
  obtain hs | hs | hs := b.state.trichotomy
  · exact absurd hs hb
  · rw [recordFailure_of_opened hs]
    exact hb
  · rw [recordFailure_of_halfOpen hs]
    simp

theorem receive_closes (hb : b.state ≠ .closed) (h : (b.receive p now sig).state = .closed) :
    (b.receive p now sig).failureCount = 0 := by
  cases sig with
  | enter =>
    obtain ⟨-, -, hs | ⟨-, -, hs⟩⟩ := receive_enter p now b
    · exact absurd (hs.symm.trans h) hb
    · rw [hs] at h
      cases h
  | success =>
    obtain hs | hs | hs := b.state.trichotomy
    · exact absurd hs hb
    · rw [receive, recordSuccess_of_opened hs] at h
      exact absurd h hb
    · rw [receive, recordSuccess_of_halfOpen hs]
  | failure =>
    obtain hs | hs | hs := b.state.trichotomy
    · exact absurd hs hb
    · rw [receive, recordFailure_of_opened hs] at h
      exact absurd h hb
    · rw [receive, recordFailure_of_halfOpen hs] at h
      cases h
  | abandon epoch =>
    simp only [receive, abandonTrial] at h
    split at h
    · cases h
    · exact absurd h hb
  | reset => rfl
  | nothing => exact absurd h hb

/-- Trouble: a failure, or a trial that is given up in its own half-open period. -/
def Troubled (b : Breaker) (sig : BreakerSignal) : Prop :=
  sig = .failure ∨ (b.state = .halfOpen ∧ sig = .abandon b.epoch)

instance (b : Breaker) (sig : BreakerSignal) : Decidable (b.Troubled sig) :=
  inferInstanceAs (Decidable (_ ∨ _))

theorem Troubled.receive (h : b.Troubled sig) (p : BreakerPolicy) (now : Nat) :
    (b.receive p now sig).lastFailure = some now ∧ (b.receive p now sig).state ≠ .halfOpen := by
  rcases h with rfl | ⟨hs, rfl⟩
  · rw [Breaker.receive]
    obtain hs | hs | hs := b.state.trichotomy
    · rw [recordFailure_of_closed hs]
      refine ⟨rfl, ?_⟩
      dsimp only
      split <;> decide
    · rw [recordFailure_of_opened hs]
      exact ⟨rfl, by simp [hs]⟩
    · rw [recordFailure_of_halfOpen hs]
      exact ⟨rfl, by simp⟩
  · rw [Breaker.receive, abandonTrial_of_current hs]
    exact ⟨rfl, by simp⟩

/-- Without trouble a breaker remembers the last one, unless it closes and forgets it; it becomes
half-open only after its recovery time. -/
theorem receive_of_not_troubled (h : ¬ b.Troubled sig) (p : BreakerPolicy) (now : Nat) :
    ((b.receive p now sig).lastFailure = b.lastFailure ∧
      ((b.receive p now sig).state = b.state ∨
        (b.state = .opened ∧ b.refusalLeft p now = none ∧
          (b.receive p now sig).state = .halfOpen))) ∨
    ((b.receive p now sig).lastFailure = none ∧ (b.receive p now sig).state = .closed) := by
  cases sig with
  | enter =>
    obtain ⟨-, hlast, hstate⟩ := receive_enter p now b
    exact .inl ⟨hlast, hstate⟩
  | success =>
    rw [receive]
    obtain hs | hs | hs := b.state.trichotomy
    · rw [recordSuccess_of_closed hs]
      exact .inl ⟨rfl, .inl rfl⟩
    · rw [recordSuccess_of_opened hs]
      exact .inl ⟨rfl, .inl rfl⟩
    · rw [recordSuccess_of_halfOpen hs]
      exact .inr ⟨rfl, rfl⟩
  | failure => exact absurd (.inl rfl) h
  | abandon epoch =>
    have hnot : ¬ (b.state = .halfOpen ∧ b.epoch = epoch) := by
      rintro ⟨hs, rfl⟩
      exact h (.inr ⟨hs, rfl⟩)
    rw [receive, abandonTrial_of_not_current hnot]
    exact .inl ⟨rfl, .inl rfl⟩
  | reset => exact .inr ⟨rfl, rfl⟩
  | nothing => exact .inl ⟨rfl, .inl rfl⟩

end Breaker

namespace Traffic

/-! ## Failures in a row -/

namespace Moment

def recordsFailure (m : Moment) : Bool := m.before.signal m.event == .failure

def recordsSuccess (m : Moment) : Bool := m.before.signal m.event == .success

def closes (p : BreakerPolicy) (m : Moment) : Bool :=
  m.before.breaker.state != .closed && (m.after p).breaker.state == .closed

/-- The count of failures starts anew: the breaker is reset, it closes, or it is closed and a
success is recorded. -/
def restartsCount (p : BreakerPolicy) (m : Moment) : Bool :=
  m.event == .reset || m.closes p || (m.before.breaker.state == .closed && m.recordsSuccess)

end Moment

/-- The failures that were recorded in a run since the count last started anew. -/
def failuresInARow (p : BreakerPolicy) (events : List BreakerEvent) : Nat :=
  ((history p events).rtakeWhile fun m => !m.restartsCount p).countP Moment.recordsFailure

variable {p : BreakerPolicy} {events : List BreakerEvent} {s : Traffic} {e : BreakerEvent}

theorem failuresInARow_of_restarts
    (h : Moment.restartsCount p ⟨run p events, e⟩ = true) :
    failuresInARow p (events ++ [e]) = 0 := by
  rw [failuresInARow, history_concat, List.rtakeWhile_concat_neg _ _ _ (by simp [h])]
  rfl

theorem failuresInARow_of_not_restarts
    (h : Moment.restartsCount p ⟨run p events, e⟩ = false) :
    failuresInARow p (events ++ [e]) =
      failuresInARow p events + if Moment.recordsFailure ⟨run p events, e⟩ then 1 else 0 := by
  rw [failuresInARow, history_concat, List.rtakeWhile_concat_pos _ _ _ (by simp [h]),
    List.countP_append, List.countP_singleton, failuresInARow]

theorem signal_eq_reset (h : s.signal e = .reset) : e = .reset := by
  cases e with
  | settle i how =>
    cases hi : s.held[i]? with
    | none =>
      rw [signal_settle_none hi] at h
      cases h
    | some permit =>
      rw [signal_settle hi] at h
      exact absurd h (permit.signal_ne how).2
  | reset => rfl
  | enter => cases h
  | recordSuccess => cases h
  | recordFailure => cases h
  | wait ms => cases h

theorem restartsCount_breaker (h : Moment.restartsCount p ⟨s, e⟩ = true) :
    (s.step p e).breaker.state = .closed ∧ (s.step p e).breaker.failureCount = 0 := by
  simp only [Moment.restartsCount, Moment.closes, Moment.recordsSuccess, Moment.after,
    Bool.or_eq_true, Bool.and_eq_true, beq_iff_eq, bne_iff_ne] at h
  obtain (rfl | ⟨hne, hs⟩) | ⟨hs, hsig⟩ := h
  · exact ⟨rfl, rfl⟩
  · refine ⟨hs, ?_⟩
    rw [breaker_step] at hs ⊢
    exact Breaker.receive_closes hne hs
  · rw [breaker_step, hsig, Breaker.receive, Breaker.recordSuccess_of_closed hs]
    exact ⟨hs, rfl⟩

/-- Where it does not and no failure is recorded, a closed breaker stays as it is, and another one
does not close. -/
theorem breaker_step_of_not_restarts (h : Moment.restartsCount p ⟨s, e⟩ = false)
    (hf : s.signal e ≠ .failure) :
    (s.breaker.state = .closed → (s.step p e).breaker = s.breaker) ∧
    (s.breaker.state ≠ .closed → (s.step p e).breaker.state ≠ .closed) := by
  simp only [Moment.restartsCount, Moment.closes, Moment.recordsSuccess, Moment.after,
    Bool.or_eq_false_iff, Bool.and_eq_false_iff, beq_eq_false_iff_ne, bne_eq_false_iff_eq] at h
  obtain ⟨⟨hreset, hcloses⟩, hsuccess⟩ := h
  constructor
  · intro hs
    have hns : s.signal e ≠ .success := by
      rcases hsuccess with hne | hns
      · exact absurd hs hne
      · exact hns
    rw [breaker_step]
    exact Breaker.receive_of_closed hs hf hns fun hr => hreset (signal_eq_reset hr)
  · intro hs
    rcases hcloses with hc | hne
    · exact absurd hc hs
    · exact hne

/-- A closed breaker counts the failures in a row and has not seen enough of them; any other
breaker has. -/
structure Counted (p : BreakerPolicy) (events : List BreakerEvent) : Prop where
  closed : (run p events).breaker.state = .closed →
    (run p events).breaker.failureCount = failuresInARow p events ∧
      failuresInARow p events < p.failureThreshold
  past : (run p events).breaker.state ≠ .closed → p.failureThreshold ≤ failuresInARow p events

theorem counted_of_restarts (hp : 1 ≤ p.failureThreshold)
    (hr : Moment.restartsCount p ⟨run p events, e⟩ = true) : Counted p (events ++ [e]) := by
  have hrow := failuresInARow_of_restarts hr
  obtain ⟨hs, hcount⟩ := restartsCount_breaker hr
  refine ⟨fun _ => ?_, fun hne => ?_⟩
  · rw [run_concat, hrow]
    exact ⟨hcount, hp⟩
  · rw [run_concat] at hne
    exact absurd hs hne

theorem counted_of_failure (h : Counted p events)
    (hr : Moment.restartsCount p ⟨run p events, e⟩ = false)
    (hf : (run p events).signal e = .failure) : Counted p (events ++ [e]) := by
  have hrow : failuresInARow p (events ++ [e]) = failuresInARow p events + 1 := by
    rw [failuresInARow_of_not_restarts hr, Moment.recordsFailure, hf]
    rfl
  have hb : (run p (events ++ [e])).breaker =
      (run p events).breaker.receive p (run p events).now .failure := by
    rw [run_concat, breaker_step, hf]
  by_cases hs : (run p events).breaker.state = .closed
  · obtain ⟨hcount, -⟩ := h.closed hs
    obtain ⟨hmore, -, hstays⟩ := Breaker.receive_failure_of_closed p (run p events).now hs
    refine ⟨fun h' => ?_, fun h' => ?_⟩
    · rw [hb] at h' ⊢
      have hlt := hstays.mp h'
      omega
    · rw [hb] at h'
      have hlt := mt hstays.mpr h'
      omega
  · have hpast := h.past hs
    refine ⟨fun h' => ?_, fun _ => by omega⟩
    rw [hb] at h'
    exact absurd h' (Breaker.receive_failure_ne_closed hs)

theorem counted_of_other (h : Counted p events)
    (hr : Moment.restartsCount p ⟨run p events, e⟩ = false)
    (hf : (run p events).signal e ≠ .failure) : Counted p (events ++ [e]) := by
  have hrow : failuresInARow p (events ++ [e]) = failuresInARow p events := by
    rw [failuresInARow_of_not_restarts hr, Moment.recordsFailure]
    simp [hf]
  obtain ⟨hkeep, hopen⟩ := breaker_step_of_not_restarts hr hf
  rw [← run_concat] at hkeep hopen
  by_cases hs : (run p events).breaker.state = .closed
  · refine ⟨fun _ => ?_, fun hne => ?_⟩
    · rw [hkeep hs, hrow]
      exact h.closed hs
    · rw [hkeep hs] at hne
      exact absurd hs hne
  · refine ⟨fun hc => absurd hc (hopen hs), fun _ => ?_⟩
    rw [hrow]
    exact h.past hs

theorem counted_concat (hp : 1 ≤ p.failureThreshold) (h : Counted p events) (e : BreakerEvent) :
    Counted p (events ++ [e]) := by
  cases hr : Moment.restartsCount p ⟨run p events, e⟩ with
  | true => exact counted_of_restarts hp hr
  | false =>
    by_cases hf : (run p events).signal e = .failure
    · exact counted_of_failure h hr hf
    · exact counted_of_other h hr hf

theorem counted_run (hp : 1 ≤ p.failureThreshold) (events : List BreakerEvent) :
    Counted p events := by
  induction events using List.reverseRecOn with
  | nil => exact ⟨fun _ => ⟨rfl, hp⟩, fun h => absurd rfl h⟩
  | append_singleton events e ih => exact counted_concat hp ih e

/-- A breaker opens at the last of so many failures in a row. -/
theorem opens_iff (hp : 1 ≤ p.failureThreshold) (events : List BreakerEvent) (e : BreakerEvent) :
    ((run p events).breaker.state = .closed ∧
        ((run p events).step p e).breaker.state = .opened) ↔
      Moment.recordsFailure ⟨run p events, e⟩ = true ∧
        failuresInARow p events + 1 = p.failureThreshold := by
  have h := counted_run hp events
  have hrecords : Moment.recordsFailure ⟨run p events, e⟩ = true ↔
      (run p events).signal e = .failure := beq_iff_eq
  rw [hrecords, breaker_step]
  constructor
  · rintro ⟨hs, ho⟩
    obtain ⟨hcount, hlt⟩ := h.closed hs
    have hf := Breaker.receive_opens hs ho
    rw [hf] at ho
    have hle := (Breaker.receive_failure_of_closed _ _ hs).2.1.mp ho
    exact ⟨hf, by omega⟩
  · rintro ⟨hf, hn⟩
    have hs : (run p events).breaker.state = .closed := by
      by_contra hne
      have hpast := h.past hne
      omega
    obtain ⟨hcount, -⟩ := h.closed hs
    rw [hf]
    exact ⟨hs, (Breaker.receive_failure_of_closed _ _ hs).2.1.mpr (by omega)⟩

/-! ## The last trouble -/

namespace Moment

/-- A failure is recorded, or a trial is given up in its own half-open period. -/
def troubles (m : Moment) : Bool := m.before.breaker.Troubled (m.before.signal m.event)

/-- A trial is given up, in its own half-open period or later. -/
def givesUpTrial (m : Moment) : Bool :=
  match m.before.signal m.event with
  | .abandon _ => true
  | _ => false

end Moment

/-- When something last happened since the breaker was last reset. -/
def lastSinceReset? (p : BreakerPolicy) (events : List BreakerEvent) (what : Moment → Bool) :
    Option Nat :=
  (((history p events).rtakeWhile fun m => m.event != .reset).filter what).getLast?.map
    fun m => m.before.now

theorem lastSinceReset?_of_pos {what : Moment → Bool} (he : e ≠ .reset)
    (h : what ⟨run p events, e⟩ = true) :
    lastSinceReset? p (events ++ [e]) what = some (run p events).now := by
  rw [lastSinceReset?, history_concat, List.rtakeWhile_concat_pos _ _ _ (by simp [he]),
    List.filter_append, List.filter_singleton, h, cond_true, List.getLast?_concat]
  rfl

theorem lastSinceReset?_of_neg {what : Moment → Bool} (he : e ≠ .reset)
    (h : what ⟨run p events, e⟩ = false) :
    lastSinceReset? p (events ++ [e]) what = lastSinceReset? p events what := by
  rw [lastSinceReset?, history_concat, List.rtakeWhile_concat_pos _ _ _ (by simp [he]),
    List.filter_append, List.filter_singleton, h, cond_false, List.append_nil, lastSinceReset?]

theorem now_le_step (p : BreakerPolicy) (s : Traffic) (e : BreakerEvent) :
    s.now ≤ (s.step p e).now := by
  cases e with
  | enter =>
    rcases h : s.breaker.enter p s.now with ⟨b, why | permit⟩
    · rw [step_enter_error h]
    · rw [step_enter_ok h]
  | settle i how =>
    cases h : s.held[i]? with
    | none => rw [step_settle_none h]
    | some permit => rw [step_settle h]
  | recordSuccess => exact le_rfl
  | recordFailure => exact le_rfl
  | reset => exact le_rfl
  | wait ms => exact Nat.le_add_right s.now ms

theorem now_le_run_concat (p : BreakerPolicy) (events : List BreakerEvent) (e : BreakerEvent) :
    (run p events).now ≤ (run p (events ++ [e])).now := by
  rw [run_concat]
  exact now_le_step p (run p events) e

/-- A breaker that is not closed remembers the last trouble, and a half-open one became so after
its recovery time. -/
structure Remembered (p : BreakerPolicy) (events : List BreakerEvent) : Prop where
  known : (run p events).breaker.state ≠ .closed →
    ∃ t, (run p events).breaker.lastFailure = some t ∧
      lastSinceReset? p events Moment.troubles = some t
  waited : (run p events).breaker.state = .halfOpen →
    ∀ t ∈ (run p events).breaker.lastFailure, t + p.recoveryTimeout ≤ (run p events).now
  past : ∀ t ∈ (run p events).breaker.lastFailure, t ≤ (run p events).now

theorem remembered_of_troubled
    (ht : (run p events).breaker.Troubled ((run p events).signal e)) :
    Remembered p (events ++ [e]) := by
  have he : e ≠ .reset := by
    rintro rfl
    rcases ht with hsig | ⟨-, hsig⟩
    · cases hsig
    · cases hsig
  obtain ⟨hlast, hstate⟩ := ht.receive p (run p events).now
  rw [← breaker_step, ← run_concat] at hlast hstate
  refine ⟨fun _ => ⟨(run p events).now, hlast, ?_⟩, fun hs => absurd hs hstate, fun t hmem => ?_⟩
  · exact lastSinceReset?_of_pos he (decide_eq_true ht)
  · obtain rfl : (run p events).now = t := Option.some.inj (hlast.symm.trans hmem)
    exact now_le_run_concat p events e

theorem remembered_of_not_troubled (h : Remembered p events)
    (ht : ¬ (run p events).breaker.Troubled ((run p events).signal e)) :
    Remembered p (events ++ [e]) := by
  have hnow := now_le_run_concat p events e
  have hkept := Breaker.receive_of_not_troubled ht p (run p events).now
  rw [← breaker_step, ← run_concat] at hkept
  obtain ⟨hlast, hstate⟩ | ⟨hlast, hclosed⟩ := hkept
  · refine ⟨fun hne => ?_, fun hs t hmem => ?_, fun t hmem => ?_⟩
    · have hne' : (run p events).breaker.state ≠ .closed := by
        rcases hstate with hs | ⟨hs, -, -⟩
        · rwa [hs] at hne
        · rw [hs]
          decide
      have he : e ≠ .reset := by
        rintro rfl
        exact hne (by rw [run_concat]; rfl)
      rw [hlast, lastSinceReset?_of_neg he (decide_eq_false ht)]
      exact h.known hne'
    · rw [hlast] at hmem
      rcases hstate with hsame | ⟨hs', hleft, -⟩
      · exact (h.waited (hsame.symm.trans hs) t hmem).trans hnow
      · have hrec := (Breaker.refusalLeft_eq_none_iff hs').mp hleft t hmem
        have hle := h.past t hmem
        omega
    · rw [hlast] at hmem
      exact (h.past t hmem).trans hnow
  · refine ⟨fun hne => absurd hclosed hne, fun hs => ?_, fun t hmem => ?_⟩
    · rw [hclosed] at hs
      cases hs
    · rw [hlast] at hmem
      cases hmem

theorem remembered_concat (h : Remembered p events) (e : BreakerEvent) :
    Remembered p (events ++ [e]) := by
  by_cases ht : (run p events).breaker.Troubled ((run p events).signal e)
  · exact remembered_of_troubled ht
  · exact remembered_of_not_troubled h ht

theorem remembered_run (p : BreakerPolicy) (events : List BreakerEvent) : Remembered p events := by
  induction events using List.reverseRecOn with
  | nil => exact ⟨fun h => absurd rfl h, fun h => (by cases h), fun _ h => (by cases h)⟩
  | append_singleton events e ih => exact remembered_concat ih e

theorem enter_ok_recovered {b : Breaker} {permit : Permit}
    (h : (run p events).breaker.enter p (run p events).now = (b, .ok permit)) :
    (run p events).breaker.state = .closed ∨
      permit.admission = .trial ∧ ∃ t, lastSinceReset? p events Moment.troubles = some t ∧
        t + p.recoveryTimeout ≤ (run p events).now := by
  have hr := remembered_run p events
  obtain ⟨hs, -, -⟩ | ⟨hs, -, -, rfl⟩ | ⟨hs, hleft, -, -, rfl⟩ := Breaker.enter_eq_ok h
  · exact .inl hs
  · obtain ⟨t, hlast, hknown⟩ := hr.known (by rw [hs]; decide)
    exact .inr ⟨rfl, t, hknown, hr.waited hs t hlast⟩
  · obtain ⟨t, hlast, hknown⟩ := hr.known (by rw [hs]; decide)
    have hrec := (Breaker.refusalLeft_eq_none_iff hs).mp hleft t hlast
    have hle := hr.past t hlast
    exact .inr ⟨rfl, t, hknown, by omega⟩

theorem breaker_step_of_late_abandon {s : Traffic} {e : BreakerEvent}
    (hg : Moment.givesUpTrial ⟨s, e⟩ = true) (ht : Moment.troubles ⟨s, e⟩ = false) :
    (s.step p e).breaker = s.breaker := by
  have hnot : ¬ s.breaker.Troubled (s.signal e) := of_decide_eq_false ht
  simp only [Moment.givesUpTrial] at hg
  split at hg
  · rename_i epoch hsig
    rw [breaker_step, hsig]
    refine Breaker.abandonTrial_of_not_current ?_
    rintro ⟨hs, rfl⟩
    exact hnot (.inr ⟨hs, hsig⟩)
  · cases hg

/-- **When a breaker opens and when it lets calls through.** It opens with the failure that makes
so many in a row. Unless it is closed it lets calls through as trials only, when the recovery time
has passed since the last failure, or since a trial was last given up in its own half-open period.
A trial that is given up later than that changes nothing. -/
theorem opens_iff_and_recovers (p : BreakerPolicy) (hp : 1 ≤ p.failureThreshold)
    (events : List BreakerEvent) :
    let s := run p events
    (∀ e, (s.breaker.state = .closed ∧ (s.step p e).breaker.state = .opened) ↔
      Moment.recordsFailure ⟨s, e⟩ = true ∧ failuresInARow p events + 1 = p.failureThreshold) ∧
    (∀ b permit, s.breaker.enter p s.now = (b, .ok permit) →
      s.breaker.state = .closed ∨
        permit.admission = .trial ∧ ∃ t, lastSinceReset? p events Moment.troubles = some t ∧
          t + p.recoveryTimeout ≤ s.now) ∧
    (∀ e, Moment.givesUpTrial ⟨s, e⟩ = true → Moment.troubles ⟨s, e⟩ = false →
      (s.step p e).breaker = s.breaker) := by
  intro s
  refine ⟨opens_iff hp events, fun b permit h => enter_ok_recovered h, ?_⟩
  exact fun e hg ht => breaker_step_of_late_abandon hg ht

/-- Two failures five milliseconds apart open a breaker, and twenty later a call is tried. -/
theorem opens_and_recovers_after_two :
    let p : BreakerPolicy := ⟨2, 20, 1⟩
    let calls : List BreakerEvent := [.enter, .enter, .settle 0 .failure, .wait 5]
    let later : List BreakerEvent := calls ++ [.settle 0 .failure, .wait 20]
    1 ≤ p.failureThreshold ∧
    ((run p calls).step p (.settle 0 .failure)).breaker.state = .opened ∧
    lastSinceReset? p later Moment.troubles = some 5 ∧ 5 + p.recoveryTimeout ≤ (run p later).now ∧
    (run p later).breaker.state = .opened := by
  intro p calls later
  have hp : 1 ≤ p.failureThreshold := by decide
  have hopens := ((opens_iff_and_recovers p hp calls).1 (.settle 0 .failure)).mpr (by decide)
  have hrecovers := (opens_iff_and_recovers p hp later).2.1
    { state := .halfOpen, failureCount := 2, lastFailure := some 5, halfOpenCalls := 1, epoch := 1 }
    ⟨.trial, 1⟩ (by decide)
  have hs : (run p later).breaker.state = .opened := by decide
  rcases hrecovers with hclosed | ⟨-, t, hlast, hle⟩
  · rw [hs] at hclosed
    cases hclosed
  · obtain rfl : t = 5 := Option.some.inj (hlast.symm.trans (by decide))
    exact ⟨hp, hopens.2, hlast, hle, hs⟩

/-- **A trial that is given up late does not put off the next one**: of two trials one fails and
reopens the breaker, the other is given up ten milliseconds later, and a new one starts twenty
after the failure, though not twenty after that. -/
theorem late_abandon_unnoticed :
    ¬ ∀ (p : BreakerPolicy) (events : List BreakerEvent) (b : Breaker) (permit : Permit),
      1 ≤ p.failureThreshold → (run p events).breaker.enter p (run p events).now = (b, .ok permit) →
      (run p events).breaker.state = .closed ∨
        permit.admission = .trial ∧
          ∃ t, lastSinceReset? p events (fun m => m.recordsFailure || m.givesUpTrial) = some t ∧
            t + p.recoveryTimeout ≤ (run p events).now := by
  intro h
  have hadmit := h ⟨1, 20, 2⟩ [.recordFailure, .wait 20, .enter, .enter, .settle 0 .failure,
      .wait 10, .settle 0 .abandoned, .wait 10]
    { state := .halfOpen, failureCount := 2, lastFailure := some 20, halfOpenCalls := 1, epoch := 2 }
    ⟨.trial, 2⟩ (by decide) (by decide)
  rcases hadmit with hclosed | ⟨-, t, hlast, hle⟩
  · revert hclosed
    decide
  · obtain rfl : t = 30 := Option.some.inj (hlast.symm.trans (by decide))
    revert hle
    decide

end Traffic

end Switchboard
