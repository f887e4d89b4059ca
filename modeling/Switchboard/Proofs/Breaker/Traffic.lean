import Mathlib.Data.List.Induction
import Switchboard.Breaker.Basic

/-!
# A breaker and its callers

Callers hold the permits they were given for as long as their calls take, so the end of a call may
reach the breaker in a later state than the one that let it through.

* `Breaker.enter_eq_ok`, `Breaker.enter_eq_error` : what letting a call through or refusing it does;
* `Breaker.recordSuccess_of_closed` and its like : what an outcome does in each state;
* `Traffic` : a breaker, the time and the permits that callers hold; `Traffic.step` : one event;
  `Traffic.run` : a whole run from a new breaker;
* `BreakerSignal` : what an event tells the breaker; `Traffic.breaker_step` : that is all it changes;
* `Traffic.history` : the moments of a run; `Traffic.exists_run_of_mem_history`.
-/

namespace Switchboard

/-! ## Letting calls through -/

theorem BreakerState.trichotomy (s : BreakerState) : s = .closed ∨ s = .opened ∨ s = .halfOpen := by
  cases s <;> simp

namespace Breaker

variable {p : BreakerPolicy} {now : Nat} {b : Breaker}

theorem refusalLeft_eq_none_iff (h : b.state = .opened) :
    b.refusalLeft p now = none ↔ ∀ t ∈ b.lastFailure, p.recoveryTimeout ≤ now - t := by
  unfold refusalLeft
  rw [h]
  cases b.lastFailure with
  | none => simp
  | some t => simp

theorem enter_of_closed (h : b.state = .closed) : b.enter p now = (b, .ok ⟨.normal, b.epoch⟩) := by
  have hr : b.refusalLeft p now = none := by simp [refusalLeft, h]
  simp [enter, hr, h]

theorem enter_of_halfOpen (h : b.state = .halfOpen) :
    b.enter p now =
      if p.halfOpenMaxCalls ≤ b.halfOpenCalls then (b, .error .probing)
      else ({ b with halfOpenCalls := b.halfOpenCalls + 1 }, .ok ⟨.trial, b.epoch⟩) := by
  have hr : b.refusalLeft p now = none := by simp [refusalLeft, h]
  simp [enter, hr, h]

theorem enter_of_refusalLeft {left : Nat} (h : b.refusalLeft p now = some left) :
    b.enter p now = (b, .error (.opened (max (secondsUp left) 1))) := by
  simp [enter, h]

theorem enter_of_recovered (h : b.state = .opened) (hr : b.refusalLeft p now = none) :
    b.enter p now =
      if p.halfOpenMaxCalls = 0 then (b.beginHalfOpen, .error .probing)
      else ({ b.beginHalfOpen with halfOpenCalls := 1 }, .ok ⟨.trial, b.epoch + 1⟩) := by
  simp [enter, hr, h, beginHalfOpen]

/-- A call is let through by a closed breaker, as one more trial of a half-open one, or as the
first trial of an open one whose recovery time has passed. -/
theorem enter_eq_ok {b' : Breaker} {permit : Permit} (h : b.enter p now = (b', .ok permit)) :
    (b.state = .closed ∧ b' = b ∧ permit = ⟨.normal, b.epoch⟩) ∨
    (b.state = .halfOpen ∧ b.halfOpenCalls < p.halfOpenMaxCalls ∧
      b' = { b with halfOpenCalls := b.halfOpenCalls + 1 } ∧ permit = ⟨.trial, b.epoch⟩) ∨
    (b.state = .opened ∧ b.refusalLeft p now = none ∧ 0 < p.halfOpenMaxCalls ∧
      b' = { b.beginHalfOpen with halfOpenCalls := 1 } ∧ permit = ⟨.trial, b.epoch + 1⟩) := by
  obtain hs | hs | hs := b.state.trichotomy
  · rw [enter_of_closed hs] at h
    cases h
    exact .inl ⟨hs, rfl, rfl⟩
  · cases hr : b.refusalLeft p now with
    | some left =>
      rw [enter_of_refusalLeft hr] at h
      cases h
    | none =>
      rw [enter_of_recovered hs hr] at h
      split at h
      · cases h
      · cases h
        exact .inr (.inr ⟨hs, rfl, by omega, rfl, rfl⟩)
  · rw [enter_of_halfOpen hs] at h
    split at h
    · cases h
    · cases h
      exact .inr (.inl ⟨hs, by omega, rfl, rfl⟩)

/-- A call is refused while the recovery time lasts, or while all trial calls are under way. -/
theorem enter_eq_error {b' : Breaker} {why : Rejection} (h : b.enter p now = (b', .error why)) :
    (∃ left, b.refusalLeft p now = some left ∧ b' = b ∧
      why = .opened (max (secondsUp left) 1)) ∨
    (b.state = .halfOpen ∧ p.halfOpenMaxCalls ≤ b.halfOpenCalls ∧ b' = b ∧ why = .probing) ∨
    (b.state = .opened ∧ b.refusalLeft p now = none ∧ p.halfOpenMaxCalls = 0 ∧
      b' = b.beginHalfOpen ∧ why = .probing) := by
  obtain hs | hs | hs := b.state.trichotomy
  · rw [enter_of_closed hs] at h
    cases h
  · cases hr : b.refusalLeft p now with
    | some left =>
      rw [enter_of_refusalLeft hr] at h
      cases h
      exact .inl ⟨left, rfl, rfl, rfl⟩
    | none =>
      rw [enter_of_recovered hs hr] at h
      split at h
      · cases h
        exact .inr (.inr ⟨hs, rfl, by assumption, rfl, rfl⟩)
      · cases h
  · rw [enter_of_halfOpen hs] at h
    split at h
    · cases h
      exact .inr (.inl ⟨hs, by assumption, rfl, rfl⟩)
    · cases h

/-- A breaker that tries calls at all is left as it was by the calls it refuses. -/
theorem enter_eq_error_of_probes {b' : Breaker} {why : Rejection} (hp : 1 ≤ p.halfOpenMaxCalls)
    (h : b.enter p now = (b', .error why)) : b' = b := by
  rcases enter_eq_error h with ⟨-, -, hb, -⟩ | ⟨-, -, hb, -⟩ | ⟨-, -, hnone, -⟩
  · exact hb
  · exact hb
  · omega

/-! ## Outcomes -/

theorem recordSuccess_of_closed (h : b.state = .closed) :
    b.recordSuccess = { b with failureCount := 0 } := by
  simp only [recordSuccess, h]

theorem recordSuccess_of_opened (h : b.state = .opened) : b.recordSuccess = b := by
  simp only [recordSuccess, h]

theorem recordSuccess_of_halfOpen (h : b.state = .halfOpen) :
    b.recordSuccess =
      { b with state := .closed, failureCount := 0, halfOpenCalls := 0, lastFailure := none } := by
  simp only [recordSuccess, h]

theorem recordFailure_of_closed (h : b.state = .closed) :
    b.recordFailure p now =
      { b with
        state := if p.failureThreshold ≤ b.failureCount + 1 then .opened else .closed
        failureCount := b.failureCount + 1
        lastFailure := some now } := by
  simp only [recordFailure, h]
  split <;> rfl

theorem recordFailure_of_opened (h : b.state = .opened) :
    b.recordFailure p now =
      { b with failureCount := b.failureCount + 1, lastFailure := some now } := by
  simp only [recordFailure, h]

theorem recordFailure_of_halfOpen (h : b.state = .halfOpen) :
    b.recordFailure p now =
      { b with
        state := .opened
        failureCount := b.failureCount + 1
        lastFailure := some now
        halfOpenCalls := 0 } := by
  simp only [recordFailure, h]

theorem abandonTrial_of_current (h : b.state = .halfOpen) :
    b.abandonTrial now b.epoch =
      { b with
        state := .opened
        failureCount := b.failureCount + 1
        lastFailure := some now
        halfOpenCalls := 0 } := by
  simp only [abandonTrial, h, and_self, if_true]

/-- A trial that is given up after its half-open period has ended changes nothing. -/
theorem abandonTrial_of_not_current {epoch : Nat} (h : ¬ (b.state = .halfOpen ∧ b.epoch = epoch)) :
    b.abandonTrial now epoch = b := by
  simp only [abandonTrial, if_neg h]

end Breaker

/-! ## Runs -/

/-- What callers do with a breaker, what is reported to it without a permit, and the passage of
time. -/
inductive BreakerEvent where
  /-- A caller asks to be let through. -/
  | enter
  /-- The call with the permit at this place ends. -/
  | settle (i : Nat) (how : Settlement)
  | recordSuccess
  | recordFailure
  | reset
  | wait (ms : Nat)
  deriving DecidableEq, Repr

/-- A breaker, the time, and the permits of the calls that have not ended. -/
structure Traffic where
  now : Nat := 0
  breaker : Breaker := {}
  held : List Permit := []
  deriving DecidableEq, Repr

namespace Traffic

/-- One event. The end of a call that nobody makes is no event. -/
def step (p : BreakerPolicy) (s : Traffic) : BreakerEvent → Traffic
  | .enter =>
    match s.breaker.enter p s.now with
    | (b, .ok permit) => { s with breaker := b, held := s.held ++ [permit] }
    | (b, .error _) => { s with breaker := b }
  | .settle i how =>
    match s.held[i]? with
    | some permit =>
      { s with breaker := s.breaker.settle p s.now permit how, held := s.held.eraseIdx i }
    | none => s
  | .recordSuccess => { s with breaker := s.breaker.recordSuccess }
  | .recordFailure => { s with breaker := s.breaker.recordFailure p s.now }
  | .reset => { s with breaker := s.breaker.reset }
  | .wait ms => { s with now := s.now + ms }

theorem step_enter_ok {p : BreakerPolicy} {s : Traffic} {b : Breaker} {permit : Permit}
    (h : s.breaker.enter p s.now = (b, .ok permit)) :
    s.step p .enter = { s with breaker := b, held := s.held ++ [permit] } := by
  simp only [step, h]

theorem step_enter_error {p : BreakerPolicy} {s : Traffic} {b : Breaker} {why : Rejection}
    (h : s.breaker.enter p s.now = (b, .error why)) :
    s.step p .enter = { s with breaker := b } := by
  simp only [step, h]

theorem step_settle {p : BreakerPolicy} {s : Traffic} {i : Nat} {permit : Permit}
    (h : s.held[i]? = some permit) (how : Settlement) :
    s.step p (.settle i how) =
      { s with breaker := s.breaker.settle p s.now permit how, held := s.held.eraseIdx i } := by
  simp only [step, h]

theorem step_settle_none {p : BreakerPolicy} {s : Traffic} {i : Nat} (h : s.held[i]? = none)
    (how : Settlement) : s.step p (.settle i how) = s := by
  simp only [step, h]

/-- A new breaker after some events, the first one first. -/
def run (p : BreakerPolicy) (events : List BreakerEvent) : Traffic := events.foldl (step p) {}

@[simp] theorem run_concat (p : BreakerPolicy) (events : List BreakerEvent) (e : BreakerEvent) :
    run p (events ++ [e]) = (run p events).step p e := by
  simp [run]

/-- What holds of a new breaker and is kept by every event holds after every run. -/
theorem run_induction {p : BreakerPolicy} {P : Traffic → Prop} (base : P {})
    (keep : ∀ s e, P s → P (s.step p e)) (events : List BreakerEvent) : P (run p events) := by
  induction events using List.reverseRecOn with
  | nil => exact base
  | append_singleton events e ih =>
    rw [run_concat]
    exact keep _ e ih

end Traffic

/-! ## What an event tells the breaker -/

/-- What an event tells a breaker. -/
inductive BreakerSignal where
  | enter
  | success
  | failure
  /-- A trial of this half-open period is given up. -/
  | abandon (epoch : Nat)
  | reset
  | nothing
  deriving DecidableEq, Repr

def Breaker.receive (p : BreakerPolicy) (now : Nat) (b : Breaker) : BreakerSignal → Breaker
  | .enter => (b.enter p now).1
  | .success => b.recordSuccess
  | .failure => b.recordFailure p now
  | .abandon epoch => b.abandonTrial now epoch
  | .reset => b.reset
  | .nothing => b

/-- What the end of a call tells: normal calls may be given up unnoticed. -/
def Permit.signal (permit : Permit) : Settlement → BreakerSignal
  | .success => .success
  | .failure => .failure
  | .abandoned =>
    match permit.admission with
    | .trial => .abandon permit.epoch
    | .normal => .nothing

theorem Breaker.settle_eq_receive (p : BreakerPolicy) (now : Nat) (permit : Permit)
    (how : Settlement) (b : Breaker) :
    b.settle p now permit how = b.receive p now (permit.signal how) := by
  cases how with
  | success => rfl
  | failure => rfl
  | abandoned =>
    unfold settle Permit.signal
    cases permit.admission <;> rfl

namespace Traffic

/-- What an event tells the breaker. -/
def signal (s : Traffic) : BreakerEvent → BreakerSignal
  | .enter => .enter
  | .settle i how =>
    match s.held[i]? with
    | some permit => permit.signal how
    | none => .nothing
  | .recordSuccess => .success
  | .recordFailure => .failure
  | .reset => .reset
  | .wait _ => .nothing

theorem signal_settle {s : Traffic} {i : Nat} {permit : Permit} (h : s.held[i]? = some permit)
    (how : Settlement) : s.signal (.settle i how) = permit.signal how := by
  simp only [signal, h]

theorem signal_settle_none {s : Traffic} {i : Nat} (h : s.held[i]? = none) (how : Settlement) :
    s.signal (.settle i how) = .nothing := by
  simp only [signal, h]

/-- An event changes the breaker by what it tells it. -/
theorem breaker_step (p : BreakerPolicy) (s : Traffic) (e : BreakerEvent) :
    (s.step p e).breaker = s.breaker.receive p s.now (s.signal e) := by
  cases e with
  | enter =>
    change _ = (s.breaker.enter p s.now).1
    rcases h : s.breaker.enter p s.now with ⟨b, why | permit⟩
    · rw [step_enter_error h]
    · rw [step_enter_ok h]
  | settle i how =>
    cases h : s.held[i]? with
    | none =>
      rw [step_settle_none h, signal_settle_none h]
      rfl
    | some permit =>
      rw [step_settle h, signal_settle h]
      exact Breaker.settle_eq_receive p s.now permit how s.breaker
  | recordSuccess => rfl
  | recordFailure => rfl
  | reset => rfl
  | wait ms => rfl

/-! ## Histories -/

/-- An event and the traffic it meets. -/
structure Moment where
  before : Traffic
  event : BreakerEvent
  deriving DecidableEq, Repr

def Moment.after (p : BreakerPolicy) (m : Moment) : Traffic := m.before.step p m.event

def historyFrom (p : BreakerPolicy) : Traffic → List BreakerEvent → List Moment
  | _, [] => []
  | s, e :: events => ⟨s, e⟩ :: historyFrom p (s.step p e) events

/-- The moments of a run from a new breaker, the first one first. -/
def history (p : BreakerPolicy) (events : List BreakerEvent) : List Moment :=
  historyFrom p {} events

theorem historyFrom_concat (p : BreakerPolicy) (s : Traffic) (events : List BreakerEvent)
    (e : BreakerEvent) :
    historyFrom p s (events ++ [e]) = historyFrom p s events ++ [⟨events.foldl (step p) s, e⟩] := by
  induction events generalizing s with
  | nil => rfl
  | cons e' events ih => simp [historyFrom, ih]

theorem history_concat (p : BreakerPolicy) (events : List BreakerEvent) (e : BreakerEvent) :
    history p (events ++ [e]) = history p events ++ [⟨run p events, e⟩] :=
  historyFrom_concat p {} events e

/-- Every moment of a run is the end of a shorter run. -/
theorem exists_run_of_mem_history {p : BreakerPolicy} {events : List BreakerEvent} {m : Moment}
    (h : m ∈ history p events) :
    ∃ earlier later, events = earlier ++ m.event :: later ∧ m.before = run p earlier := by
  induction events using List.reverseRecOn with
  | nil => cases h
  | append_singleton events e ih =>
    rw [history_concat, List.mem_append, List.mem_singleton] at h
    rcases h with h | rfl
    · obtain ⟨earlier, later, hevents, hbefore⟩ := ih h
      exact ⟨earlier, later ++ [e], by simp [hevents], hbefore⟩
    · exact ⟨events, [], rfl, rfl⟩

end Traffic

end Switchboard
