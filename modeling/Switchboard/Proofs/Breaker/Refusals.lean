import Mathlib.Algebra.Group.Nat.Defs
import Switchboard.Agent.Capable
import Switchboard.Breaker.Call
import Switchboard.Proofs.Breaker.Recovery
import Switchboard.Proofs.Flow.Courses

/-!
# What a refused call leaves behind, and when to come back

A call that a breaker refuses is not made, and leaves the breaker as it was. As long as the recovery
time lasts the caller is told how many seconds to wait: what is left, in whole seconds.

* `RetryAfter` : so many seconds may be told of so many milliseconds; `retryAfter_secondsUp`;
* `BreakerRegistry.get?_put_self`, `BreakerRegistry.call_of_refused` : calls through a breaker that
  has a name;
* `course_guarded_of_refused` : work behind a breaker;
* `NamedBreaker.Idle` : a refused call leaves all as it was; `NamedBreaker.idle_of_refused`;
* `Breaker.enter_while_open`, `Breaker.enter_after` : what an open breaker tells its callers, and
  what becomes of those who come later;
* `Traffic.refusals_idle_and_honest` : in every state that a breaker can come to.
-/

namespace Switchboard

/-! ## Whole seconds -/

/-- Some milliseconds are left, and whoever waits so many seconds does not wait in vain: they are
enough, at least one, and otherwise none of them could be spared. -/
structure RetryAfter (left seconds : Nat) : Prop where
  positive : 1 ≤ seconds
  enough : left ≤ 1000 * seconds
  spared : seconds = 1 ∨ 1000 * (seconds - 1) < left

theorem secondsUp_eq {ms : Nat} (h : ms < 2 ^ 40 * 1000) : secondsUp ms = (ms + 999) / 1000 := by
  have hshort : ms < Nat.pow 2 44 * 1000 := Nat.lt_trans h (by decide)
  rw [secondsUp, if_pos hshort]

theorem retryAfter_secondsUp {left : Nat} (h : left < 2 ^ 40 * 1000) :
    RetryAfter left (max (secondsUp left) 1) := by
  rw [secondsUp_eq h]
  constructor <;> omega

theorem secondsUp_le {ms : Nat} (h : ms < 2 ^ 40 * 1000) : secondsUp ms ≤ 2 ^ 40 := by
  rw [secondsUp_eq h]
  omega

/-! ## Calls by name -/

namespace NamedBreaker

variable {b b' : NamedBreaker} {now : Nat} {f : Fault}

theorem enter_eq_error (h : b.enter now = (b', .error f)) :
    ∃ why, b.breaker.enter b.policy now = (b'.breaker, .error why) ∧ f = why.fault b.name ∧
      b' = { b with breaker := b'.breaker } := by
  unfold enter at h
  rcases hentered : b.breaker.enter b.policy now with ⟨breaker, why | permit⟩
  · rw [hentered] at h
    cases h
    exact ⟨why, rfl, rfl, rfl⟩
  · rw [hentered] at h
    cases h

theorem enter_of_rejected {breaker : Breaker} {why : Rejection}
    (h : b.breaker.enter b.policy now = (breaker, .error why)) :
    b.enter now = ({ b with breaker }, .error (why.fault b.name)) := by
  simp [enter, h, Except.mapError]

end NamedBreaker

namespace BreakerRegistry

variable {r : BreakerRegistry} {name : String} {b : NamedBreaker} {now : Nat} {f : Fault}

theorem enter_of_get? (h : r.get? name = some b) (now : Nat) :
    r.enter name now = (r.put (b.enter now).1, (b.enter now).2) := by
  simp [enter, ensure, ensureWith, getD, h]

/-- Putting a breaker in its own place changes nothing. -/
theorem get?_put_self (h : r.get? b.name = some b) (other : String) :
    (r.put b).get? other = r.get? other := by
  have hname : ∀ old : NamedBreaker,
      (if old.name == b.name then b else old).name = old.name := by
    intro old
    split
    · rename_i hsame
      exact (eq_of_beq hsame).symm
    · rfl
  unfold get? put
  rw [List.find?_map]
  simp only [Function.comp_def, hname]
  cases hfind : r.breakers.find? (·.name == other) with
  | none => rfl
  | some old =>
    rw [Option.map_some]
    split
    -- several breakers of the name may be replaced, but the first of them is the one that was put
    · rename_i hsame
      have hother : other = b.name := by
        have hold : old.name = other := by simpa using List.find?_some hfind
        rw [← hold]
        simpa using hsame
      subst hother
      exact h.symm.trans hfind
    · rfl

/-- A refused call is not made, whatever its work is, and takes no time. -/
theorem call_of_refused {α : Type} {r' : BreakerRegistry} (h : r.enter name now = (r', .error f))
    (work : TimedCall α) (patience : Option Nat) :
    r.call name now work patience = (r', .refused f, now) := by
  simp [call, h]

end BreakerRegistry

/-- Refused work behind a breaker asks for nothing else, and ends with the fault. -/
theorem course_guarded_of_refused {α : Type} {agent : Nat} {capability : String}
    {work : Routine (Except Fault α)} {f : Fault} {xs : List Answered}
    {r : Routine (Except Fault α)}
    (h : (guarded agent capability work).Course (⟨.enter agent capability, .error f⟩ :: xs) r) :
    xs = [] ∧ r = .done (.error f) := by
  cases h with
  | go answer hrest =>
    have hdone : Routine.Course (.done (.error f)) xs r := hrest
    cases hdone
    exact ⟨rfl, rfl⟩

namespace NamedBreaker

/-- A refused call leaves all as it was. -/
structure Idle (b : NamedBreaker) (now : Nat) (f : Fault) : Prop where
  breaker : b.enter now = (b, .error f)
  /-- A call through the breaker is not made and takes no time, and all breakers stay. -/
  calls : ∀ r : BreakerRegistry, r.get? b.name = some b → ∃ r' : BreakerRegistry,
    (∀ other, r'.get? other = r.get? other) ∧
      ∀ {α : Type} (work : TimedCall α) (patience : Option Nat),
        r.call b.name now work patience = (r', .refused f, now)
  /-- Work that is told so has nothing else to ask, and ends with the fault. -/
  routines : ∀ {α : Type} (agent : Nat) (work : Routine (Except Fault α)) (xs : List Answered)
    (left : Routine (Except Fault α)),
    (guarded agent b.name work).Course (⟨.enter agent b.name, .error f⟩ :: xs) left →
      xs = [] ∧ left = .done (.error f)

variable {b b' : NamedBreaker} {now : Nat} {f : Fault}

theorem eq_of_refused (hp : 1 ≤ b.policy.halfOpenMaxCalls) (h : b.enter now = (b', .error f)) :
    b' = b := by
  obtain ⟨why, hentered, -, hb'⟩ := enter_eq_error h
  rw [Breaker.enter_eq_error_of_probes hp hentered] at hb'
  exact hb'

theorem idle_of_refused (h : b.enter now = (b, .error f)) : b.Idle now f where
  breaker := h
  calls := by
    intro r hget
    have hentered : r.enter b.name now = (r.put b, .error f) := by
      rw [BreakerRegistry.enter_of_get? hget, h]
    exact ⟨r.put b, BreakerRegistry.get?_put_self hget,
      fun work patience => BreakerRegistry.call_of_refused hentered work patience⟩
  routines := fun _ _ _ _ hcourse => course_guarded_of_refused hcourse

end NamedBreaker

/-! ## Open breakers -/

namespace Breaker

variable {p : BreakerPolicy} {b : Breaker} {now t left : Nat}

/-- What an open breaker tells its callers as long as its recovery time lasts. -/
theorem enter_while_open (hs : b.state = .opened) (hlast : b.lastFailure = some t)
    (hpast : t ≤ now) (hleft : 0 < left) (hend : now + left = t + p.recoveryTimeout) :
    b.enter p now = (b, .error (.opened (max (secondsUp left) 1))) := by
  have hearly : now - t < p.recoveryTimeout := by omega
  have hrest : p.recoveryTimeout - (now - t) = left := by omega
  refine enter_of_refusalLeft ?_
  simp only [refusalLeft, hs, hlast, if_pos hearly, hrest]

/-- After its recovery time an open breaker tries a call. -/
theorem enter_after (hp : 1 ≤ p.halfOpenMaxCalls) (hs : b.state = .opened)
    (hlast : b.lastFailure = some t) (hend : t + p.recoveryTimeout ≤ now) :
    b.enter p now = ({ b.beginHalfOpen with halfOpenCalls := 1 }, .ok ⟨.trial, b.epoch + 1⟩) := by
  have hnone : b.refusalLeft p now = none := by
    rw [refusalLeft_eq_none_iff hs, hlast]
    intro t' ht'
    obtain rfl := Option.some.inj ht'
    omega
  rw [enter_of_recovered hs hnone, if_neg (by omega)]

end Breaker

/-! ## In use -/

namespace Traffic

/-- **Refused calls leave no trace, and are told honestly when to come back.** Whenever a breaker
refuses a call, the call is not made and the breaker stays as it was. If it is open and some of its
recovery time is left, it tells its callers a number of seconds: at least one, at least what is
left, and less than a second more than that unless it is one; and if nothing else happens, who comes
back after as many seconds is let through as a trial. -/
theorem refusals_idle_and_honest (p : BreakerPolicy) (hp : 1 ≤ p.halfOpenMaxCalls)
    (hr : p.recoveryTimeout < 2 ^ 40 * 1000) (events : List BreakerEvent) (name : String) :
    let s := run p events
    let b : NamedBreaker := ⟨name, p, s.breaker⟩
    (∀ b' f, b.enter s.now = (b', .error f) → b' = b ∧ b.Idle s.now f ∧ s.step p .enter = s) ∧
    ∀ t left, s.breaker.state = .opened → s.breaker.lastFailure = some t → 0 < left →
      s.now + left = t + p.recoveryTimeout →
      ∃ f seconds, b.enter s.now = (b, .error f) ∧ f.retryAfter.map (·.toNat) = some seconds ∧
        RetryAfter left seconds ∧
        ∀ ms, 1000 * seconds ≤ ms →
          let later := s.step p (.wait ms)
          (later.breaker.enter p later.now).2 = .ok ⟨.trial, s.breaker.epoch + 1⟩ := by
  intro s b
  refine ⟨fun b' f h => ?_, fun t left hs hlast hleft hend => ?_⟩
  · obtain rfl := NamedBreaker.eq_of_refused hp h
    obtain ⟨why, hentered, -, -⟩ := NamedBreaker.enter_eq_error h
    exact ⟨rfl, NamedBreaker.idle_of_refused h, step_enter_error hentered⟩
  · have hpast : t ≤ s.now := (remembered_run p events).past t hlast
    have hshort : left < 2 ^ 40 * 1000 := by omega
    have hentered := Breaker.enter_while_open hs hlast hpast hleft hend
    have hhonest : RetryAfter left (max (secondsUp left) 1) := retryAfter_secondsUp hshort
    -- the fault carries the seconds in a word
    have hfits : max (secondsUp left) 1 < 2 ^ 64 := by
      have hle := secondsUp_le hshort
      omega
    refine ⟨_, _, NamedBreaker.enter_of_rejected hentered, ?_, hhonest, fun ms hms => ?_⟩
    · exact congrArg some (UInt64.toNat_ofNat_of_lt hfits)
    · have hover : t + p.recoveryTimeout ≤ s.now + ms := by
        have henough := hhonest.enough
        omega
      have htrial := Breaker.enter_after hp hs hlast hover
      exact congrArg Prod.snd htrial

/-- Of 1500 milliseconds 1100 are left: the callers are told two seconds. -/
theorem refused_for_two_seconds :
    let p : BreakerPolicy := ⟨1, 1500, 1⟩
    let s := run p [.recordFailure, .wait 400]
    1 ≤ p.halfOpenMaxCalls ∧ p.recoveryTimeout < 2 ^ 40 * 1000 ∧
      ∃ f, (⟨"search", p, s.breaker⟩ : NamedBreaker).Idle s.now f ∧ f.retryAfter = some 2 ∧
        (s.breaker.enter p (s.now + 2000)).2 = .ok ⟨.trial, 1⟩ := by
  intro p s
  have hp : 1 ≤ p.halfOpenMaxCalls := by decide
  have hr : p.recoveryTimeout < 2 ^ 40 * 1000 := by decide
  obtain ⟨hidle, hopen⟩ := refusals_idle_and_honest p hp hr [.recordFailure, .wait 400] "search"
  obtain ⟨f, seconds, hentered, htold, hhonest, hlater⟩ :=
    hopen 0 1100 (by decide) (by decide) (by decide) (by decide)
  have hseconds : seconds = 2 := by
    obtain ⟨hpositive, henough, hspared⟩ := hhonest
    omega
  subst hseconds
  obtain ⟨word, hword, htwo⟩ := Option.map_eq_some_iff.mp htold
  have hretry : f.retryAfter = some 2 := by
    rw [hword]
    exact congrArg some (UInt64.toNat_inj.mp htwo)
  exact ⟨hp, hr, f, (hidle _ f hentered).2.1, hretry, hlater 2000 (by decide)⟩

end Traffic

end Switchboard
