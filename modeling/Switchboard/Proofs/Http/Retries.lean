import Mathlib.Data.ENat.Lattice
import Switchboard.Http.Retry

/-!
# How long a request is tried

A request is sent until an exchange settles it or its retries are used up, whatever ends its
exchanges have and however long they take.

* `RetryPolicy.Settles` : the ends of an exchange that are not tried again;
  `RetryPolicy.settledAt` : the first such exchange;
* `RetryPolicy.sendTime` : when an attempt is sent; `RetryPolicy.attempt` : what it looks like;
* `RetryPolicy.Concludes` : what the last exchange makes of the request;
* `RetryPolicy.run_eq` : a run in one equation; `run_until_settled` : it goes on to the first
  exchange that settles the request, as far as the retries reach.
-/

namespace Switchboard

namespace RetryPolicy

variable {p : RetryPolicy} {request : HttpRequest} {exchange : Nat → Exchange × Nat}

/-! ## What is tried again -/

/-- The ends of an exchange after which a request is not sent again, whatever retries are left. -/
def Settles (p : RetryPolicy) : Exchange → Prop
  | .answered r => r.status ∉ p.retryOnStatusCodes
  | .timedOut _ => p.retryOnTimeout = false
  | .notConnected _ => p.retryOnConnectionError = false
  | .failed _ => True

theorem isRetryable_eq_false_iff {e : Exchange} : p.isRetryable e = false ↔ p.Settles e := by
  cases e <;> simp [isRetryable, retriesStatus, Settles]

theorem isRetryable_eq_true_iff {e : Exchange} : p.isRetryable e = true ↔ ¬ p.Settles e := by
  rw [← isRetryable_eq_false_iff, Bool.not_eq_false]

/-- The first exchange that settles the request; infinity if there is none. -/
noncomputable def settledAt (p : RetryPolicy) (exchange : Nat → Exchange × Nat) : ℕ∞ :=
  ⨅ (i : ℕ) (_ : p.Settles (exchange i).1), (i : ℕ∞)

/-- The retries end at the first exchange that settles the request, if they reach so far. -/
theorem eq_min_settledAt {last limit : ℕ} (hle : last ≤ limit)
    (hearlier : ∀ i < last, ¬ p.Settles (exchange i).1)
    (hlast : last < limit → p.Settles (exchange last).1) :
    (last : ℕ∞) = min (p.settledAt exchange) limit := by
  have hfirst : (last : ℕ∞) ≤ p.settledAt exchange :=
    le_iInf₂ fun i hi => Nat.cast_le.mpr (Nat.le_of_not_lt fun hlt => hearlier i hlt hi)
  refine le_antisymm (le_min hfirst (Nat.cast_le.mpr hle)) ?_
  rcases Nat.lt_or_eq_of_le hle with hlt | rfl
  · exact min_le_of_left_le (iInf₂_le last (hlast hlt))
  · exact min_le_right _ _

/-! ## A run in one equation -/

/-- How many of the retries that are left are used up from an attempt on. -/
def retriesFrom (p : RetryPolicy) (exchange : Nat → Exchange × Nat) : (left attempt : Nat) → Nat
  | 0, _ => 0
  | left + 1, attempt =>
    if p.isRetryable (exchange attempt).1 then retriesFrom p exchange left (attempt + 1) + 1 else 0

theorem retriesFrom_le (p : RetryPolicy) (exchange : Nat → Exchange × Nat) (left attempt : Nat) :
    p.retriesFrom exchange left attempt ≤ left := by
  induction left generalizing attempt with
  | zero => exact Nat.le_refl 0
  | succ left ih =>
    unfold retriesFrom
    split
    · exact Nat.succ_le_succ (ih _)
    · exact Nat.zero_le _

theorem not_settles_of_lt_retriesFrom {left attempt i : Nat}
    (hi : i < p.retriesFrom exchange left attempt) : ¬ p.Settles (exchange (attempt + i)).1 := by
  induction left generalizing attempt i with
  | zero => cases hi
  | succ left ih =>
    unfold retriesFrom at hi
    split at hi
    · rename_i hretry
      cases i with
      | zero => exact isRetryable_eq_true_iff.mp hretry
      | succ i =>
        rw [Nat.add_succ, ← Nat.succ_add]
        exact ih (Nat.lt_of_succ_lt_succ hi)
    · cases hi

theorem settles_of_retriesFrom_lt {left attempt : Nat}
    (hlt : p.retriesFrom exchange left attempt < left) :
    p.Settles (exchange (attempt + p.retriesFrom exchange left attempt)).1 := by
  induction left generalizing attempt with
  | zero => cases hlt
  | succ left ih =>
    unfold retriesFrom at hlt ⊢
    split
    · rename_i hretry
      rw [if_pos hretry] at hlt
      rw [Nat.add_succ, ← Nat.succ_add]
      exact ih (Nat.lt_of_succ_lt_succ hlt)
    · rename_i hretry
      exact isRetryable_eq_false_iff.mp (Bool.eq_false_iff.mpr hretry)

/-- When an attempt is sent: after the exchange before it and the pause, which ends at a whole
millisecond. -/
def sendTime (p : RetryPolicy) (exchange : Nat → Exchange × Nat) (now : Nat) : Nat → Nat
  | 0 => now
  | i + 1 => sendTime p exchange now i + (exchange i).2 + (p.delay i).ceilMillis

/-- An attempt of a request that was sent for the last time at attempt `last`: the request as it was
given, and the pause of the policy unless it is that last one. -/
def attempt (p : RetryPolicy) (request : HttpRequest) (exchange : Nat → Exchange × Nat)
    (now last i : Nat) : Attempt where
  request := request
  sentAt := p.sendTime exchange now i
  exchange := (exchange i).1
  pause := if i < last then some (p.delay i) else none

theorem runFrom_eq (p : RetryPolicy) (request : HttpRequest) (exchange : Nat → Exchange × Nat)
    (left now first : Nat) :
    let last := first + p.retriesFrom exchange left first
    p.runFrom request exchange left first (p.sendTime exchange now first) =
      { attempts := (List.range' first (last + 1 - first)).map (p.attempt request exchange now last)
        result := p.result request.url (last + 1) (exchange last).1
        endedAt := p.sendTime exchange now last + (exchange last).2 } := by
  induction left generalizing first with
  | zero => simp [runFrom, retriesFrom, attempt]
  | succ left ih =>
    unfold runFrom retriesFrom
    dsimp only
    split
    · have hrest := ih (first + 1)
      simp only [sendTime] at hrest
      rw [hrest]
      have hlast : first + 1 + p.retriesFrom exchange left (first + 1) =
          first + (p.retriesFrom exchange left (first + 1) + 1) := by omega
      simp only [hlast]
      generalize p.retriesFrom exchange left (first + 1) = used
      have hcount : first + (used + 1) + 1 - first = (first + (used + 1) + 1 - (first + 1)) + 1 := by
        omega
      rw [hcount, List.range'_succ, List.map_cons]
      simp [attempt]
    · simp [attempt]

theorem run_eq (p : RetryPolicy) (request : HttpRequest) (exchange : Nat → Exchange × Nat)
    (now : Nat) :
    let last := p.retriesFrom exchange p.maxRetries 0
    p.run request exchange now =
      { attempts := (List.range (last + 1)).map (p.attempt request exchange now last)
        result := p.result request.url (last + 1) (exchange last).1
        endedAt := p.sendTime exchange now last + (exchange last).2 } := by
  have h := p.runFrom_eq request exchange p.maxRetries now 0
  simp only [Nat.zero_add, Nat.sub_zero, ← List.range_eq_range'] at h
  exact h

theorem length_attempts (request : HttpRequest) (exchange : Nat → Exchange × Nat) (now : Nat) :
    (p.run request exchange now).attempts.length = p.retriesFrom exchange p.maxRetries 0 + 1 := by
  simp [run_eq]

theorem le_sendTime (exchange : Nat → Exchange × Nat) (now i : Nat) :
    now ≤ p.sendTime exchange now i := by
  induction i with
  | zero => exact Nat.le_refl now
  | succ i ih =>
    unfold sendTime
    omega

theorem le_endedAt (request : HttpRequest) (exchange : Nat → Exchange × Nat) (now : Nat) :
    now ≤ (p.run request exchange now).endedAt := by
  rw [run_eq]
  exact Nat.le_add_right_of_le (le_sendTime exchange now _)

/-! ## What comes of a request -/

/-- What the last exchange makes of a request that was sent so many times: the answer if its status
is not among those that are tried again, else the fault for the kind of its end. -/
inductive Concludes (p : RetryPolicy) (sent : Nat) : Exchange → Except Fault HttpResponse → Prop
  | answer {r : HttpResponse} (h : r.status ∉ p.retryOnStatusCodes) :
    Concludes p sent (.answered r) (.ok r)
  | status {r : HttpResponse} {text : String} {attempts : UInt32}
    (h : r.status ∈ p.retryOnStatusCodes) (hsent : attempts.toNat = sent) :
    Concludes p sent (.answered r) (.error
      (.unavailable text (some (if r.status = 429 then 60 else 30)) (some r.status) (some attempts)))
  | timeout {reason text : String} {attempts : UInt32} (hsent : attempts.toNat = sent) :
    Concludes p sent (.timedOut reason) (.error (.timeout text (some attempts)))
  | connection {reason text : String} {attempts : UInt32} (hsent : attempts.toNat = sent) :
    Concludes p sent (.notConnected reason) (.error (.unavailable text (some 60) none (some attempts)))
  | failure {reason text : String} :
    Concludes p sent (.failed reason) (.error (.network text))

theorem concludes_result {sent : Nat} (hsent : sent < UInt32.size) (url : String) (e : Exchange) :
    p.Concludes sent e (p.result url sent e) := by
  have hcount : (UInt32.ofNat sent).toNat = sent := UInt32.toNat_ofNat_of_lt' hsent
  cases e with
  | answered r =>
    rw [result]
    split
    · rename_i hstatus
      exact .status (by simpa [retriesStatus] using hstatus) hcount
    · rename_i hstatus
      exact .answer (by simpa [retriesStatus] using hstatus)
  | timedOut reason => exact .timeout hcount
  | notConnected reason => exact .connection hcount
  | failed reason => exact .failure

/-- **How long a request is tried.** It is sent up to the first exchange that settles it, as far as
the retries reach, with the pause of the policy after every attempt but the last; and what comes of
it is what the last exchange says. -/
theorem run_until_settled (p : RetryPolicy) (hretries : p.maxRetries < UInt32.size - 1)
    (request : HttpRequest) (exchange : Nat → Exchange × Nat) (now : Nat) :
    ∃ last : ℕ, (last : ℕ∞) = min (p.settledAt exchange) p.maxRetries ∧
      (p.run request exchange now).attempts =
        (List.range (last + 1)).map (p.attempt request exchange now last) ∧
      (p.run request exchange now).endedAt = p.sendTime exchange now last + (exchange last).2 ∧
      p.Concludes (last + 1) (exchange last).1 (p.run request exchange now).result := by
  have hle := p.retriesFrom_le exchange p.maxRetries 0
  refine ⟨p.retriesFrom exchange p.maxRetries 0, ?_, ?_⟩
  · refine eq_min_settledAt hle (fun i hi => ?_) fun hlt => ?_
    · simpa using not_settles_of_lt_retriesFrom hi
    · simpa using settles_of_retriesFrom_lt hlt
  · rw [run_eq]
    exact ⟨rfl, rfl, concludes_result (by omega) request.url _⟩

/-- A status that is tried again, a timeout that is tried again, and then nobody to answer where
that is not tried again: three of the six attempts are made. -/
theorem run_until_settled_third :
    let p : RetryPolicy :=
      { maxRetries := 5
        baseDelay := .ofMillis 10
        maxDelay := .ofMillis 50
        exponentialBase := 2.0
        retryOnTimeout := true
        retryOnConnectionError := false
        retryOnStatusCodes := [503] }
    let request := (HttpRequest.post "http://hue.local").withHeader "accept" "*/*"
    let exchange : Nat → Exchange × Nat
      | 0 => (.answered { status := 503 }, 4)
      | 1 => (.timedOut "slow", 30)
      | _ => (.notConnected "refused", 1)
    p.maxRetries < UInt32.size - 1 ∧
      (p.run request exchange 7).attempts.map (fun a => (a.request, a.pause)) =
        [(request, some (p.delay 0)), (request, some (p.delay 1)), (request, none)] ∧
      ∃ text attempts, (p.run request exchange 7).result =
        .error (.unavailable text (some 60) none (some attempts)) ∧ attempts.toNat = 3 := by
  intro p request exchange
  obtain ⟨last, hlast, hattempts, -, hresult⟩ := run_until_settled p (by decide) request exchange 7
  have hearlier : ∀ i < 2, ¬ p.Settles (exchange i).1
    | 0, _ => fun hsettles => hsettles (List.mem_singleton.mpr rfl)
    | 1, _ => Bool.noConfusion
  have hthird : ((2 : ℕ) : ℕ∞) = min (p.settledAt exchange) p.maxRetries :=
    eq_min_settledAt (by decide) hearlier fun _ => rfl
  obtain rfl : last = 2 := Nat.cast_injective (hlast.trans hthird.symm)
  refine ⟨by decide, ?_, ?_⟩
  · rw [hattempts]
    rfl
  · change p.Concludes 3 (.notConnected "refused") _ at hresult
    generalize (p.run request exchange 7).result = result at hresult ⊢
    cases hresult with
    | connection hsent => exact ⟨_, _, rfl, hsent⟩

end RetryPolicy

end Switchboard
