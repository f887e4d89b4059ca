import Switchboard.Proofs.Collect.Answers

/-!
# Replies and deadlines

A deadline is noticed by whoever looks at the clock: a sweep, or the caller that waits. A reply does
not look at it, so one that meets a registration after its deadline is still counted if nobody has
looked in between.

* `Correspondence.ByDeadline` : an answer is made of replies on time, up to some slack;
  `LateFor` : a reply that comes later; `late_reply_counted` : it is counted;
* `Attended` : the clock goes no further past a deadline without an answer;
  `now_le_of_attended` : then nobody waits any longer;
* `answers_by_deadline_iff` : an answer is made of replies on time unless one came late;
* `sinceSweep`, `attended_of_swept` : sweeps at regular intervals are such attendance.
-/

namespace Switchboard

namespace Correspondence

/-- The replies of an answer came by the deadline or a little later, and so did the one that made it
complete, the last of them, if somebody was expected to reply and the answer is not timed out. -/
structure ByDeadline (slack : Nat) (r : Registration) (replies : List Receipt) (a : Collected) :
    Prop where
  counted : ∀ x ∈ replies, x.time ≤ r.start.deadline + slack
  completed : a.timedOut = false → r.start.expected ≠ [] →
    (r.start.receiveAll (replies.map (·.reply))).isComplete = true ∧
      ∃ x, replies.getLast? = some x ∧ x.time ≤ r.start.deadline + slack

/-- A reply meets a registration that still waits, later than that. -/
def LateFor (slack : Nat) (r : Registration) (m : Encounter Correspondence CollectorEvent) : Prop :=
  (∃ x, m.event = .reply r.start.requestId x) ∧ m.before.awaits r = true ∧
    r.start.deadline + slack < m.before.now

/-- Strategies speak of what arrived by the deadline. Yet a reply after 200 ms is counted where the
deadline was after 100 ms, as nobody looked at the clock in between. -/
theorem late_reply_counted :
    ¬ ∀ events, ∀ o ∈ (run events).obtained, ∀ r ∈ (run events).registered, r.pending = o.1 →
      ByDeadline 0 r (receipts r events) o.2 := by
  intro h
  let inTime : Query := ⟨"r", "plan", ["a"], .timeout, 100⟩
  let inFull : Query := ⟨"q", "plan", ["a"], .all, 100⟩
  let x : Reply := ⟨"a", .nat 1, false⟩
  let r : Registration := ⟨0, inTime.start 0⟩
  have hbound := h
    [.register inTime, .register inFull, .pass 200, .reply "r" x, .reply "q" x, .wait 0, .wait 0]
    (r.pending, (r.start.receiveAll [x]).conclude true) (by decide) r (by decide) rfl
  have hlate : 200 ≤ 100 := hbound.counted ⟨200, "r", x⟩ (by decide)
  exact absurd hlate (by decide)

variable {slack : Nat} {s : Correspondence} {r : Registration} {events : List CollectorEvent}
  {a : Collected}

theorem mem_receipts_iff {x : Receipt} :
    x ∈ receipts r events ↔ ∃ m ∈ history events, receiptFor? r m = some x :=
  List.mem_filterMap

theorem receipts_by_deadline_iff :
    (∀ x ∈ receipts r events, x.time ≤ r.start.deadline + slack) ↔
      ∀ m ∈ history events, ¬ LateFor slack r m := by
  constructor
  · rintro hreceipts ⟨s, e⟩ hm ⟨⟨x, hevent⟩, hawaits, hlate⟩
    have h := kept_of_mem_history hm
    obtain ⟨hr, col, hs⟩ := (awaits_iff h).mp hawaits
    have hcounted := receiptFor?_reply h hr hs x
    dsimp only at hevent
    rw [← hevent] at hcounted
    exact Nat.not_lt_of_le (hreceipts _ (mem_receipts_iff.mpr ⟨_, hm, hcounted⟩)) hlate
  · intro hnone x hx
    obtain ⟨m, hm, hcounted⟩ := mem_receipts_iff.mp hx
    have h := kept_of_mem_history hm
    obtain ⟨htaken, hid, hawaits⟩ := receiptFor?_eq_some h hcounted
    obtain ⟨hevent, htime, -⟩ := event_of_receipt? htaken
    by_contra hlate
    refine hnone m hm ⟨⟨x.reply, hid ▸ hevent⟩, (awaits_iff h).mpr hawaits, ?_⟩
    omega

theorem byDeadline_iff (hr : r ∈ (run events).registered)
    (ha : (run events).collector.standing r.handle = .answered a) :
    ByDeadline slack r (receipts r events) a ↔ ∀ m ∈ history events, ¬ LateFor slack r m := by
  rw [← receipts_by_deadline_iff]
  refine ⟨ByDeadline.counted, fun hcounted => ⟨hcounted, fun htimed hexpected => ?_⟩⟩
  have hafter := after_run events r hr
  rw [ha] at hafter
  cases hafter with
  | closed => cases htimed
  | idle _ hnone => exact absurd hnone hexpected
  | completed hreplied hcomplete =>
    have hne : receipts r events ≠ [] := by simpa using hreplied
    refine ⟨hcomplete, _, List.getLast?_eq_some_getLast hne, ?_⟩
    exact hcounted _ (List.getLast_mem hne)

/-! ## Looking at the clock in time -/

/-- As long as a registration waits, the clock goes no further past its deadline than the slack:
before that, somebody sees to its answer. -/
def Attended (slack : Nat) (events : List CollectorEvent) : Prop :=
  ∀ m ∈ history events, 0 < m.event.elapsed →
    ∀ r ∈ m.before.registered, m.before.awaits r = true →
      m.before.now + m.event.elapsed ≤ r.start.deadline + slack

instance (slack : Nat) (events : List CollectorEvent) : Decidable (Attended slack events) :=
  inferInstanceAs (Decidable (∀ m ∈ history events, _))

/-- Who waits after an event waited before it and was not closed by it, or was registered by it. -/
theorem awaits_step (h : s.Kept) {e : CollectorEvent} (hawaits : (s.step e).awaits r = true) :
    (s.awaits r = true ∧ ∃ col, s.collector.standing r.handle = .collecting col ∧
      (s.signal e).closes s.now col = false) ∨
    ∃ q, e = .register q ∧ r = ⟨s.collector.next, q.start s.now⟩ := by
  obtain ⟨hr, col, hs⟩ := (awaits_iff (h.step e)).mp hawaits
  by_cases hold : r ∈ s.registered
  · rcases collecting_step h hs with ⟨col', hs', -, hcloses⟩ | ⟨q, -, hk, -⟩
    · exact .inl ⟨(awaits_iff h).mpr ⟨hold, col', hs'⟩, col', hs', hcloses⟩
    · exact absurd hk (Nat.ne_of_lt (h.handle_lt hold))
  · exact .inr (eq_of_mem_registered_step hr hold)

theorem Attended.of_append {earlier later : List CollectorEvent}
    (h : Attended slack (earlier ++ later)) : Attended slack earlier := by
  intro m hm
  refine h m ?_
  rw [history, encounters_append]
  exact List.mem_append_left _ hm

/-- Nobody waits longer past its deadline than the slack. -/
theorem now_le_of_attended (hattended : Attended slack events) :
    ∀ r, (run events).awaits r = true → (run events).now ≤ r.start.deadline + slack := by
  induction events using List.reverseRecOn with
  | nil =>
    intro r hawaits
    simp [run, awaits] at hawaits
  | append_singleton events e ih =>
    intro r hawaits
    have h := kept_run events
    rw [run_concat] at hawaits ⊢
    rw [(frame_step _ _).1]
    rcases awaits_step h hawaits with ⟨hwaited, -⟩ | ⟨q, rfl, rfl⟩
    · -- who waited before can only be late if time passes, and then it is attended to
      rcases Nat.eq_zero_or_pos e.elapsed with hstill | hpasses
      · rw [hstill]
        exact ih hattended.of_append r hwaited
      · have hlast : (⟨run events, e⟩ : Encounter Correspondence CollectorEvent) ∈
            history (events ++ [e]) := by simp [history_concat]
        exact hattended _ hlast hpasses r ((awaits_iff h).mp hwaited).1 hwaited
    · simp only [CollectorEvent.elapsed, Collection.deadline, Query.start]
      omega

theorem not_lateFor_of_attended (hattended : Attended slack events) (r : Registration) :
    ∀ m ∈ history events, ¬ LateFor slack r m := by
  rintro m hm ⟨-, hawaits, hlate⟩
  obtain ⟨earlier, later, rfl, hbefore⟩ := mem_encounters_iff.mp hm
  change m.before = run earlier at hbefore
  rw [hbefore] at hawaits hlate
  exact Nat.not_lt_of_le (now_le_of_attended hattended.of_append r hawaits) hlate

/-- **What an answer owes to its deadline.** What a caller obtains is made of replies that came by
the deadline, up to some slack, exactly if no reply to its registration came later while that still
waited; which is so whenever each registration is seen to within that slack of its deadline. -/
theorem answers_by_deadline_iff (slack : Nat) (events : List CollectorEvent) :
    let s := run events
    (∀ o ∈ s.obtained, ∃ r ∈ s.registered, r.pending = o.1 ∧
      (∃ timedOut,
        o.2 = (r.start.receiveAll ((receipts r events).map (·.reply))).conclude timedOut) ∧
      (ByDeadline slack r (receipts r events) o.2 ↔ ∀ m ∈ history events, ¬ LateFor slack r m)) ∧
    (Attended slack events → ∀ r ∈ s.registered, ∀ m ∈ history events, ¬ LateFor slack r m) := by
  intro s
  refine ⟨fun o ho => ?_, fun hattended r _ => not_lateFor_of_attended hattended r⟩
  obtain ⟨r, hr, hpending, hanswer⟩ := exists_answered_of_obtained (kept_run events) ho
  exact ⟨r, hr, hpending, exists_conclude_of_answered hr hanswer, byDeadline_iff hr hanswer⟩

/-- A caller that waits until its deadline has only what came until then. -/
theorem by_deadline_of_caller :
    let events : List CollectorEvent :=
      [.register ⟨"r", "plan", ["a", "b"], .all, 100⟩, .pass 100, .reply "r" ⟨"a", .nat 1, false⟩,
        .wait 0, .pass 50, .reply "r" ⟨"b", .nat 2, false⟩]
    Attended 0 events ∧ (run events).obtained ≠ [] ∧
      ∀ o ∈ (run events).obtained, ∃ r ∈ (run events).registered, r.pending = o.1 ∧
        ByDeadline 0 r (receipts r events) o.2 := by
  intro events
  have hattended : Attended 0 events := by decide
  obtain ⟨hobtained, hnone⟩ := answers_by_deadline_iff 0 events
  refine ⟨hattended, by decide, fun o ho => ?_⟩
  obtain ⟨r, hr, hpending, -, hiff⟩ := hobtained o ho
  exact ⟨r, hr, hpending, hiff.mpr (hnone hattended r hr)⟩

/-! ## Sweeping at intervals -/

/-- The time since the last sweep, or from the first. -/
def sinceSweep (events : List CollectorEvent) : Nat :=
  events.foldl (fun t e => if e = .sweep then 0 else t + e.elapsed) 0

theorem sinceSweep_concat (events : List CollectorEvent) (e : CollectorEvent) :
    sinceSweep (events ++ [e]) = if e = .sweep then 0 else sinceSweep events + e.elapsed := by
  simp [sinceSweep]

/-- Who still waits past its deadline has not been swept since. -/
theorem now_le_sinceSweep (events : List CollectorEvent) :
    ∀ r, (run events).awaits r = true →
      (run events).now ≤ r.start.deadline + sinceSweep events := by
  induction events using List.reverseRecOn with
  | nil =>
    intro r hawaits
    simp [run, awaits] at hawaits
  | append_singleton events e ih =>
    intro r hawaits
    have h := kept_run events
    rw [run_concat] at hawaits ⊢
    rw [(frame_step _ _).1, sinceSweep_concat]
    rcases awaits_step h hawaits with ⟨hwaited, col, hs, hcloses⟩ | ⟨q, rfl, rfl⟩
    · have hdue := ih r hwaited
      split
      · -- the sweep left it, so its deadline is still to come
        rename_i he
        subst he
        have hafter := after_run events r ((awaits_iff h).mp hwaited).1
        rw [hs] at hafter
        obtain rfl := hafter.eq_of_collecting
        rw [CollectorSignal.closes_receiveAll] at hcloses
        have hnot : ¬ r.start.deadline ≤ (run events).now := by
          simpa [signal, CollectorSignal.closes] using hcloses
        simp only [CollectorEvent.elapsed]
        omega
      · omega
    · simp only [CollectorEvent.elapsed, Collection.deadline, Query.start]
      omega

/-- If a sweep comes at least every so often, nobody is kept longer than that past its deadline. -/
theorem attended_of_swept {interval : Nat}
    (hswept : ∀ earlier, earlier <+: events → sinceSweep earlier ≤ interval) :
    Attended interval events := by
  intro m hm hpasses r _ hawaits
  obtain ⟨earlier, later, heq, hbefore⟩ := mem_encounters_iff.mp hm
  change m.before = run earlier at hbefore
  have hinitial : earlier ++ [m.event] <+: events := ⟨later, by simp [heq]⟩
  have hsince := hswept _ hinitial
  have hnotsweep : m.event ≠ .sweep := by
    intro hsweep
    simp [hsweep, CollectorEvent.elapsed] at hpasses
  rw [sinceSweep_concat, if_neg hnotsweep] at hsince
  rw [hbefore] at hawaits ⊢
  have hle := now_le_sinceSweep earlier r hawaits
  omega

end Correspondence

end Switchboard
