import Switchboard.Proofs.Collect.Answers
import Switchboard.Proofs.Collect.Strategies

/-!
# What a sweep leaves

A sweep passes the table twice: it answers what is overdue, and then it drops what is answered or
older than twice its timeout. The second pass meets nothing that still waits for its answer, since
twice a timeout is over after the timeout, also if that is zero.

* `CollectorEntry.isCurrent`, `isOverdue` : a collection that waits, before its deadline or after;
* `Collector.entries_sweep`, `results_sweep_eq`, `count_sweep` : what a sweep leaves, answers and
  counts;
* `Collector.result?_of_overdue`, `result?_of_not_overdue` : whose answer comes of it;
* `Collector.Sweeps`, `Collector.sweeps` : all that a sweep does;
* `Correspondence.exists_start` : registrations begin without replies;
* `Correspondence.sweeps_run` : what a sweep does at any time after any run.
-/

namespace Switchboard

/-- The collection has no answer and its deadline is still to come. -/
def CollectorEntry.isCurrent (now : Nat) (e : CollectorEntry) : Bool :=
  !e.resolved && decide (now < e.collection.deadline)

/-- The collection has no answer and its deadline has come. -/
def CollectorEntry.isOverdue (now : Nat) (e : CollectorEntry) : Bool :=
  !e.resolved && decide (e.collection.deadline ≤ now)

namespace Collector

variable {c : Collector} {now : Nat} {k : Nat}

/-! ## The two passes -/

/-- What the second pass keeps is current, and the first pass has left it alone. -/
theorem keeps_mark_iff (now : Nat) (e : CollectorEntry) :
    let e' := mark (·.collection.deadline ≤ now) e
    (!e'.resolved && decide (now < e'.collection.createdAt + 2 * e'.collection.timeout)) =
        e.isCurrent now ∧
      (e.isCurrent now = true → e' = e) := by
  obtain ⟨handle, col, resolved⟩ := e
  unfold mark CollectorEntry.isCurrent Collection.deadline
  cases resolved with
  | true => simp
  | false =>
    by_cases hdue : col.createdAt + col.timeout ≤ now
    · simp [hdue]
    -- who is not overdue is not older than twice its timeout either
    · have hearly : now < col.createdAt + col.timeout := Nat.lt_of_not_le hdue
      have hyoung : now < col.createdAt + 2 * col.timeout := by omega
      simp [hdue, hearly, hyoung]

theorem entries_sweep (now : Nat) (c : Collector) :
    (c.sweep now).1.entries = c.entries.filter (·.isCurrent now) := by
  change (c.entries.map (mark _)).filter _ = _
  rw [List.filter_map]
  have hkept : c.entries.filter ((fun e => !e.resolved &&
        decide (now < e.collection.createdAt + 2 * e.collection.timeout)) ∘
          mark (·.collection.deadline ≤ now)) = c.entries.filter (·.isCurrent now) :=
    List.filter_congr fun e _ => (keeps_mark_iff now e).1
  rw [hkept]
  refine (List.map_congr_left fun e he => ?_).trans (List.map_id _)
  exact (keeps_mark_iff now e).2 (List.of_mem_filter he)

theorem results_sweep_eq (now : Nat) (c : Collector) :
    (c.sweep now).1.results =
      c.results ++ (c.entries.filter (·.isOverdue now)).map (CollectorEntry.answer true) := by
  have hoverdue : (fun e : CollectorEntry => decide (e.collection.deadline ≤ now) && !e.resolved) =
      (·.isOverdue now) := funext fun e => Bool.and_comm _ _
  change c.results ++ (c.entries.filter _).map _ = _
  rw [hoverdue]

/-- What is dropped and what is left is what was there. -/
theorem count_sweep (now : Nat) (c : Collector) :
    (c.sweep now).2 + (c.sweep now).1.entries.length = c.entries.length := by
  have hle : (c.sweep now).1.entries.length ≤ c.entries.length := by
    rw [entries_sweep]
    exact List.length_filter_le _ _
  have hdropped : (c.sweep now).2 = c.entries.length - (c.sweep now).1.entries.length := by
    simp [sweep, resolveWhere]
  omega

/-- A table without overdue or answered collections stays as it is. -/
theorem sweep_of_current (h : ∀ e ∈ c.entries, e.isCurrent now = true) : c.sweep now = (c, 0) := by
  have hentries : (c.sweep now).1.entries = c.entries := by
    rw [entries_sweep]
    exact List.filter_eq_self.mpr h
  have hresults : (c.sweep now).1.results = c.results := by
    have hnone : c.entries.filter (·.isOverdue now) = [] := by
      refine List.filter_eq_nil_iff.mpr fun e he hover => ?_
      have hcurrent := h e he
      simp only [CollectorEntry.isCurrent, CollectorEntry.isOverdue, Bool.and_eq_true,
        decide_eq_true_eq] at hcurrent hover
      omega
    rw [results_sweep_eq, hnone]
    exact List.append_nil _
  have hcount := count_sweep now c
  have hdropped : (c.sweep now).2 = 0 := by
    rw [hentries] at hcount
    omega
  have htable : (c.sweep now).1 = c := by
    have hfields : (c.sweep now).1 =
        { c with entries := (c.sweep now).1.entries, results := (c.sweep now).1.results } := rfl
    rw [hfields, hentries, hresults]
  exact Prod.ext htable hdropped

/-! ## Answers -/

theorem result?_eq_standing (c : Collector) (k : Nat) :
    c.result? k = match c.standing k with
      | .answered a => some a
      | _ => none := by
  unfold standing
  cases c.result? k with
  | some a => rfl
  | none => cases c.entries.find? fun e => e.handle == k && !e.resolved <;> rfl

theorem result?_of_overdue (h : c.Sound) {e : CollectorEntry} (he : e ∈ c.entries)
    (hover : e.isOverdue now = true) :
    (c.sweep now).1.result? e.handle = some (e.collection.conclude true) := by
  rw [result?_eq_some_iff (h.sweep now), results_sweep_eq]
  exact List.mem_append_right _ (List.mem_map_of_mem (List.mem_filter.mpr ⟨he, hover⟩))

/-- Handles without an overdue collection have the answers that they had. -/
theorem result?_of_not_overdue (h : c.Sound)
    (hnot : ∀ e ∈ c.entries, e.handle = k → e.isOverdue now = false) :
    (c.sweep now).1.result? k = c.result? k := by
  have hsame : (c.sweep now).1.standing k = c.standing k := by
    rw [standing_sweep h]
    cases hs : c.standing k with
    | unknown => rfl
    | answered a => rfl
    | collecting col =>
      have hearly := hnot _ ((standing_eq_collecting_iff h).mp hs) rfl
      refine if_neg ?_
      simpa [CollectorEntry.isOverdue] using hearly
  rw [result?_eq_standing, result?_eq_standing, hsame]

/-- What is not left has its answer. -/
theorem exists_result_of_dropped (h : c.Sound) {e : CollectorEntry} (he : e ∈ c.entries)
    (hdropped : e ∉ (c.sweep now).1.entries) :
    ((c.sweep now).1.result? e.handle).isSome = true := by
  cases hover : e.isOverdue now with
  | true => rw [result?_of_overdue h he hover, Option.isSome_some]
  | false =>
    have hresolved : e.resolved = true := by
      by_contra hopen
      have hcurrent : e.isCurrent now = true := by
        simp only [CollectorEntry.isOverdue, CollectorEntry.isCurrent] at hover ⊢
        simp_all
      rw [entries_sweep] at hdropped
      exact hdropped (List.mem_filter.mpr ⟨he, hcurrent⟩)
    obtain ⟨⟨k, a⟩, hmem, hk⟩ := List.mem_map.mp ((h.resolved e he).mp hresolved)
    refine Option.isSome_iff_exists.mpr ⟨a, (result?_eq_some_iff (h.sweep now)).mpr ?_⟩
    rw [results_sweep_eq, ← hk]
    exact List.mem_append_left _ hmem

/-! ## All of it -/

/-- All that a sweep does. -/
structure Sweeps (now : Nat) (c : Collector) : Prop where
  /-- What is overdue is answered as timed out, with what it has. -/
  overdue : ∀ e ∈ c.entries, e.isOverdue now = true →
    (c.sweep now).1.result? e.handle = some (e.collection.conclude true)
  /-- Nobody else gets another answer. -/
  others : ∀ k, (∀ e ∈ c.entries, e.handle = k → e.isOverdue now = false) →
    (c.sweep now).1.result? k = c.result? k
  /-- The collections that may go on waiting are left, as they are and where they are. -/
  left : (c.sweep now).1.entries = c.entries.filter (·.isCurrent now)
  /-- What is dropped has its answer. -/
  dropped : ∀ e ∈ c.entries, e ∉ (c.sweep now).1.entries →
    ((c.sweep now).1.result? e.handle).isSome = true
  counted : (c.sweep now).2 + (c.sweep now).1.entries.length = c.entries.length
  /-- Another sweep at the same time does nothing. -/
  again : (c.sweep now).1.sweep now = ((c.sweep now).1, 0)

theorem sweeps (h : c.Sound) (now : Nat) : c.Sweeps now where
  overdue := fun _ he hover => result?_of_overdue h he hover
  others := fun _ hnot => result?_of_not_overdue h hnot
  left := entries_sweep now c
  dropped := fun _ he hdropped => exists_result_of_dropped h he hdropped
  counted := count_sweep now c
  again := by
    refine sweep_of_current fun e he => ?_
    rw [entries_sweep] at he
    exact List.of_mem_filter he

end Collector

/-! ## After a run -/

namespace Collected

/-- An answer of these replies that was given because time was up. -/
structure TimedOutWith (a : Collected) (replies : List Reply) : Prop where
  timedOut : a.timedOut = true
  received : a.receivedFrom = Reply.senders replies
  responses : a.responseCount = replies.countP (!·.isError)
  errors : a.errorCount = replies.countP (·.isError)

theorem timedOutWith (q : Query) (time : Nat) (replies : List Reply) :
    (((q.start time).receiveAll replies).conclude true).TimedOutWith replies := by
  rw [Collection.receiveAll_start]
  exact ⟨rfl, rfl, Reply.length_successes replies, Reply.length_errors replies⟩

end Collected

namespace Correspondence

variable {events : List CollectorEvent} {r : Registration}

/-- Registrations begin without replies. -/
theorem exists_start (hr : r ∈ (run events).registered) :
    ∃ q time, r.start = Query.start q time := by
  induction events using List.reverseRecOn with
  | nil => cases hr
  | append_singleton events e ih =>
    rw [run_concat] at hr
    by_cases hold : r ∈ (run events).registered
    · exact ih hold
    · obtain ⟨q, -, rfl⟩ := eq_of_mem_registered_step hr hold
      exact ⟨q, _, rfl⟩

/-- Who awaits an answer has an entry with all replies that were taken for it. -/
theorem mem_entries_of_awaits (hawaits : (run events).awaits r = true) :
    ⟨r.handle, r.start.receiveAll ((receipts r events).map (·.reply)), false⟩ ∈
      (run events).collector.entries := by
  have h := kept_run events
  obtain ⟨hr, col, hs⟩ := (awaits_iff h).mp hawaits
  have hafter := after_run events r hr
  rw [hs] at hafter
  obtain rfl := hafter.eq_of_collecting
  exact (Collector.standing_eq_collecting_iff h.sound).mp hs

/-- **What a sweep leaves.** After any run and at any time a sweep answers what is overdue, as timed
out and with what it has; it leaves the collections that may go on waiting, as they are, and drops
the others, all of which have their answer; it tells how many it dropped; and another sweep at the
same time does nothing. Of those who wait, it gives whoever is due the replies that were taken for
it, and lets the others wait on with theirs. -/
theorem sweeps_run (events : List CollectorEvent) (now : Nat) :
    let s := run events
    s.collector.Sweeps now ∧
    ∀ r ∈ s.registered, s.awaits r = true →
      let replies := (receipts r events).map (·.reply)
      let col := r.start.receiveAll replies
      if r.start.deadline ≤ now then
        (s.collector.sweep now).1.result? r.handle = some (col.conclude true) ∧
          (col.conclude true).TimedOutWith replies
      else ⟨r.handle, col, false⟩ ∈ (s.collector.sweep now).1.entries := by
  intro s
  have hsweeps : s.collector.Sweeps now := Collector.sweeps (kept_run events).sound now
  refine ⟨hsweeps, fun r hr hawaits => ?_⟩
  intro replies col
  have he : ⟨r.handle, col, false⟩ ∈ s.collector.entries := mem_entries_of_awaits hawaits
  have hdeadline : col.deadline = r.start.deadline := r.start.deadline_receiveAll replies
  split
  · rename_i hdue
    refine ⟨hsweeps.overdue _ he ?_, ?_⟩
    · simpa [CollectorEntry.isOverdue, hdeadline] using hdue
    · obtain ⟨q, time, hstart⟩ := exists_start hr
      have hwith := Collected.timedOutWith q time replies
      rwa [← hstart] at hwith
  · rename_i hearly
    rw [hsweeps.left]
    exact List.mem_filter.mpr ⟨he, by simpa [CollectorEntry.isCurrent, hdeadline] using hearly⟩

/-- One collection is due with one of two replies, one never had time to wait, and one goes on. -/
theorem sweeps_run_three :
    let events : List CollectorEvent :=
      [.register ⟨"r", "plan", ["a", "b"], .all, 100⟩, .reply "r" ⟨"a", .nat 1, false⟩,
        .register ⟨"z", "plan", ["a"], .first, 0⟩, .register ⟨"t", "plan", ["a"], .timeout, 101⟩]
    let c := (run events).collector
    let start := Query.start ⟨"r", "plan", ["a", "b"], .all, 100⟩ 0
    c.Sweeps 100 ∧ (c.sweep 100).2 = 2 ∧ (c.sweep 100).1.entries.map (·.handle) = [2] ∧
      (c.sweep 100).1.result? 0 = some ((start.receive ⟨"a", .nat 1, false⟩).conclude true) := by
  intro events c start
  obtain ⟨hsweeps, hwaiting⟩ := sweeps_run events 100
  have hreplies : (receipts ⟨0, start⟩ events).map (·.reply) = [⟨"a", .nat 1, false⟩] := by decide
  have hanswer := hwaiting ⟨0, start⟩ (by decide) (by decide)
  dsimp only at hanswer
  rw [if_pos (by decide), hreplies] at hanswer
  exact ⟨hsweeps, by decide, by decide, hanswer.1⟩

end Correspondence

end Switchboard
