import Switchboard.Proofs.Collect.Correspondence

/-!
# Whose replies an answer is made of

However requests, replies, sweeps and waits mix, a reply that is taken is taken for one registration,
and the answer of a registration is made of the replies that were taken for it, all of them, in the
order in which they came.

* `Correspondence.receipts` : the replies that were taken for a registration before it had an answer;
* `Standing.After` : how a registration can stand after these replies;
* `Correspondence.after_run` : how every registration stands after every run;
* `Correspondence.answers_from_own_replies` : each caller obtains one answer, of its own replies.
-/

namespace Switchboard

/-- A reply that was taken, and when. -/
structure Receipt where
  time : Nat
  requestId : String
  reply : Reply
  deriving DecidableEq

/-! ## Standings after replies -/

/-- How a registration can stand after replies: it still waits, or it was closed with what it has,
or the last reply completed it, or nobody was expected to reply. -/
inductive Standing.After (start : Collection) (replies : List Reply) : Standing → Prop
  | collecting : After start replies (.collecting (start.receiveAll replies))
  | closed : After start replies (.answered ((start.receiveAll replies).conclude true))
  | completed (hne : replies ≠ []) (hcomplete : (start.receiveAll replies).isComplete = true) :
      After start replies (.answered ((start.receiveAll replies).conclude false))
  | idle (hnone : replies = []) (hexpected : start.expected = []) :
      After start replies (.answered ((start.receiveAll replies).conclude false))

namespace Standing.After

variable {start : Collection} {replies : List Reply} {st : Standing} {col : Collection}
  {a : Collected}

theorem eq_of_collecting (h : After start replies (.collecting col)) :
    col = start.receiveAll replies := by
  cases h
  rfl

theorem exists_conclude (h : After start replies (.answered a)) :
    ∃ timedOut, a = (start.receiveAll replies).conclude timedOut := by
  cases h with
  | closed => exact ⟨true, rfl⟩
  | completed => exact ⟨false, rfl⟩
  | idle => exact ⟨false, rfl⟩

theorem answerWhere (h : After start replies st) (f : Collection → Bool) :
    After start replies (st.answerWhere true f) := by
  cases h with
  | collecting =>
    unfold Standing.answerWhere
    dsimp only
    split
    · exact .closed
    · exact .collecting
  | closed => exact .closed
  | completed hne hcomplete => exact .completed hne hcomplete
  | idle hnone hexpected => exact .idle hnone hexpected

/-- A reply to its request is one reply more, as long as the registration waits. -/
theorem receive (h : After start replies (.collecting col)) (r : Reply) :
    After start (replies ++ [r]) (Standing.receive start.requestId r (.collecting col)) := by
  obtain rfl := h.eq_of_collecting
  rw [Standing.receive, if_pos (by simp [Collection.requestId_receiveAll]),
    ← Collection.receiveAll_concat]
  split
  · exact .completed (by simp) (by assumption)
  · exact .collecting

/-- Any other reply is none of its business. -/
theorem receive_other (h : After start replies st) {requestId : String} (r : Reply)
    (hother : requestId ≠ start.requestId ∨ ∀ col, st ≠ .collecting col) :
    After start replies (st.receive requestId r) := by
  cases h with
  | collecting =>
    have hid : start.requestId ≠ requestId := by
      rcases hother with hne | hnone
      · exact hne.symm
      · exact absurd rfl (hnone _)
    rw [Standing.receive, if_neg (by simpa [Collection.requestId_receiveAll] using hid)]
    exact .collecting
  | closed => exact .closed
  | completed hne hcomplete => exact .completed hne hcomplete
  | idle hnone hexpected => exact .idle hnone hexpected

/-- What is no reply leaves the replies as they are. -/
theorem hear (h : After start replies st) (now : Nat) {sig : CollectorSignal}
    (hsig : ∀ requestId r, sig ≠ .reply requestId r) : After start replies (st.hear now sig) := by
  cases sig with
  | reply requestId r => exact absurd rfl (hsig requestId r)
  | close requestId => exact h.answerWhere _
  | sweep => exact h.answerWhere _
  | nothing => exact h

end Standing.After

theorem Query.standing_after (q : Query) (now : Nat) :
    Standing.After (q.start now) [] (q.standing now) := by
  unfold Query.standing
  split
  · rename_i hempty
    exact .idle rfl (List.isEmpty_iff.mp hempty)
  · exact .collecting

namespace Correspondence

/-- The moments of a run from a new collector, the first one first. -/
def history (events : List CollectorEvent) : List (Encounter Correspondence CollectorEvent) :=
  encounters step {} events

/-- The reply that is taken at a moment. -/
def receipt? (m : Encounter Correspondence CollectorEvent) : Option Receipt :=
  match m.event with
  | .reply requestId r =>
    if (m.before.collector.receive requestId r).2 then some ⟨m.before.now, requestId, r⟩ else none
  | _ => none

/-- The registration is there and has no answer yet. -/
def awaits (s : Correspondence) (r : Registration) : Bool :=
  decide (r ∈ s.registered) && (s.collector.result? r.handle).isNone

/-- The reply that is taken for a registration at a moment: one to its request, after it was
registered and before it has an answer. -/
def receiptFor? (r : Registration) (m : Encounter Correspondence CollectorEvent) :
    Option Receipt :=
  (receipt? m).filter fun x => x.requestId == r.start.requestId && m.before.awaits r

/-- The replies that were taken for a registration, the first one first. -/
def receipts (r : Registration) (events : List CollectorEvent) : List Receipt :=
  (history events).filterMap (receiptFor? r)

variable {s : Correspondence} {r : Registration} {events : List CollectorEvent}

theorem history_concat (events : List CollectorEvent) (e : CollectorEvent) :
    history (events ++ [e]) = history events ++ [⟨run events, e⟩] := by
  rw [history, encounters_append]
  rfl

theorem receipts_concat (r : Registration) (events : List CollectorEvent) (e : CollectorEvent) :
    receipts r (events ++ [e]) = receipts r events ++ (receiptFor? r ⟨run events, e⟩).toList := by
  rw [receipts, history_concat, List.filterMap_append]
  cases h : receiptFor? r ⟨run events, e⟩ <;> simp [receipts, h]

/-! ## Registrations stay -/

/-- Whom an event registers. -/
def newcomers (s : Correspondence) : CollectorEvent → List Registration
  | .register q => [⟨s.collector.next, q.start s.now⟩]
  | _ => []

theorem frame_step (s : Correspondence) (e : CollectorEvent) :
    (s.step e).now = s.now + e.elapsed ∧
      (s.step e).registered = s.registered ++ s.newcomers e := by
  cases e with
  | wait i =>
    simp only [step]
    split
    · split <;> simp [newcomers, CollectorEvent.elapsed]
    · simp [newcomers, CollectorEvent.elapsed]
  | lapse i =>
    simp only [step]
    split
    · split <;> simp [newcomers, CollectorEvent.elapsed]
    · simp [newcomers, CollectorEvent.elapsed]
  | close i =>
    simp only [step]
    split <;> simp [newcomers, CollectorEvent.elapsed]
  | _ => simp [step, newcomers, CollectorEvent.elapsed]

theorem registered_subset_step (s : Correspondence) (e : CollectorEvent) :
    s.registered ⊆ (s.step e).registered := by
  rw [(frame_step s e).2]
  exact List.subset_append_left _ _

theorem eq_of_mem_registered_step {e : CollectorEvent} (hr : r ∈ (s.step e).registered)
    (hnew : r ∉ s.registered) :
    ∃ q, e = .register q ∧ r = ⟨s.collector.next, q.start s.now⟩ := by
  rw [(frame_step s e).2] at hr
  rcases List.mem_append.mp hr with hold | hlast
  · exact absurd hold hnew
  · cases e with
    | register q => exact ⟨q, rfl, List.mem_singleton.mp hlast⟩
    | _ => cases hlast

theorem registered_run_append (earlier later : List CollectorEvent) :
    (run earlier).registered ⊆ (run (earlier ++ later)).registered := by
  induction later using List.reverseRecOn with
  | nil => simp
  | append_singleton later e ih =>
    rw [← List.append_assoc, run_concat]
    exact List.Subset.trans ih (registered_subset_step _ e)

theorem registered_of_mem_history {m : Encounter Correspondence CollectorEvent}
    (hm : m ∈ history events) : m.before.registered ⊆ (run events).registered := by
  obtain ⟨earlier, later, rfl, hbefore⟩ := mem_encounters_iff.mp hm
  rw [hbefore]
  exact registered_run_append earlier _

theorem kept_of_mem_history {m : Encounter Correspondence CollectorEvent}
    (hm : m ∈ history events) : m.before.Kept := by
  obtain ⟨earlier, later, -, hbefore⟩ := mem_encounters_iff.mp hm
  rw [hbefore]
  exact kept_run earlier

/-! ## Replies and registrations -/

theorem awaits_iff (h : s.Kept) :
    s.awaits r = true ↔
      r ∈ s.registered ∧ ∃ col, s.collector.standing r.handle = .collecting col := by
  unfold awaits
  rw [Bool.and_eq_true, decide_eq_true_iff]
  refine and_congr_right fun hr => ?_
  cases hs : s.collector.standing r.handle with
  | unknown => exact absurd hs ((Collector.standing_ne_unknown_iff h.sound).mpr (h.handle_lt hr))
  | answered a => simp [Collector.result?_of_answered h.sound hs]
  | collecting col => simp [Collector.result?_of_collecting h.sound hs]

/-- A reply is taken for the registration of its request that waits. -/
theorem receiptFor?_reply (h : s.Kept) (hr : r ∈ s.registered) {col : Collection}
    (hs : s.collector.standing r.handle = .collecting col) (x : Reply) :
    receiptFor? r ⟨s, .reply r.start.requestId x⟩ = some ⟨s.now, r.start.requestId, x⟩ := by
  have hid := h.requests r hr col hs
  have haccepts : (s.collector.receive r.start.requestId x).2 = true :=
    (Collector.receive_accepts_iff h.sound).mpr ⟨_, col, hs, hid⟩
  simp [receiptFor?, receipt?, haccepts, (awaits_iff h).mpr ⟨hr, col, hs⟩]

theorem receiptFor?_eq_none (h : s.Kept) {requestId : String} (x : Reply)
    (hother : requestId ≠ r.start.requestId ∨ ∀ col, s.collector.standing r.handle ≠ .collecting col) :
    receiptFor? r ⟨s, .reply requestId x⟩ = none := by
  have hno : ¬ (requestId = r.start.requestId ∧ s.awaits r = true) := by
    rintro ⟨hid, hawaits⟩
    obtain ⟨-, col, hs⟩ := (awaits_iff h).mp hawaits
    rcases hother with hne | hnone
    · exact hne hid
    · exact hnone col hs
  unfold receiptFor? receipt?
  dsimp only
  split
  · simpa using hno
  · rfl

theorem receiptFor?_of_ne_reply {e : CollectorEvent} (he : ∀ requestId x, e ≠ .reply requestId x) :
    receiptFor? r ⟨s, e⟩ = none := by
  unfold receiptFor? receipt?
  cases e with
  | reply requestId x => exact absurd rfl (he requestId x)
  | _ => rfl

/-- A registration that comes later has had no replies. -/
theorem receipts_of_not_registered (hr : r ∉ (run events).registered) : receipts r events = [] := by
  refine List.filterMap_eq_nil_iff.mpr fun m hm => ?_
  have hnot : r ∉ m.before.registered := fun hmem => hr (registered_of_mem_history hm hmem)
  simp [receiptFor?, awaits, hnot]

/-! ## Every registration after every run -/

theorem after_step (h : (run events).Kept) (hr : r ∈ (run events).registered)
    (hafter : Standing.After r.start ((receipts r events).map (·.reply))
      ((run events).collector.standing r.handle)) (e : CollectorEvent) :
    Standing.After r.start ((receipts r (events ++ [e])).map (·.reply))
      ((run (events ++ [e])).collector.standing r.handle) := by
  rw [receipts_concat, run_concat, standing_step h e (h.handle_lt hr)]
  by_cases hreply : ∃ requestId x, e = .reply requestId x
  · obtain ⟨requestId, x, rfl⟩ := hreply
    change Standing.After _ _ (Standing.receive requestId x _)
    by_cases hown : requestId = r.start.requestId ∧
        ∃ col, (run events).collector.standing r.handle = .collecting col
    · obtain ⟨rfl, col, hs⟩ := hown
      rw [receiptFor?_reply h hr hs]
      rw [hs] at hafter ⊢
      simpa using hafter.receive x
    · have hother : requestId ≠ r.start.requestId ∨
          ∀ col, (run events).collector.standing r.handle ≠ .collecting col := by
        by_cases hid : requestId = r.start.requestId
        · exact .inr fun col hs => hown ⟨hid, col, hs⟩
        · exact .inl hid
      rw [receiptFor?_eq_none h x hother]
      simpa using hafter.receive_other x hother
  · have he : ∀ requestId x, e ≠ .reply requestId x := fun id x heq => hreply ⟨id, x, heq⟩
    rw [receiptFor?_of_ne_reply he]
    simpa using hafter.hear (run events).now (signal_ne_reply he)

theorem after_register (h : (run events).Kept) (q : Query) :
    let r : Registration := ⟨(run events).collector.next, q.start (run events).now⟩
    Standing.After r.start ((receipts r (events ++ [.register q])).map (·.reply))
      ((run (events ++ [.register q])).collector.standing r.handle) := by
  intro r
  have hnew : r ∉ (run events).registered := fun hmem => Nat.lt_irrefl _ (h.handle_lt hmem)
  rw [receipts_concat, receipts_of_not_registered hnew, receiptFor?_of_ne_reply (by simp),
    run_concat, standing_step_register h]
  exact q.standing_after _

/-- Every registration stands as its replies let it. -/
theorem after_run (events : List CollectorEvent) :
    ∀ r ∈ (run events).registered,
      Standing.After r.start ((receipts r events).map (·.reply))
        ((run events).collector.standing r.handle) := by
  induction events using List.reverseRecOn with
  | nil => simp [run]
  | append_singleton events e ih =>
    intro r hr
    have h := kept_run events
    by_cases hold : r ∈ (run events).registered
    · exact after_step h hold (ih r hold) e
    · obtain ⟨q, rfl, rfl⟩ : ∃ q, e = .register q ∧
          r = ⟨(run events).collector.next, q.start (run events).now⟩ := by
        rw [run_concat] at hr
        exact eq_of_mem_registered_step hr hold
      exact after_register h q

/-! ## Answers and callers -/

theorem event_of_receipt? {m : Encounter Correspondence CollectorEvent} {y : Receipt}
    (h : receipt? m = some y) :
    m.event = .reply y.requestId y.reply ∧ y.time = m.before.now ∧
      (m.before.collector.receive y.requestId y.reply).2 = true := by
  obtain ⟨s, e⟩ := m
  cases e with
  | reply requestId x =>
    unfold receipt? at h
    dsimp only at h
    split at h
    · cases h
      exact ⟨rfl, rfl, by assumption⟩
    · cases h
  | _ => cases h

theorem receiptFor?_eq_some {m : Encounter Correspondence CollectorEvent} (h : m.before.Kept)
    {y : Receipt} (hy : receiptFor? r m = some y) :
    receipt? m = some y ∧ y.requestId = r.start.requestId ∧ r ∈ m.before.registered ∧
      ∃ col, m.before.collector.standing r.handle = .collecting col := by
  obtain ⟨htaken, hfor⟩ := Option.filter_eq_some_iff.mp hy
  obtain ⟨hid, hawaits⟩ := Bool.and_eq_true_iff.mp hfor
  exact ⟨htaken, by simpa using hid, (awaits_iff h).mp hawaits⟩

/-- A reply that is taken is taken for one registration. -/
theorem existsUnique_receiptFor? {m : Encounter Correspondence CollectorEvent}
    (h : m.before.Kept) (htaken : (receipt? m).isSome = true) :
    ∃! r, r ∈ m.before.registered ∧ (receiptFor? r m).isSome = true := by
  obtain ⟨y, hy⟩ := Option.isSome_iff_exists.mp htaken
  obtain ⟨hevent, -, haccepts⟩ := event_of_receipt? hy
  obtain ⟨k, col, hs, hid⟩ := (Collector.receive_accepts_iff h.sound).mp haccepts
  have hk := (Collector.standing_ne_unknown_iff h.sound).mp (by rw [hs]; exact nofun)
  obtain ⟨r, hr, rfl⟩ := h.exists_registered hk
  have hown : y.requestId = r.start.requestId := hid.symm.trans (h.requests r hr col hs)
  refine ⟨r, ⟨hr, ?_⟩, ?_⟩
  · have hsome := receiptFor?_reply h hr hs y.reply
    rw [← hown, ← hevent] at hsome
    exact Option.isSome_iff_exists.mpr ⟨_, hsome⟩
  · rintro r' ⟨hr', hsome'⟩
    obtain ⟨y', hy'⟩ := Option.isSome_iff_exists.mp hsome'
    obtain ⟨htaken', hown', -, col', hs'⟩ := receiptFor?_eq_some h hy'
    obtain rfl : y = y' := Option.some.inj (hy.symm.trans htaken')
    have hid' : col'.requestId = col.requestId := by
      rw [h.requests r' hr' col' hs', ← hown', hid]
    exact h.eq_of_handle_eq hr' hr (Collector.collecting_unique h.sound hs' hs hid')

theorem existsUnique_of_mem_history {m : Encounter Correspondence CollectorEvent}
    (hm : m ∈ history events) (htaken : (receipt? m).isSome = true) :
    ∃! r, r ∈ (run events).registered ∧ (receiptFor? r m).isSome = true := by
  have h := kept_of_mem_history hm
  obtain ⟨r, ⟨hr, hsome⟩, hunique⟩ := existsUnique_receiptFor? h htaken
  refine ⟨r, ⟨registered_of_mem_history hm hr, hsome⟩, ?_⟩
  rintro r' ⟨-, hsome'⟩
  -- who registers later takes no reply now
  obtain ⟨y, hy⟩ := Option.isSome_iff_exists.mp hsome'
  obtain ⟨-, -, hr', -⟩ := receiptFor?_eq_some h hy
  exact hunique r' ⟨hr', hsome'⟩

/-- An answer is made of the replies that were taken for its registration. -/
theorem exists_conclude_of_answered {a : Collected} (hr : r ∈ (run events).registered)
    (ha : (run events).collector.standing r.handle = .answered a) :
    ∃ timedOut,
      a = (r.start.receiveAll ((receipts r events).map (·.reply))).conclude timedOut := by
  have hafter := after_run events r hr
  rw [ha] at hafter
  exact hafter.exists_conclude

/-- What a caller obtained is the answer of its registration. -/
theorem exists_answered_of_obtained (h : s.Kept) {o : Pending × Collected} (ho : o ∈ s.obtained) :
    ∃ r ∈ s.registered, r.pending = o.1 ∧ s.collector.standing r.handle = .answered o.2 := by
  obtain ⟨r, hr, hpending⟩ := h.exists_caller (List.mem_append_right _ (List.mem_map_of_mem ho))
  have hanswer := h.answers o ho
  rw [← hpending] at hanswer
  exact ⟨r, hr, hpending, hanswer⟩

/-- A wait is over when there is an answer, and at the latest from its deadline on. -/
theorem wait_isSome_iff (h : s.Kept) {p : Pending} (hp : p ∈ s.waiting) :
    (s.collector.wait s.now p).isSome = true ↔
      p.deadline ≤ s.now ∨ (s.collector.result? p.handle).isSome = true := by
  have hcaller : p ∈ s.waiting ++ s.lapsed ++ s.obtained.map (·.1) :=
    List.mem_append_left _ (List.mem_append_left _ hp)
  cases hs : s.collector.standing p.handle with
  | unknown =>
    exact absurd hs ((Collector.standing_ne_unknown_iff h.sound).mpr (h.caller_lt hcaller))
  | answered a =>
    simp [Collector.wait_of_answered h.sound hs, Collector.result?_of_answered h.sound hs]
  | collecting col =>
    rw [Collector.wait_of_collecting h.sound hs, Collector.result?_of_collecting h.sound hs]
    by_cases hdue : p.deadline ≤ s.now <;> simp [hdue]

theorem obtained_nodup (h : s.Kept) : (s.obtained.map (·.1.handle)).Nodup := by
  have hall : ((s.waiting ++ s.lapsed ++ s.obtained.map (·.1)).map (·.handle)).Nodup := by
    have hhandles : (s.registered.map (·.pending)).map (·.handle) = s.registered.map (·.handle) := by
      rw [List.map_map]
      rfl
    rw [(h.callers.map (·.handle)).nodup_iff, hhandles, h.handles]
    exact List.nodup_range
  rw [List.map_append, List.map_map] at hall
  exact (List.nodup_append.mp hall).2.1

/-- **Each caller obtains one answer, made of its own replies.** Whoever ends its wait has the one
answer that was put aside under its handle, and not the one that stands for a lost collection. An
answer is made of the replies that were taken for its registration, all of them in their order; a
reply that is taken is taken for one registration. A wait is over as soon as there is an answer, and
from its deadline on. -/
theorem answers_from_own_replies (events : List CollectorEvent) :
    let s := run events
    (s.obtained.map (·.1.handle)).Nodup ∧
    (∀ o ∈ s.obtained, o.2 ≠ o.1.lost ∧ ∃ r ∈ s.registered, r.pending = o.1 ∧
      s.collector.results.filter (·.1 == r.handle) = [(r.handle, o.2)]) ∧
    (∀ r ∈ s.registered, ∀ a, (r.handle, a) ∈ s.collector.results → ∃ timedOut,
      a = (r.start.receiveAll ((receipts r events).map (·.reply))).conclude timedOut) ∧
    (∀ m ∈ history events, (receipt? m).isSome = true →
      ∃! r, r ∈ s.registered ∧ (receiptFor? r m).isSome = true) ∧
    ∀ p ∈ s.waiting, (s.collector.wait s.now p).isSome = true ↔
      p.deadline ≤ s.now ∨ (s.collector.result? p.handle).isSome = true := by
  intro s
  have h : s.Kept := kept_run events
  refine ⟨obtained_nodup h, fun o ho => ?_, fun r hr a hmem => ?_,
    fun m hm htaken => existsUnique_of_mem_history hm htaken, fun p hp => wait_isSome_iff h hp⟩
  · obtain ⟨r, hr, hpending, hanswer⟩ := exists_answered_of_obtained h ho
    obtain ⟨timedOut, hmade⟩ := exists_conclude_of_answered hr hanswer
    refine ⟨?_, r, hr, hpending, ?_⟩
    · rw [hmade]
      exact Collection.conclude_ne_lost _ _ _
    · exact filter_key_eq_singleton h.sound.answers
        ((Collector.standing_eq_answered_iff h.sound).mp hanswer)
  · exact exists_conclude_of_answered hr ((Collector.standing_eq_answered_iff h.sound).mpr hmem)

end Correspondence

end Switchboard
