import Switchboard.Proofs.Collect.Correspondence

/-!
# When the strategies are satisfied

A strategy looks at who of the expected has replied so far. As long as nothing else closes a
registration, it is answered by the first reply that satisfies its strategy, and takes no reply
after that one.

* `Strategy.Satisfied` : when replies are enough; `Strategy.Completes` : the first replies that are;
* `Query.isComplete_iff` : what a collection checks is its strategy;
* `Standing.Progress` : how a registration stands that nothing else closes;
* `Correspondence.Undisturbed` : nothing else closes it; `Correspondence.progress_run`;
* `Correspondence.completes_at_deciding_reply` : the reply that answers it, and the answer.
-/

namespace Switchboard

/-! ## Senders -/

namespace Reply

variable {replies more : List Reply}

theorem mem_senders_iff {name : String} :
    name ∈ senders replies ↔ ∃ r ∈ replies, r.sender = name := by
  rw [senders, List.mem_eraseDups, List.mem_map]

theorem senders_nodup (replies : List Reply) : (senders replies).Nodup :=
  nodup_eraseDups _

theorem countP_senders_le (hsub : replies ⊆ more) (p : String → Bool) :
    (senders replies).countP p ≤ (senders more).countP p := by
  have hsenders : senders replies ⊆ senders more := by
    intro name hname
    obtain ⟨r, hr, rfl⟩ := mem_senders_iff.mp hname
    exact mem_senders_iff.mpr ⟨r, hsub hr, rfl⟩
  exact (List.subperm_of_subset (senders_nodup replies) hsenders).countP_le p

theorem length_successes (replies : List Reply) :
    (successes replies).length = replies.countP (!·.isError) := by
  rw [successes, List.length_map, List.countP_eq_length_filter]

theorem length_errors (replies : List Reply) :
    (errors replies).length = replies.countP (·.isError) := by
  rw [errors, List.length_map, List.countP_eq_length_filter]

end Reply

/-! ## Enough replies -/

namespace Strategy

/-- Replies are enough. Who replied several times counts once, and a majority is of the expected. -/
def Satisfied (strategy : Strategy) (expected : List String) (replies : List Reply) : Prop :=
  match strategy with
  | .first => replies ≠ []
  | .all => ∀ name ∈ expected, ∃ r ∈ replies, r.sender = name
  | .majority => expected.length < 2 * (Reply.senders replies).countP (· ∈ expected)
  | .timeout => False

instance (strategy : Strategy) (expected : List String) (replies : List Reply) :
    Decidable (strategy.Satisfied expected replies) :=
  match strategy with
  | .first => inferInstanceAs (Decidable (replies ≠ []))
  | .all => inferInstanceAs (Decidable (∀ name ∈ expected, ∃ r ∈ replies, r.sender = name))
  | .majority =>
    inferInstanceAs
      (Decidable (expected.length < 2 * (Reply.senders replies).countP (· ∈ expected)))
  | .timeout => inferInstanceAs (Decidable False)

/-- What was counted are the first replies that are enough. -/
structure Completes (strategy : Strategy) (expected : List String)
    (replies counted : List Reply) : Prop where
  initial : counted <+: replies
  satisfied : strategy.Satisfied expected counted
  least : ∀ fewer, fewer <+: counted → strategy.Satisfied expected fewer → fewer = counted

variable {strategy : Strategy} {expected : List String} {replies more counted : List Reply}

theorem Satisfied.mono (h : strategy.Satisfied expected replies) (hsub : replies ⊆ more) :
    strategy.Satisfied expected more := by
  cases strategy with
  | first =>
    rintro rfl
    exact h (List.subset_nil.mp hsub)
  | all =>
    intro name hname
    obtain ⟨r, hr, hsender⟩ := h name hname
    exact ⟨r, hsub hr, hsender⟩
  | majority =>
    have hle := Reply.countP_senders_le hsub (· ∈ expected)
    simp only [Satisfied] at h ⊢
    omega
  | timeout => exact h

theorem not_satisfied_nil (hexpected : expected ≠ []) : ¬ strategy.Satisfied expected [] := by
  cases strategy with
  | first => simp [Satisfied]
  | all =>
    intro h
    obtain ⟨name, hname⟩ := List.exists_mem_of_ne_nil _ hexpected
    obtain ⟨r, hr, -⟩ := h name hname
    cases hr
  | majority => simp [Satisfied, Reply.senders]
  | timeout => exact id

theorem Completes.append (h : strategy.Completes expected replies counted) (more : List Reply) :
    strategy.Completes expected (replies ++ more) counted :=
  ⟨h.initial.trans (List.prefix_append _ _), h.satisfied, h.least⟩

/-- The reply after which the replies are enough is the last one counted. -/
theorem Completes.of_concat {r : Reply} (hbefore : ¬ strategy.Satisfied expected replies)
    (h : strategy.Satisfied expected (replies ++ [r])) :
    strategy.Completes expected (replies ++ [r]) (replies ++ [r]) where
  initial := List.prefix_rfl
  satisfied := h
  least := by
    intro fewer hfewer hsat
    rcases List.prefix_concat_iff.mp hfewer with heq | hshort
    · exact heq
    · exact absurd (hsat.mono hshort.subset) hbefore

theorem Completes.of_first (h : Strategy.first.Completes expected replies counted) :
    ∃ r, counted = [r] := by
  cases counted with
  | nil => exact absurd rfl h.satisfied
  | cons r rest => exact ⟨r, (h.least [r] (by simp) (by simp [Satisfied])).symm⟩

end Strategy

/-- Without repeated names among the expected, how many of them replied is how many who replied are
among them. -/
theorem length_answered {expected senders : List String} (hexpected : expected.Nodup)
    (hsenders : senders.Nodup) :
    (expected.filter senders.contains).length = senders.countP (· ∈ expected) := by
  have hperm : (expected.filter senders.contains).Perm (senders.filter (· ∈ expected)) := by
    refine (List.perm_ext_iff_of_nodup (hexpected.filter _) (hsenders.filter _)).mpr fun name => ?_
    simp [and_comm]
  rw [hperm.length_eq, List.countP_eq_length_filter]

/-- What a collection checks is whether its replies are enough. -/
theorem Query.isComplete_iff (q : Query) (now : Nat) (hexpected : q.expected.Nodup)
    (replies : List Reply) :
    ((q.start now).receiveAll replies).isComplete = true ↔
      q.strategy.Satisfied q.expected replies := by
  rw [Collection.receiveAll_start]
  simp only [Collection.isComplete, Query.start]
  cases q.strategy with
  | first =>
    cases replies with
    | nil => simp [Strategy.Satisfied, Reply.senders]
    | cons r rest => simp [Strategy.Satisfied, Reply.senders, List.eraseDups_cons]
  | all => simp [Strategy.Satisfied, Collection.answered, Reply.mem_senders_iff]
  | majority =>
    have hanswered := length_answered hexpected (Reply.senders_nodup replies)
    simp only [Strategy.Satisfied, Collection.answered, hanswered, decide_eq_true_iff]
    omega
  | timeout => simp [Strategy.Satisfied]

/-! ## A registration that nothing else closes -/

/-- How a registration stands that only its replies can end: it waits as long as they are not
enough, and its answer is made of the first that are. -/
inductive Standing.Progress (start : Collection) (replies : List Reply) : Standing → Prop
  | waiting (h : ¬ start.strategy.Satisfied start.expected replies) :
      Progress start replies (.collecting (start.receiveAll replies))
  | completed {counted : List Reply}
      (h : start.strategy.Completes start.expected replies counted) :
      Progress start replies (.answered ((start.receiveAll counted).conclude false))

namespace Standing.Progress

variable {q : Query} {now time : Nat} {replies : List Reply} {st : Standing}

theorem hear (h : Progress (q.start now) replies st) {sig : CollectorSignal}
    (hsig : ∀ requestId r, sig ≠ .reply requestId r)
    (hcloses : sig.closes time (q.start now) = false) :
    Progress (q.start now) replies (st.hear time sig) := by
  cases h with
  | completed h =>
    rw [hear_answered]
    exact .completed h
  | waiting h =>
    rw [hear_of_not_closes hsig (by rwa [CollectorSignal.closes_receiveAll])]
    exact .waiting h

theorem receive (hexpected : q.expected.Nodup) (h : Progress (q.start now) replies st) (r : Reply) :
    Progress (q.start now) (replies ++ [r]) (st.receive q.requestId r) := by
  cases h with
  | completed h => exact .completed (h.append [r])
  | waiting h =>
    rw [Standing.receive, if_pos (by simp [Collection.requestId_receiveAll, Query.start]),
      ← Collection.receiveAll_concat]
    split
    · rename_i hcomplete
      exact .completed (.of_concat h ((q.isComplete_iff now hexpected _).mp hcomplete))
    · rename_i hcomplete
      exact .waiting fun hsat => hcomplete ((q.isComplete_iff now hexpected _).mpr hsat)

theorem receive_other (h : Progress (q.start now) replies st) {requestId : String}
    (hother : requestId ≠ q.requestId) (r : Reply) :
    Progress (q.start now) replies (st.receive requestId r) := by
  cases h with
  | completed h => exact .completed h
  | waiting h =>
    rw [Standing.receive, if_neg]
    · exact .waiting h
    · simpa [Collection.requestId_receiveAll, Query.start] using hother.symm

end Standing.Progress

theorem Query.standing_progress (q : Query) (now : Nat) (hexpected : q.expected ≠ []) :
    Standing.Progress (q.start now) [] (q.standing now) := by
  rw [Query.standing, if_neg (by simpa using hexpected)]
  exact .waiting (Strategy.not_satisfied_nil hexpected)

namespace Correspondence

/-- The reply to a request that comes with an event, taken or not. -/
def replyTo? (requestId : String) : CollectorEvent → Option Reply
  | .reply requestId' r => if requestId' = requestId then some r else none
  | _ => none

def repliesTo (requestId : String) (events : List CollectorEvent) : List Reply :=
  events.filterMap (replyTo? requestId)

theorem repliesTo_concat (requestId : String) (events : List CollectorEvent) (e : CollectorEvent) :
    repliesTo requestId (events ++ [e]) =
      repliesTo requestId events ++ (replyTo? requestId e).toList := by
  rw [repliesTo, List.filterMap_append]
  cases h : replyTo? requestId e <;> simp [repliesTo, h]

/-- Nothing closes a collection: its request is not expired or registered again, and no sweep comes
after its deadline. -/
def Undisturbed (start : Collection) (s : Correspondence) (events : List CollectorEvent) : Prop :=
  ∀ m ∈ encounters step s events, (m.before.signal m.event).closes m.before.now start = false

instance (start : Collection) (s : Correspondence) (events : List CollectorEvent) :
    Decidable (Undisturbed start s events) :=
  inferInstanceAs (Decidable (∀ m ∈ encounters step s events, _))

variable {s : Correspondence} {q : Query} {k time : Nat} {replies : List Reply}

theorem undisturbed_concat {start : Collection} {events : List CollectorEvent}
    {e : CollectorEvent} :
    Undisturbed start s (events ++ [e]) ↔
      Undisturbed start s events ∧
        ((events.foldl step s).signal e).closes (events.foldl step s).now start = false := by
  unfold Undisturbed
  rw [encounters_append, List.forall_mem_append]
  simp [encounters]

theorem progress_step (h : s.Kept) (hk : k < s.collector.next) (hexpected : q.expected.Nodup)
    (hprogress : Standing.Progress (q.start time) replies (s.collector.standing k))
    {e : CollectorEvent} (hcloses : (s.signal e).closes s.now (q.start time) = false) :
    Standing.Progress (q.start time) (replies ++ (replyTo? q.requestId e).toList)
      ((s.step e).collector.standing k) := by
  rw [standing_step h e hk]
  by_cases hreply : ∃ requestId r, e = .reply requestId r
  · obtain ⟨requestId, r, rfl⟩ := hreply
    by_cases hid : requestId = q.requestId
    · subst hid
      simpa [replyTo?, signal, Standing.hear] using hprogress.receive hexpected r
    · simpa [replyTo?, hid, signal, Standing.hear] using hprogress.receive_other hid r
  · have he : ∀ requestId r, e ≠ .reply requestId r := fun id r heq => hreply ⟨id, r, heq⟩
    have hnone : replyTo? q.requestId e = none := by
      cases e with
      | reply requestId r => exact absurd rfl (he requestId r)
      | _ => rfl
    rw [hnone, Option.toList_none, List.append_nil]
    exact hprogress.hear (signal_ne_reply he) hcloses

/-- Nobody but one registration waits for replies to a request. -/
def Alone (requestId : String) (k : Nat) (c : Collector) : Prop :=
  ∀ k' col, c.standing k' = .collecting col → col.requestId = requestId → k' = k

theorem alone_register (h : s.Kept) (q : Query) :
    Alone q.requestId s.collector.next (s.step (.register q)).collector := by
  intro k' col hs hid
  rcases collecting_step h hs with ⟨col', -, hid', hcloses⟩ | ⟨q', -, rfl, -⟩
  · simp [signal, CollectorSignal.closes, ← hid', hid] at hcloses
  · rfl

theorem alone_step (h : s.Kept) (halone : Alone q.requestId k s.collector) {e : CollectorEvent}
    (hcloses : (s.signal e).closes s.now (q.start time) = false) :
    Alone q.requestId k (s.step e).collector := by
  intro k' col hs hid
  rcases collecting_step h hs with ⟨col', hs', hid', -⟩ | ⟨q', rfl, -, rfl⟩
  · exact halone k' col' hs' (hid'.symm.trans hid)
  · simp only [signal, CollectorSignal.closes, Query.start] at hcloses hid
    simp [hid] at hcloses

/-- How a registration stands that nothing closed since, and that it alone waits for its request. -/
theorem progress_run (earlier later : List CollectorEvent) (hne : q.expected ≠ [])
    (hexpected : q.expected.Nodup)
    (hquiet : Undisturbed (q.start (run earlier).now) (run (earlier ++ [.register q])) later) :
    let s := run (earlier ++ .register q :: later)
    let k := (run earlier).collector.next
    k < s.collector.next ∧
      Standing.Progress (q.start (run earlier).now) (repliesTo q.requestId later)
        (s.collector.standing k) ∧
      Alone q.requestId k s.collector := by
  -- event by event from its registration on; `progress_step` needs that its handle was given out
  induction later using List.reverseRecOn with
  | nil =>
    have h := kept_run earlier
    rw [run_concat]
    refine ⟨?_, ?_, alone_register h q⟩
    · exact Nat.lt_of_lt_of_eq (Nat.lt_succ_self _) (Collector.next_enlist _ q).symm
    · rw [standing_step_register h]
      exact q.standing_progress _ hne
  | append_singleton later e ih =>
    obtain ⟨hquiet, hcloses⟩ := undisturbed_concat.mp hquiet
    obtain ⟨hk, hprogress, halone⟩ := ih hquiet
    have h := kept_run (earlier ++ .register q :: later)
    have hrun : run (earlier ++ .register q :: (later ++ [e])) =
        (run (earlier ++ .register q :: later)).step e := by
      rw [← List.cons_append, ← List.append_assoc, run_concat]
    have hbefore : later.foldl step (run (earlier ++ [.register q])) =
        run (earlier ++ .register q :: later) := by
      simp [run]
    rw [hbefore] at hcloses
    rw [hrun]
    refine ⟨Nat.lt_of_lt_of_le hk (next_step_le h e), ?_, alone_step h halone hcloses⟩
    rw [repliesTo_concat]
    exact progress_step h hk hexpected hprogress hcloses

/-! ## The deciding reply -/

theorem conclude_receiveAll (q : Query) (time : Nat) (counted : List Reply) :
    let a := ((q.start time).receiveAll counted).conclude false
    a.timedOut = false ∧
    a.receivedFrom = Reply.senders counted ∧
    a.responseCount = counted.countP (!·.isError) ∧
    a.errorCount = counted.countP (·.isError) ∧
    (a.success = true ↔ ∃ r ∈ counted, r.isError = false) := by
  rw [Collection.receiveAll_start]
  refine ⟨rfl, rfl, Reply.length_successes counted, Reply.length_errors counted, ?_⟩
  simp [Collection.conclude, Reply.successes]

/-- What `first` answers with is the one reply it had. -/
theorem content_of_first (hstrategy : q.strategy = .first) {r : Reply} (hr : r.isError = false) :
    (((q.start time).receiveAll [r]).conclude false).content = r.content := by
  rw [Collection.receiveAll_start]
  simp [Collection.conclude, Reply.successes, Query.start, hstrategy, hr]

/-- **A strategy is decided by the first reply that satisfies it.** As long as the request is neither
expired, swept after its deadline nor registered again, its replies are taken until they satisfy the
strategy, and none is taken then. The answer is there from that reply on; it is not timed out and is
made of the replies so far, each counted, each sender named once. -/
theorem completes_at_deciding_reply (earlier later : List CollectorEvent) (q : Query)
    (hne : q.expected ≠ []) (hexpected : q.expected.Nodup)
    (hquiet : Undisturbed (q.start (run earlier).now) (run (earlier ++ [.register q])) later) :
    let s := run (earlier ++ .register q :: later)
    let k := (run earlier).collector.next
    let replies := repliesTo q.requestId later
    (∀ r, (s.collector.receive q.requestId r).2 = true ↔
      ¬ q.strategy.Satisfied q.expected replies) ∧
    ((s.collector.result? k).isSome = true ↔ q.strategy.Satisfied q.expected replies) ∧
    ∀ a, s.collector.result? k = some a →
      ∃ counted, q.strategy.Completes q.expected replies counted ∧
        a.timedOut = false ∧
        a.receivedFrom = Reply.senders counted ∧
        a.responseCount = counted.countP (!·.isError) ∧
        a.errorCount = counted.countP (·.isError) ∧
        (a.success = true ↔ ∃ r ∈ counted, r.isError = false) ∧
        (q.strategy = .first →
          ∃ r, counted = [r] ∧ (r.isError = false → a.content = r.content)) := by
  intro s k replies
  obtain ⟨-, hprogress, halone⟩ : k < s.collector.next ∧
      Standing.Progress (q.start (run earlier).now) replies (s.collector.standing k) ∧
      Alone q.requestId k s.collector := progress_run earlier later hne hexpected hquiet
  have h : s.Kept := kept_run _
  generalize hs : s.collector.standing k = st at hprogress
  cases hprogress with
  | waiting hnot =>
    have hnone := Collector.result?_of_collecting h.sound hs
    have hid : ((q.start (run earlier).now).receiveAll replies).requestId = q.requestId :=
      Collection.requestId_receiveAll _ _
    refine ⟨fun r => iff_of_true ?_ hnot, iff_of_false (by simp [hnone]) hnot, by simp [hnone]⟩
    exact (Collector.receive_accepts_iff h.sound).mpr ⟨k, _, hs, hid⟩
  | @completed counted hcompletes =>
    have hsat := hcompletes.satisfied.mono hcompletes.initial.subset
    have hres := Collector.result?_of_answered h.sound hs
    refine ⟨fun r => iff_of_false ?_ (not_not_intro hsat), iff_of_true (by simp [hres]) hsat, ?_⟩
    · -- another registration that took the reply would wait for this request too
      intro haccepts
      obtain ⟨k', col, hs', hid⟩ := (Collector.receive_accepts_iff h.sound).mp haccepts
      rw [halone k' col hs' hid] at hs'
      cases hs.symm.trans hs'
    · intro a ha
      obtain rfl := Option.some.inj (hres.symm.trans ha)
      obtain ⟨htimed, hfrom, hresponses, herrors, hsuccess⟩ :=
        conclude_receiveAll q (run earlier).now counted
      refine ⟨counted, hcompletes, htimed, hfrom, hresponses, herrors, hsuccess, fun hfirst => ?_⟩
      have hcounted := hcompletes
      simp only [Query.start, hfirst] at hcounted
      obtain ⟨r, rfl⟩ := hcounted.of_first
      exact ⟨r, rfl, content_of_first hfirst⟩

/-- Of three expected two make a majority; a stranger and a second reply do not help. -/
theorem majority_past_stranger_and_repeat :
    let q : Query := ⟨"r", "plan", ["a", "b", "c"], .majority, 100⟩
    let start : List CollectorEvent :=
      [.reply "r" ⟨"x", .nat 1, false⟩, .reply "r" ⟨"a", .nat 2, true⟩, .pass 10, .sweep,
        .reply "r" ⟨"a", .nat 3, false⟩]
    let last : CollectorEvent := .reply "r" ⟨"b", .nat 4, true⟩
    (∀ r, ((run (.register q :: start)).collector.receive "r" r).2 = true) ∧
    (∀ r, ¬ ((run (.register q :: (start ++ [last]))).collector.receive "r" r).2 = true) ∧
    ((run (.register q :: (start ++ [last]))).collector.result? 0).isSome = true := by
  intro q start last
  have hopen := completes_at_deciding_reply [] start q (by decide) (by decide) (by decide)
  have hdone := completes_at_deciding_reply [] (start ++ [last]) q (by decide) (by decide)
    (by decide)
  have hnot : ¬ q.strategy.Satisfied q.expected (repliesTo q.requestId start) := by decide
  have hsat : q.strategy.Satisfied q.expected (repliesTo q.requestId (start ++ [last])) := by decide
  exact ⟨fun r => (hopen.1 r).mpr hnot, fun r haccepts => (hdone.1 r).mp haccepts hsat,
    hdone.2.1.mpr hsat⟩

end Correspondence

end Switchboard
