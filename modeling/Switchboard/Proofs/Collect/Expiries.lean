import Switchboard.Proofs.Collect.Deadlines

/-!
# Which registration a caller expires

A caller whose deadline has passed expires its request by the id, some time later. If the id was
registered again in between, it is the new registration that it expires.

* `Correspondence.TimesOut`, `InDue` : a registration is answered as timed out; it is so at its
  deadline or because its id is registered again;
* `Overtaken` : the caller of an earlier registration expires it; `successor_expired` : this happens;
* `Timely`, `timely_run` : only the latest registration of an id waits, and callers give up after
  their deadline;
* `Clear` : no id is registered while a caller who gave up is about to expire it;
* `timesOut_inDue_iff` : registrations time out in due time unless they are overtaken.
-/

namespace Switchboard

namespace Correspondence

/-- At this moment a registration that waits is answered as timed out. -/
def TimesOut (r : Registration) (m : Encounter Correspondence CollectorEvent) : Prop :=
  m.before.awaits r = true ∧
    ∃ a, (m.before.step m.event).collector.standing r.handle = .answered a ∧ a.timedOut = true

/-- Its deadline has come, or its id is registered again. -/
def InDue (r : Registration) (m : Encounter Correspondence CollectorEvent) : Prop :=
  r.start.deadline ≤ m.before.now ∨
    ∃ q, m.event = .register q ∧ q.requestId = r.start.requestId

/-- Before its deadline, the caller of an earlier registration of its id expires it. -/
def Overtaken (r : Registration) (m : Encounter Correspondence CollectorEvent) : Prop :=
  m.before.awaits r = true ∧ m.before.now < r.start.deadline ∧
    ∃ i p, m.event = .close i ∧ m.before.lapsed[i]? = some p ∧
      p.requestId = r.start.requestId ∧ p.handle < r.handle

/-- No id is registered while a caller whose deadline has passed is about to expire it. -/
def Clear (events : List CollectorEvent) : Prop :=
  ∀ m ∈ history events, ∀ r ∈ m.before.newcomers m.event, ∀ p ∈ m.before.lapsed,
    p.requestId ≠ r.start.requestId

instance (events : List CollectorEvent) : Decidable (Clear events) :=
  inferInstanceAs (Decidable (∀ m ∈ history events, _))

/-- An id is registered again after the deadline of its first caller has passed and before that
caller expires it: the new registration is answered as timed out the moment it is made, 1000 ms
before its deadline. -/
theorem successor_expired :
    ¬ ∀ events : List CollectorEvent, (∀ requestId, .expire requestId ∉ events) →
      ∀ r, ∀ m ∈ history events, TimesOut r m → InDue r m := by
  intro h
  let brief : Query := ⟨"r", "plan", ["a"], .all, 100⟩
  let long : Query := ⟨"r", "plan", ["a"], .all, 1000⟩
  let earlier : List CollectorEvent := [.register brief, .pass 100, .lapse 0, .register long]
  let r : Registration := ⟨1, long.start 100⟩
  have hlast : (⟨run earlier, .close 0⟩ : Encounter Correspondence CollectorEvent) ∈
      history (earlier ++ [.close 0]) := by simp [history_concat]
  have hout : TimesOut r ⟨run earlier, .close 0⟩ :=
    ⟨by decide, r.start.conclude true, by decide, rfl⟩
  rcases h _ (by simp [earlier]) r _ hlast hout with hdue | ⟨q, hevent, -⟩
  · exact absurd hdue (by decide)
  · cases hevent

variable {s : Correspondence} {e : CollectorEvent} {r r' : Registration} {p : Pending}
  {events : List CollectorEvent}

/-! ## The latest registration of an id -/

/-- Of the registrations of an id only the latest waits, and callers give up after their deadline. -/
structure Timely (s : Correspondence) : Prop where
  latest : ∀ r, s.awaits r = true → ∀ r' ∈ s.registered,
    r'.start.requestId = r.start.requestId → r'.handle ≤ r.handle
  lapsed : ∀ p ∈ s.lapsed, p.deadline ≤ s.now

/-- Whoever gives up waits for an answer, and its deadline has passed. -/
theorem lapsed_step (hp : p ∈ (s.step e).lapsed) :
    p ∈ s.lapsed ∨ (∃ i, e = .lapse i) ∧ p ∈ s.waiting ∧ s.collector.isOpen p.handle = true ∧
      p.deadline ≤ s.now := by
  cases e with
  | lapse i =>
    simp only [step] at hp
    split at hp
    · rename_i p' hi
      split at hp
      · rename_i hdue
        rcases List.mem_append.mp hp with hold | hnew
        · exact .inl hold
        · obtain rfl := List.mem_singleton.mp hnew
          simp only [Bool.and_eq_true, decide_eq_true_eq] at hdue
          exact .inr ⟨⟨i, rfl⟩, List.mem_of_getElem? hi, hdue⟩
      · exact .inl hp
    · exact .inl hp
  | close i =>
    simp only [step] at hp
    split at hp
    · exact .inl (List.mem_of_mem_eraseIdx hp)
    · exact .inl hp
  | wait i =>
    simp only [step] at hp
    split at hp
    · split at hp <;> exact .inl hp
    · exact .inl hp
  | _ => exact .inl hp

theorem Timely.step (h : s.Kept) (ht : s.Timely) (e : CollectorEvent) : (s.step e).Timely where
  latest := by
    intro r hawaits r' hr' hid
    rcases awaits_step h hawaits with ⟨hwaited, col, hs, hopen⟩ | ⟨q, rfl, rfl⟩
    · by_cases hold : r' ∈ s.registered
      · exact ht.latest r hwaited r' hold hid
      · -- a new registration of the id would have closed the one that waits
        obtain ⟨q, rfl, rfl⟩ := eq_of_mem_registered_step hr' hold
        have hsame := h.requests r ((awaits_iff h).mp hwaited).1 col hs
        have hother : col.requestId ≠ q.requestId := by
          simpa [signal, CollectorSignal.closes] using hopen
        exact absurd (hsame.trans hid.symm) hother
    · by_cases hold : r' ∈ s.registered
      · exact Nat.le_of_lt (h.handle_lt hold)
      · obtain ⟨q', -, rfl⟩ := eq_of_mem_registered_step hr' hold
        exact Nat.le_refl _
  lapsed := by
    intro p hp
    rw [(frame_step s e).1]
    rcases lapsed_step hp with hold | ⟨-, -, -, hdue⟩
    · exact Nat.le_add_right_of_le (ht.lapsed p hold)
    · exact Nat.le_add_right_of_le hdue

theorem timely_run (events : List CollectorEvent) : (run events).Timely := by
  induction events using List.reverseRecOn with
  | nil => exact ⟨fun r hawaits => by simp [run, awaits] at hawaits, by simp [run]⟩
  | append_singleton events e ih =>
    rw [run_concat]
    exact ih.step (kept_run events) e

/-! ## Who answers a registration as timed out -/

theorem timesOut_iff (h : s.Kept) :
    TimesOut r ⟨s, e⟩ ↔
      r ∈ s.registered ∧ ∃ col, s.collector.standing r.handle = .collecting col ∧
        (s.signal e).closes s.now col = true := by
  constructor
  · rintro ⟨hawaits, a, ha, htimed⟩
    obtain ⟨hr, col, hs⟩ := (awaits_iff h).mp hawaits
    refine ⟨hr, col, hs, ?_⟩
    by_contra hopen
    rw [Bool.not_eq_true] at hopen
    dsimp only at ha
    rw [standing_step h e (h.handle_lt hr), hs] at ha
    by_cases hreply : ∃ requestId x, s.signal e = .reply requestId x
    · obtain ⟨requestId, x, hsig⟩ := hreply
      rw [hsig] at ha
      simp only [Standing.hear, Standing.receive] at ha
      split at ha
      · split at ha
        · cases ha
          cases htimed
        · cases ha
      · cases ha
    · rw [Standing.hear_of_not_closes (fun id x hsig => hreply ⟨id, x, hsig⟩) hopen] at ha
      cases ha
  · rintro ⟨hr, col, hs, hcloses⟩
    refine ⟨(awaits_iff h).mpr ⟨hr, col, hs⟩, col.conclude true, ?_, rfl⟩
    dsimp only
    rw [standing_step h e (h.handle_lt hr), hs, Standing.hear_of_closes hcloses]

/-- A caller of the same id that closes a registration holds it, or held it before it was made. -/
theorem Timely.eq_or_lt (h : s.Kept) (ht : s.Timely) (hawaits : s.awaits r = true)
    (hp : p ∈ s.waiting ++ s.lapsed ++ s.obtained.map (·.1))
    (hid : p.requestId = r.start.requestId) : p = r.pending ∨ p.handle < r.handle := by
  obtain ⟨r', hr', rfl⟩ := h.exists_caller hp
  rcases Nat.lt_or_eq_of_le (ht.latest r hawaits r' hr' hid) with hlt | heq
  · exact .inr hlt
  · exact .inl (congrArg _ (h.eq_of_handle_eq hr' ((awaits_iff h).mp hawaits).1 heq))

/-- A registration that waits still has the deadline that it had at first. -/
theorem deadline_of_collecting (hawaits : (run events).awaits r = true) {col : Collection}
    (hs : (run events).collector.standing r.handle = .collecting col) :
    col.deadline = r.start.deadline := by
  have hafter := after_run events r ((awaits_iff (kept_run events)).mp hawaits).1
  rw [hs] at hafter
  obtain rfl := hafter.eq_of_collecting
  exact r.start.deadline_receiveAll _

/-- What answers a registration as timed out is its deadline, another registration of its id, or a
caller that was there before it. -/
theorem inDue_or_overtaken (h : s.Kept) (ht : s.Timely) (hown : ∀ requestId, e ≠ .expire requestId)
    (hdeadline : ∀ col, s.collector.standing r.handle = .collecting col →
      col.deadline = r.start.deadline)
    (hout : TimesOut r ⟨s, e⟩) : InDue r ⟨s, e⟩ ∨ Overtaken r ⟨s, e⟩ := by
  obtain ⟨hr, col, hs, hcloses⟩ := (timesOut_iff h).mp hout
  have hawaits : s.awaits r = true := hout.1
  have hid : col.requestId = r.start.requestId := h.requests r hr col hs
  cases e with
  | register q =>
    have hsame : r.start.requestId = q.requestId := by
      simpa [signal, CollectorSignal.closes, hid] using hcloses
    exact .inl (.inr ⟨q, rfl, hsame.symm⟩)
  | reply requestId x => cases hcloses
  | expire requestId => exact absurd rfl (hown requestId)
  | sweep =>
    have hdue : col.deadline ≤ s.now := by
      simpa [signal, CollectorSignal.closes] using hcloses
    exact .inl (.inl (hdeadline col hs ▸ hdue))
  | lapse i => cases hcloses
  | pass ms => cases hcloses
  | wait i =>
    cases hi : s.waiting[i]? with
    | none =>
      simp only [signal, hi] at hcloses
      cases hcloses
    | some p =>
      rw [signal_wait hi] at hcloses
      split at hcloses
      · rename_i hends
        simp only [Bool.and_eq_true, decide_eq_true_eq] at hends
        obtain ⟨hopen, hdue⟩ := hends
        have hsame : r.start.requestId = p.requestId := by
          simpa [CollectorSignal.closes, hid] using hcloses
        -- the caller's own registration waits as well, so it is this one
        obtain ⟨col', hs'⟩ := (Collector.isOpen_iff h.sound).mp hopen
        have hid' := h.caller_request (Kept.mem_waiting hi) hs'
        have hhandle : p.handle = r.handle :=
          Collector.collecting_unique h.sound hs' hs (hid'.trans (hsame.symm.trans hid.symm))
        rcases ht.eq_or_lt h hawaits (Kept.mem_waiting hi) hsame.symm with rfl | hlt
        · exact .inl (.inl hdue)
        · exact absurd hhandle (Nat.ne_of_lt hlt)
      · cases hcloses
  | close i =>
    cases hi : s.lapsed[i]? with
    | none =>
      simp only [signal, hi] at hcloses
      cases hcloses
    | some p =>
      simp only [signal, hi] at hcloses
      have hsame : r.start.requestId = p.requestId := by
        simpa [CollectorSignal.closes, hid] using hcloses
      rcases ht.eq_or_lt h hawaits (Kept.mem_lapsed hi) hsame.symm with rfl | hlt
      · exact .inl (.inl (ht.lapsed _ (List.mem_of_getElem? hi)))
      · rcases Nat.lt_or_ge s.now r.start.deadline with hearly | hdue
        · exact .inr ⟨hawaits, hearly, i, p, rfl, hi, hsame.symm, hlt⟩
        · exact .inl (.inl hdue)

/-- Whoever is overtaken is answered as timed out, and not in due time. -/
theorem Overtaken.timesOut {m : Encounter Correspondence CollectorEvent} (h : m.before.Kept)
    (hover : Overtaken r m) : TimesOut r m ∧ ¬ InDue r m := by
  obtain ⟨s, e⟩ := m
  obtain ⟨hawaits, hearly, i, p, rfl, hi, hsame, -⟩ := hover
  dsimp only at h hawaits hearly hi
  obtain ⟨hr, col, hs⟩ := (awaits_iff h).mp hawaits
  refine ⟨(timesOut_iff h).mpr ⟨hr, col, hs, ?_⟩, ?_⟩
  · have hid := h.requests r hr col hs
    simp only [signal, hi]
    simpa [CollectorSignal.closes] using hid.trans hsame.symm
  · rintro (hdue | ⟨q, hevent, -⟩)
    · exact Nat.not_le_of_lt hearly hdue
    · cases hevent

/-- An answer counts as timed out if it was given at such a moment. -/
theorem timedOut_iff_exists (r : Registration) (events : List CollectorEvent) :
    (r ∈ (run events).registered ∧
        ∃ a, (run events).collector.standing r.handle = .answered a ∧ a.timedOut = true) ↔
      ∃ m ∈ history events, TimesOut r m := by
  induction events using List.reverseRecOn with
  | nil => simp [run, history, encounters]
  | append_singleton events e ih =>
    have h := kept_run events
    rw [history_concat, run_concat]
    constructor
    · rintro ⟨hr, a, ha, htimed⟩
      by_cases hold : r ∈ (run events).registered
      · cases hs : (run events).collector.standing r.handle with
        | unknown =>
          exact absurd hs ((Collector.standing_ne_unknown_iff h.sound).mpr (h.handle_lt hold))
        | answered a' =>
          rw [standing_step h e (h.handle_lt hold), hs, Standing.hear_answered] at ha
          cases ha
          obtain ⟨m, hm, hout⟩ := ih.mp ⟨hold, a, hs, htimed⟩
          exact ⟨m, List.mem_append_left _ hm, hout⟩
        | collecting col =>
          refine ⟨_, List.mem_append_right _ (List.mem_singleton.mpr rfl), ?_, a, ha, htimed⟩
          exact (awaits_iff h).mpr ⟨hold, col, hs⟩
      · obtain ⟨q, rfl, rfl⟩ := eq_of_mem_registered_step hr hold
        rw [standing_step_register h, Query.standing] at ha
        split at ha
        · cases ha
          cases htimed
        · cases ha
    · rintro ⟨m, hm, hout⟩
      rcases List.mem_append.mp hm with hm | hm
      · obtain ⟨hr, a, ha, htimed⟩ := ih.mpr ⟨m, hm, hout⟩
        refine ⟨registered_subset_step _ e hr, a, ?_, htimed⟩
        rw [standing_step h e (h.handle_lt hr), ha, Standing.hear_answered]
      · obtain rfl := List.mem_singleton.mp hm
        obtain ⟨hawaits, a, ha, htimed⟩ := hout
        exact ⟨registered_subset_step _ e ((awaits_iff h).mp hawaits).1, a, ha, htimed⟩

/-! ## When nobody is overtaken -/

theorem Clear.of_append {earlier later : List CollectorEvent} (h : Clear (earlier ++ later)) :
    Clear earlier := by
  intro m hm
  refine h m ?_
  rw [history, encounters_append]
  exact List.mem_append_left _ hm

/-- Callers who gave up are not those of earlier registrations. -/
theorem handle_le_of_clear (hclear : Clear events) :
    ∀ r ∈ (run events).registered, ∀ p ∈ (run events).lapsed,
      p.requestId = r.start.requestId → r.handle ≤ p.handle := by
  induction events using List.reverseRecOn with
  | nil => simp [run]
  | append_singleton events e ih =>
    have h := kept_run events
    have hlast : (⟨run events, e⟩ : Encounter Correspondence CollectorEvent) ∈
        history (events ++ [e]) := by simp [history_concat]
    intro r hr p hp hid
    rw [run_concat] at hr hp
    rw [(frame_step _ e).2] at hr
    rcases List.mem_append.mp hr with hold | hnew
    · rcases lapsed_step hp with hp | ⟨-, hwaits, hopen, -⟩
      · exact ih hclear.of_append r hold p hp hid
      · -- who gives up now holds the latest registration of its id
        have hcaller := List.mem_append_left ((run events).obtained.map (·.1))
          (List.mem_append_left (run events).lapsed hwaits)
        obtain ⟨r', hr', rfl⟩ := h.exists_caller hcaller
        have hawaits : (run events).awaits r' = true :=
          (awaits_iff h).mpr ⟨hr', (Collector.isOpen_iff h.sound).mp hopen⟩
        exact (timely_run events).latest r' hawaits r hold hid.symm
    · rcases lapsed_step hp with hp | ⟨⟨i, rfl⟩, -⟩
      · exact absurd hid (hclear _ hlast r hnew p hp)
      · cases hnew

theorem not_overtaken_of_clear (hclear : Clear events) (r : Registration) :
    ∀ m ∈ history events, ¬ Overtaken r m := by
  rintro m hm ⟨hawaits, -, i, p, -, hi, hsame, hlt⟩
  have hr := ((awaits_iff (kept_of_mem_history hm)).mp hawaits).1
  obtain ⟨earlier, later, rfl, hbefore⟩ := mem_encounters_iff.mp hm
  change m.before = run earlier at hbefore
  rw [hbefore] at hr hi
  have hle := handle_le_of_clear hclear.of_append r hr p (List.mem_of_getElem? hi) hsame
  exact Nat.not_lt_of_le hle hlt

/-- Whoever is about to expire an id can overtake any registration of it that is made now. -/
theorem exists_overtaken (h : s.Kept) {q : Query} (hp : p ∈ s.lapsed)
    (hid : p.requestId = q.requestId) (hexpected : q.expected ≠ []) (htimeout : 0 < q.timeout) :
    ∃ i, Overtaken ⟨s.collector.next, q.start s.now⟩ ⟨s.step (.register q), .close i⟩ := by
  obtain ⟨i, hi⟩ := List.getElem?_of_mem hp
  have hstanding : (s.step (.register q)).collector.standing s.collector.next =
      .collecting (q.start s.now) := by
    rw [standing_step_register h, Query.standing, if_neg (by simpa using hexpected)]
  have hnew : (⟨s.collector.next, q.start s.now⟩ : Registration) ∈
      (s.step (.register q)).registered :=
    List.mem_append_right _ (List.mem_singleton.mpr rfl)
  refine ⟨i, (awaits_iff (h.step _)).mpr ⟨hnew, _, hstanding⟩, ?_, i, p, rfl, hi, hid, ?_⟩
  · exact Nat.lt_add_of_pos_right htimeout
  · exact h.caller_lt (Kept.mem_lapsed hi)

/-- **Who ends a registration.** A registration is answered as timed out at one moment; if requests
are expired by their callers only, this is at its deadline or when its id is registered again, unless
the caller of an earlier registration expires it. That does not happen if no id is registered between
the two steps of a caller who gives it up, and can happen to every registration that is. -/
theorem timesOut_inDue_iff (events : List CollectorEvent)
    (hown : ∀ requestId, .expire requestId ∉ events) :
    let s := run events
    (∀ r,
      ((r ∈ s.registered ∧
          ∃ a, s.collector.standing r.handle = .answered a ∧ a.timedOut = true) ↔
        ∃ m ∈ history events, TimesOut r m) ∧
      ((∀ m ∈ history events, TimesOut r m → InDue r m) ↔
        ∀ m ∈ history events, ¬ Overtaken r m)) ∧
    (Clear events → ∀ r, ∀ m ∈ history events, ¬ Overtaken r m) ∧
    ∀ q : Query, ∀ p ∈ s.lapsed, p.requestId = q.requestId → q.expected ≠ [] → 0 < q.timeout →
      ∃ i, Overtaken ⟨s.collector.next, q.start s.now⟩ ⟨s.step (.register q), .close i⟩ := by
  intro s
  refine ⟨fun r => ⟨timedOut_iff_exists r events, fun hdue m hm hover => ?_, fun hnone m hm hout => ?_⟩,
    not_overtaken_of_clear, fun q p => exists_overtaken (kept_run events)⟩
  · obtain ⟨hout, hnot⟩ := hover.timesOut (kept_of_mem_history hm)
    exact hnot (hdue m hm hout)
  · obtain ⟨earlier, later, rfl, hbefore⟩ := mem_encounters_iff.mp hm
    change m.before = run earlier at hbefore
    obtain ⟨before, e⟩ := m
    obtain rfl : before = run earlier := hbefore
    have hown' : ∀ requestId, e ≠ .expire requestId := by
      rintro requestId rfl
      exact hown requestId (by simp)
    exact (inDue_or_overtaken (kept_run earlier) (timely_run earlier) hown'
      (fun col => deadline_of_collecting hout.1) hout).resolve_right (hnone _ hm)

/-- A caller gives up and expires its request before the id is registered again: the new registration
is answered at its own deadline. -/
theorem timesOut_inDue_successor :
    let brief : Query := ⟨"r", "plan", ["a"], .all, 100⟩
    let long : Query := ⟨"r", "plan", ["a"], .all, 1000⟩
    let events : List CollectorEvent :=
      [.register brief, .pass 100, .lapse 0, .close 0, .register long, .pass 1000, .sweep]
    let r : Registration := ⟨1, long.start 100⟩
    (∀ requestId, .expire requestId ∉ events) ∧ Clear events ∧
      (∃ m ∈ history events, TimesOut r m) ∧ ∀ m ∈ history events, TimesOut r m → InDue r m := by
  intro brief long events r
  have hown : ∀ requestId, .expire requestId ∉ events := by simp [events]
  have hclear : Clear events := by decide
  obtain ⟨hall, hnone, -⟩ := timesOut_inDue_iff events hown
  obtain ⟨htimed, hdue⟩ := hall r
  refine ⟨hown, hclear, htimed.mp ⟨by decide, ?_⟩, hdue.mpr (hnone hclear r)⟩
  exact ⟨r.start.conclude true, by decide, rfl⟩

end Correspondence

end Switchboard
