import Mathlib.Data.List.Perm.Basic
import Mathlib.Data.List.Range
import Switchboard.Proofs.Collect.Operations
import Switchboard.Proofs.Runs

/-!
# A collector and its callers

Callers register requests and wait for the answers under their handles, replies come in for any
request, requests are expired and the table is swept, all in any order. A wait may be looked at as
one step, or as two: its deadline passes, and some time later it expires its request.

* `CollectorEvent`, `Correspondence` : what happens, and the collector with its callers;
  `Correspondence.step`, `Correspondence.run`;
* `CollectorSignal` : what an event tells the table; `Standing.hear` : what a registration makes of it;
* `Correspondence.Kept` : each caller waits or has its answer; `kept_run` : after every run;
* `Correspondence.standing_step`, `standing_step_register` : one event, one registration;
  `collecting_step` : who waits after it.
-/

namespace Switchboard

/-- What happens to a collector and its callers, and the passage of time. -/
inductive CollectorEvent where
  | register (q : Query)
  | reply (requestId : String) (r : Reply)
  | expire (requestId : String)
  | sweep
  /-- The caller at this place looks whether its wait is over, and expires its request if it is
  overdue. -/
  | wait (i : Nat)
  /-- The deadline of the caller at this place passes before there is an answer. -/
  | lapse (i : Nat)
  /-- The caller at this place, whose deadline has passed, expires its request. -/
  | close (i : Nat)
  | pass (ms : Nat)
  deriving DecidableEq

/-- How long an event takes. -/
def CollectorEvent.elapsed : CollectorEvent → Nat
  | .pass ms => ms
  | _ => 0

/-- A collector, the time and the callers. -/
structure Correspondence where
  now : Nat := 0
  collector : Collector := {}
  registered : List Registration := []
  /-- Those whose wait is not over. -/
  waiting : List Pending := []
  /-- Those whose deadline has passed in vain and who have not expired their request yet. -/
  lapsed : List Pending := []
  obtained : List (Pending × Collected) := []
  deriving DecidableEq

namespace Correspondence

/-- One event. What a caller does that does not exist is no event. -/
def step (s : Correspondence) : CollectorEvent → Correspondence
  | .register q =>
    { s with
      collector := (s.collector.enlist s.now q).1
      registered := s.registered ++ [⟨s.collector.next, q.start s.now⟩]
      waiting := s.waiting ++ [(s.collector.enlist s.now q).2] }
  | .reply requestId r => { s with collector := (s.collector.receive requestId r).1 }
  | .expire requestId => { s with collector := s.collector.expire requestId }
  | .sweep => { s with collector := (s.collector.sweep s.now).1 }
  | .wait i =>
    match s.waiting[i]? with
    | some p =>
      match s.collector.wait s.now p with
      | some (collector, answer) =>
        { s with
          collector
          waiting := s.waiting.eraseIdx i
          obtained := s.obtained ++ [(p, answer)] }
      | none => s
    | none => s
  | .lapse i =>
    match s.waiting[i]? with
    | some p =>
      if s.collector.isOpen p.handle && decide (p.deadline ≤ s.now) then
        { s with waiting := s.waiting.eraseIdx i, lapsed := s.lapsed ++ [p] }
      else s
    | none => s
  | .close i =>
    match s.lapsed[i]? with
    | some p =>
      { s with
        collector := (s.collector.finish p).1
        lapsed := s.lapsed.eraseIdx i
        obtained := s.obtained ++ [(p, (s.collector.finish p).2)] }
    | none => s
  | .pass ms => { s with now := s.now + ms }

/-- A new collector after some events, the first one first. -/
def run (events : List CollectorEvent) : Correspondence := events.foldl step {}

theorem run_concat (events : List CollectorEvent) (e : CollectorEvent) :
    run (events ++ [e]) = (run events).step e := by
  simp [run]

end Correspondence

/-! ## What an event tells the table -/

/-- What an event tells the table of collections. -/
inductive CollectorSignal where
  | reply (requestId : String) (r : Reply)
  /-- The collection of this request is answered with what it has. -/
  | close (requestId : String)
  | sweep
  | nothing
  deriving DecidableEq

/-- A signal that answers a collection with what it has. -/
def CollectorSignal.closes (now : Nat) (col : Collection) : CollectorSignal → Bool
  | .close requestId => col.requestId == requestId
  | .sweep => decide (col.deadline ≤ now)
  | _ => false

/-- Replies do not put off what closes a collection. -/
theorem CollectorSignal.closes_receiveAll (now : Nat) (c : Collection) (replies : List Reply)
    (sig : CollectorSignal) : sig.closes now (c.receiveAll replies) = sig.closes now c := by
  cases sig <;> simp [closes, Collection.requestId_receiveAll, Collection.deadline_receiveAll]

/-- What a registration makes of a signal. -/
def Standing.hear (now : Nat) : CollectorSignal → Standing → Standing
  | .reply requestId r, s => s.receive requestId r
  | .close requestId, s => s.answerWhere true (·.requestId == requestId)
  | .sweep, s => s.answerWhere true (·.deadline ≤ now)
  | .nothing, s => s

namespace Standing

@[simp] theorem hear_answered (now : Nat) (sig : CollectorSignal) (a : Collected) :
    (answered a).hear now sig = answered a := by
  cases sig <;> rfl

/-- What waits after a signal waited before it, for the same request. -/
theorem hear_eq_collecting {s : Standing} {now : Nat} {sig : CollectorSignal} {col : Collection}
    (h : s.hear now sig = collecting col) :
    ∃ col', s = collecting col' ∧ col.requestId = col'.requestId := by
  cases s with
  | unknown => cases sig <;> cases h
  | answered a => cases sig <;> cases h
  | collecting col' =>
    refine ⟨col', rfl, ?_⟩
    cases sig with
    | reply requestId r =>
      simp only [hear, receive] at h
      split at h
      · split at h
        · cases h
        · cases h
          exact col'.requestId_receive r
      · cases h
        rfl
    | close requestId =>
      simp only [hear, answerWhere] at h
      split at h <;> cases h
      rfl
    | sweep =>
      simp only [hear, answerWhere] at h
      split at h <;> cases h
      rfl
    | nothing =>
      cases h
      rfl

theorem hear_of_not_closes {now : Nat} {sig : CollectorSignal} {col : Collection}
    (hsig : ∀ requestId r, sig ≠ .reply requestId r) (h : sig.closes now col = false) :
    (collecting col).hear now sig = collecting col := by
  cases sig with
  | reply requestId r => exact absurd rfl (hsig requestId r)
  | close requestId => exact if_neg (Bool.eq_false_iff.mp h)
  | sweep => exact if_neg (Bool.eq_false_iff.mp h)
  | nothing => rfl

theorem hear_of_closes {now : Nat} {sig : CollectorSignal} {col : Collection}
    (h : sig.closes now col = true) :
    (collecting col).hear now sig = answered (col.conclude true) := by
  cases sig with
  | reply requestId r => cases h
  | close requestId => exact if_pos h
  | sweep => exact if_pos h
  | nothing => cases h

end Standing

namespace Collector

variable {c : Collector}

def hear (now : Nat) (c : Collector) : CollectorSignal → Collector
  | .reply requestId r => (c.receive requestId r).1
  | .close requestId => c.expire requestId
  | .sweep => (c.sweep now).1
  | .nothing => c

theorem Sound.hear (h : c.Sound) (now : Nat) (sig : CollectorSignal) : (c.hear now sig).Sound := by
  cases sig with
  | reply requestId r => exact h.receive requestId r
  | close requestId => exact h.expire requestId
  | sweep => exact h.sweep now
  | nothing => exact h

/-- A signal acts on each registration alone. -/
theorem standing_hear (h : c.Sound) (now : Nat) (sig : CollectorSignal) (k : Nat) :
    (c.hear now sig).standing k = (c.standing k).hear now sig := by
  cases sig with
  | reply requestId r => exact standing_receive h requestId r k
  | close requestId => exact standing_expire h requestId k
  | sweep => exact standing_sweep h now k
  | nothing => rfl

theorem next_hear (now : Nat) (sig : CollectorSignal) : (c.hear now sig).next = c.next := by
  cases sig with
  | reply requestId r =>
    simp only [hear, receive, add]
    split
    · rfl
    · split
      · rfl
      · dsimp only
        split <;> rfl
  | close requestId => rfl
  | sweep => rfl
  | nothing => rfl

theorem next_enlist (now : Nat) (q : Query) : (c.enlist now q).1.next = c.next + 1 := by
  rw [enlist_eq]
  split <;> rfl

end Collector

namespace Correspondence

variable {s : Correspondence} {i k : Nat} {p : Pending} {a : Collected} {col : Collection}

/-- What an event tells the table. To a registration that is there already, another one of the same
request is its end. -/
def signal (s : Correspondence) : CollectorEvent → CollectorSignal
  | .register q => .close q.requestId
  | .reply requestId r => .reply requestId r
  | .expire requestId => .close requestId
  | .sweep => .sweep
  | .wait i =>
    match s.waiting[i]? with
    | some p =>
      if s.collector.isOpen p.handle && decide (p.deadline ≤ s.now) then .close p.requestId
      else .nothing
    | none => .nothing
  | .lapse _ => .nothing
  | .close i =>
    match s.lapsed[i]? with
    | some p => .close p.requestId
    | none => .nothing
  | .pass _ => .nothing

theorem signal_ne_reply {e : CollectorEvent} (he : ∀ requestId x, e ≠ .reply requestId x) :
    ∀ requestId x, s.signal e ≠ .reply requestId x := by
  intro requestId x
  cases e with
  | reply requestId x => exact absurd rfl (he requestId x)
  | wait i =>
    simp only [signal]
    split
    · split <;> simp
    · simp
  | close i =>
    simp only [signal]
    split <;> simp
  | _ => simp [signal]

/-! ## Each caller waits or has its answer -/

/-- The table is sound, handles are given out in order, each caller waits or has obtained an answer,
what waits in the table waits for its request, and what was obtained is what was put aside. -/
structure Kept (s : Correspondence) : Prop where
  sound : s.collector.Sound
  handles : s.registered.map (·.handle) = List.range s.collector.next
  callers : (s.waiting ++ s.lapsed ++ s.obtained.map (·.1)).Perm (s.registered.map (·.pending))
  requests : ∀ r ∈ s.registered, ∀ col, s.collector.standing r.handle = .collecting col →
    col.requestId = r.start.requestId
  answers : ∀ o ∈ s.obtained, s.collector.standing o.1.handle = .answered o.2

namespace Kept

theorem handle_lt (h : s.Kept) {r : Registration} (hr : r ∈ s.registered) :
    r.handle < s.collector.next := by
  have hmem : r.handle ∈ s.registered.map (·.handle) := List.mem_map_of_mem hr
  rw [h.handles] at hmem
  exact List.mem_range.mp hmem

theorem eq_of_handle_eq (h : s.Kept) {r r' : Registration} (hr : r ∈ s.registered)
    (hr' : r' ∈ s.registered) (heq : r.handle = r'.handle) : r = r' :=
  List.inj_on_of_nodup_map (h.handles ▸ List.nodup_range) hr hr' heq

theorem exists_registered (h : s.Kept) (hk : k < s.collector.next) :
    ∃ r ∈ s.registered, r.handle = k := by
  have hmem : k ∈ s.registered.map (·.handle) := by
    rw [h.handles]
    exact List.mem_range.mpr hk
  exact List.mem_map.mp hmem

/-- Callers hold what they were given when they registered. -/
theorem exists_caller (h : s.Kept)
    (hp : p ∈ s.waiting ++ s.lapsed ++ s.obtained.map (·.1)) :
    ∃ r ∈ s.registered, r.pending = p :=
  List.mem_map.mp (h.callers.subset hp)

theorem caller_lt (h : s.Kept) (hp : p ∈ s.waiting ++ s.lapsed ++ s.obtained.map (·.1)) :
    p.handle < s.collector.next := by
  obtain ⟨r, hr, rfl⟩ := h.exists_caller hp
  exact h.handle_lt hr

theorem caller_request (h : s.Kept) (hp : p ∈ s.waiting ++ s.lapsed ++ s.obtained.map (·.1))
    (hs : s.collector.standing p.handle = .collecting col) : col.requestId = p.requestId := by
  obtain ⟨r, hr, rfl⟩ := h.exists_caller hp
  exact h.requests r hr col hs

theorem mem_waiting (hi : s.waiting[i]? = some p) :
    p ∈ s.waiting ++ s.lapsed ++ s.obtained.map (·.1) :=
  List.mem_append_left _ (List.mem_append_left _ (List.mem_of_getElem? hi))

theorem mem_lapsed (hi : s.lapsed[i]? = some p) :
    p ∈ s.waiting ++ s.lapsed ++ s.obtained.map (·.1) :=
  List.mem_append_left _ (List.mem_append_right _ (List.mem_of_getElem? hi))

/-- A signal to the table keeps all this, whatever the callers make of it among themselves. -/
theorem hear (h : s.Kept) {s' : Correspondence} {sig : CollectorSignal}
    (hcollector : s'.collector = s.collector.hear s.now sig)
    (hregistered : s'.registered = s.registered)
    (hcallers : (s'.waiting ++ s'.lapsed ++ s'.obtained.map (·.1)).Perm
      (s.waiting ++ s.lapsed ++ s.obtained.map (·.1)))
    (hobtained : ∀ o ∈ s'.obtained,
      o ∈ s.obtained ∨ s'.collector.standing o.1.handle = .answered o.2) : s'.Kept where
  sound := by
    rw [hcollector]
    exact h.sound.hear s.now sig
  handles := by
    rw [hregistered, hcollector, Collector.next_hear]
    exact h.handles
  callers := by
    rw [hregistered]
    exact hcallers.trans h.callers
  requests := by
    intro r hr col hs
    rw [hregistered] at hr
    rw [hcollector, Collector.standing_hear h.sound] at hs
    obtain ⟨col', hs', hid⟩ := Standing.hear_eq_collecting hs
    rw [hid]
    exact h.requests r hr col' hs'
  answers := by
    intro o ho
    rcases hobtained o ho with hold | hnew
    · rw [hcollector, Collector.standing_hear h.sound, h.answers o hold, Standing.hear_answered]
    · exact hnew

theorem register (h : s.Kept) (q : Query) : (s.step (.register q)).Kept where
  sound := h.sound.enlist s.now q
  handles := by
    simp only [step, List.map_append, h.handles, Collector.next_enlist, List.range_succ]
    rfl
  callers := by
    have hnew := h.callers.append_right [(s.collector.enlist s.now q).2]
    have hfront : ((s.step (.register q)).waiting ++ s.lapsed ++ s.obtained.map (·.1)).Perm
        ((s.collector.enlist s.now q).2 :: (s.waiting ++ s.lapsed ++ s.obtained.map (·.1))) := by
      simp [step]
    simp only [step, List.map_append]
    exact hfront.trans ((List.perm_append_singleton _ _).symm.trans hnew)
  requests := by
    intro r hr col hs
    simp only [step] at hr hs
    rw [Collector.standing_enlist h.sound] at hs
    rcases List.mem_append.mp hr with hold | hnew
    · rw [if_neg (Nat.ne_of_lt (h.handle_lt hold))] at hs
      have hheard : (s.collector.standing r.handle).hear s.now (.close q.requestId) =
          .collecting col := hs
      obtain ⟨col', hs', hid⟩ := Standing.hear_eq_collecting hheard
      rw [hid]
      exact h.requests r hold col' hs'
    · obtain rfl := List.mem_singleton.mp hnew
      rw [if_pos rfl, Query.standing] at hs
      split at hs <;> cases hs
      rfl
  answers := by
    intro o ho
    have hs := h.answers o ho
    have hlt := (Collector.standing_ne_unknown_iff h.sound).mp (by
      rw [hs]
      intro heq
      cases heq)
    simp only [step]
    rw [Collector.standing_enlist h.sound, if_neg (Nat.ne_of_lt hlt), hs]
    rfl

end Kept

/-! ## What a caller's look does -/

theorem step_wait_none (hi : s.waiting[i]? = none) : s.step (.wait i) = s := by
  simp only [step, hi]

theorem step_wait_answered (h : s.Kept) (hi : s.waiting[i]? = some p)
    (hs : s.collector.standing p.handle = .answered a) :
    s.step (.wait i) =
      { s with waiting := s.waiting.eraseIdx i, obtained := s.obtained ++ [(p, a)] } := by
  simp only [step, hi, Collector.wait_of_answered h.sound hs]

theorem step_wait_due (h : s.Kept) (hi : s.waiting[i]? = some p)
    (hs : s.collector.standing p.handle = .collecting col) (hdue : p.deadline ≤ s.now) :
    s.step (.wait i) =
      { s with
        collector := (s.collector.finish p).1
        waiting := s.waiting.eraseIdx i
        obtained := s.obtained ++ [(p, (s.collector.finish p).2)] } := by
  simp only [step, hi, Collector.wait_of_collecting h.sound hs, if_pos hdue]

theorem step_wait_early (h : s.Kept) (hi : s.waiting[i]? = some p)
    (hs : s.collector.standing p.handle = .collecting col) (hearly : ¬ p.deadline ≤ s.now) :
    s.step (.wait i) = s := by
  simp only [step, hi, Collector.wait_of_collecting h.sound hs, if_neg hearly]

theorem signal_wait (hi : s.waiting[i]? = some p) :
    s.signal (.wait i) =
      if s.collector.isOpen p.handle && decide (p.deadline ≤ s.now) then .close p.requestId
      else .nothing := by
  simp only [signal, hi]

theorem signal_wait_answered (h : s.Kept) (hi : s.waiting[i]? = some p)
    (hs : s.collector.standing p.handle = .answered a) : s.signal (.wait i) = .nothing := by
  have hclosed : s.collector.isOpen p.handle = false := by
    rw [Bool.eq_false_iff]
    intro hopen
    obtain ⟨col, hs'⟩ := (Collector.isOpen_iff h.sound).mp hopen
    rw [hs] at hs'
    cases hs'
  rw [signal_wait hi, hclosed]
  rfl

theorem signal_wait_collecting (h : s.Kept) (hi : s.waiting[i]? = some p)
    (hs : s.collector.standing p.handle = .collecting col) :
    s.signal (.wait i) = if p.deadline ≤ s.now then .close p.requestId else .nothing := by
  rw [signal_wait hi, (Collector.isOpen_iff h.sound).mpr ⟨col, hs⟩]
  simp

/-- An event other than a registration changes the table by its signal. -/
theorem collector_step (h : s.Kept) {e : CollectorEvent} (he : ∀ q, e ≠ .register q) :
    (s.step e).collector = s.collector.hear s.now (s.signal e) := by
  cases e with
  | register q => exact absurd rfl (he q)
  | reply requestId r => rfl
  | expire requestId => rfl
  | sweep => rfl
  | pass ms => rfl
  | lapse i =>
    simp only [step]
    split
    · split <;> rfl
    · rfl
  | close i =>
    simp only [step, signal]
    split <;> rfl
  | wait i =>
    cases hi : s.waiting[i]? with
    | none =>
      rw [step_wait_none hi]
      simp only [signal, hi]
      rfl
    | some p =>
      cases hs : s.collector.standing p.handle with
      | unknown =>
        have hlt := h.caller_lt (Kept.mem_waiting hi)
        exact absurd hs ((Collector.standing_ne_unknown_iff h.sound).mpr hlt)
      | answered a =>
        rw [step_wait_answered h hi hs, signal_wait_answered h hi hs]
        rfl
      | collecting col =>
        rw [signal_wait_collecting h hi hs]
        by_cases hdue : p.deadline ≤ s.now
        · rw [step_wait_due h hi hs hdue, if_pos hdue]
          rfl
        · rw [step_wait_early h hi hs hdue, if_neg hdue]
          rfl

theorem kept_empty : Kept {} where
  sound := Collector.sound_empty
  handles := rfl
  callers := .refl _
  requests := by simp
  answers := by simp

/-- A caller who obtained what was put aside for it moves over to those who have their answer. -/
theorem Kept.obtain (h : s.Kept) {s' : Correspondence} {sig : CollectorSignal}
    (hcollector : s'.collector = s.collector.hear s.now sig)
    (hregistered : s'.registered = s.registered)
    (hcallers : (p :: (s'.waiting ++ s'.lapsed)).Perm (s.waiting ++ s.lapsed))
    (hobtained : s'.obtained = s.obtained ++ [(p, a)])
    (hanswer : s'.collector.standing p.handle = .answered a) : s'.Kept := by
  refine h.hear hcollector hregistered ?_ ?_
  · have hlast : s'.obtained.map (·.1) = s.obtained.map (·.1) ++ [p] := by simp [hobtained]
    rw [hlast, ← List.append_assoc]
    exact (List.perm_append_singleton _ _).trans (hcallers.append_right _)
  · intro o ho
    rw [hobtained] at ho
    rcases List.mem_append.mp ho with hold | hnew
    · exact .inl hold
    · obtain rfl := List.mem_singleton.mp hnew
      exact .inr hanswer

theorem perm_eraseIdx {α : Type} {items : List α} {x : α} (hi : items[i]? = some x) :
    (x :: items.eraseIdx i).Perm items := by
  obtain ⟨hlt, rfl⟩ := List.getElem?_eq_some_iff.mp hi
  exact List.getElem_cons_eraseIdx_perm hlt

theorem Kept.step (h : s.Kept) (e : CollectorEvent) : (s.step e).Kept := by
  cases e with
  | register q => exact h.register q
  | reply requestId r =>
    exact h.hear (collector_step h (by simp)) rfl (.refl _) fun o ho => .inl ho
  | expire requestId =>
    exact h.hear (collector_step h (by simp)) rfl (.refl _) fun o ho => .inl ho
  | sweep => exact h.hear (collector_step h (by simp)) rfl (.refl _) fun o ho => .inl ho
  | pass ms => exact h.hear (collector_step h (by simp)) rfl (.refl _) fun o ho => .inl ho
  | lapse i =>
    simp only [Correspondence.step]
    split
    · rename_i p hi
      split
      · have hmoved : (s.waiting.eraseIdx i ++ (s.lapsed ++ [p])).Perm (s.waiting ++ s.lapsed) := by
          have hfront : (s.waiting.eraseIdx i ++ (s.lapsed ++ [p])).Perm
              (p :: s.waiting.eraseIdx i ++ s.lapsed) := by
            rw [← List.append_assoc]
            exact List.perm_append_singleton _ _
          exact hfront.trans ((perm_eraseIdx hi).append_right _)
        have hcollector : s.collector = s.collector.hear s.now .nothing := rfl
        exact h.hear hcollector rfl (hmoved.append_right _) fun o ho => .inl ho
      · exact h
    · exact h
  | close i =>
    have hcollector := collector_step h (e := .close i) (by simp)
    cases hi : s.lapsed[i]? with
    | none => simpa only [Correspondence.step, hi] using h
    | some p =>
      have hfinish := Collector.standing_finish h.sound (h.caller_lt (mem_lapsed hi))
        fun col => h.caller_request (mem_lapsed hi)
      simp only [Correspondence.step, hi] at hcollector ⊢
      refine h.obtain hcollector rfl ?_ rfl hfinish
      exact List.perm_middle.symm.trans ((perm_eraseIdx hi).append_left _)
  | wait i =>
    have hcollector := collector_step h (e := .wait i) (by simp)
    cases hi : s.waiting[i]? with
    | none =>
      rw [step_wait_none hi]
      exact h
    | some p =>
      have hlt := h.caller_lt (mem_waiting hi)
      cases hs : s.collector.standing p.handle with
      | unknown => exact absurd hs ((Collector.standing_ne_unknown_iff h.sound).mpr hlt)
      | answered a =>
        rw [step_wait_answered h hi hs] at hcollector ⊢
        exact h.obtain hcollector rfl ((perm_eraseIdx hi).append_right _) rfl hs
      | collecting col =>
        by_cases hdue : p.deadline ≤ s.now
        · rw [step_wait_due h hi hs hdue] at hcollector ⊢
          refine h.obtain hcollector rfl ((perm_eraseIdx hi).append_right _) rfl ?_
          exact Collector.standing_finish h.sound hlt fun col => h.caller_request (mem_waiting hi)
        · rw [step_wait_early h hi hs hdue]
          exact h

theorem kept_run (events : List CollectorEvent) : (run events).Kept := by
  induction events using List.reverseRecOn with
  | nil => exact kept_empty
  | append_singleton events e ih =>
    rw [run_concat]
    exact ih.step e

/-! ## One event, one registration -/

/-- An event acts on each registration but the one it makes by its signal. -/
theorem standing_step_of_old (h : s.Kept) {e : CollectorEvent}
    (hold : ∀ q, e = .register q → k ≠ s.collector.next) :
    (s.step e).collector.standing k = (s.collector.standing k).hear s.now (s.signal e) := by
  by_cases he : ∃ q, e = .register q
  · obtain ⟨q, rfl⟩ := he
    exact (Collector.standing_enlist h.sound s.now q k).trans (if_neg (hold q rfl))
  · rw [collector_step h fun q heq => he ⟨q, heq⟩, Collector.standing_hear h.sound]

theorem standing_step (h : s.Kept) (e : CollectorEvent) (hk : k < s.collector.next) :
    (s.step e).collector.standing k = (s.collector.standing k).hear s.now (s.signal e) :=
  standing_step_of_old h fun _ _ => Nat.ne_of_lt hk

theorem standing_step_register (h : s.Kept) (q : Query) :
    (s.step (.register q)).collector.standing s.collector.next = q.standing s.now :=
  (Collector.standing_enlist h.sound s.now q _).trans (if_pos rfl)

/-- What waits after an event waited before it and was not closed by it, or was registered by it. -/
theorem collecting_step (h : s.Kept) {e : CollectorEvent} {col : Collection}
    (hs : (s.step e).collector.standing k = .collecting col) :
    (∃ col', s.collector.standing k = .collecting col' ∧ col.requestId = col'.requestId ∧
      (s.signal e).closes s.now col' = false) ∨
    ∃ q, e = .register q ∧ k = s.collector.next ∧ col = q.start s.now := by
  by_cases hnew : ∃ q, e = .register q ∧ k = s.collector.next
  · obtain ⟨q, rfl, rfl⟩ := hnew
    rw [standing_step_register h, Query.standing] at hs
    split at hs <;> cases hs
    exact .inr ⟨q, rfl, rfl, rfl⟩
  · left
    rw [standing_step_of_old h fun q he hk => hnew ⟨q, he, hk⟩] at hs
    obtain ⟨col', hs', hid⟩ := Standing.hear_eq_collecting hs
    refine ⟨col', hs', hid, Bool.eq_false_iff.mpr fun hcloses => ?_⟩
    rw [hs', Standing.hear_of_closes hcloses] at hs
    cases hs

theorem next_step_le (h : s.Kept) (e : CollectorEvent) :
    s.collector.next ≤ (s.step e).collector.next := by
  by_cases he : ∃ q, e = .register q
  · obtain ⟨q, rfl⟩ := he
    exact Nat.le_of_lt (Nat.lt_of_lt_of_eq (Nat.lt_succ_self _) (Collector.next_enlist s.now q).symm)
  · rw [collector_step h fun q heq => he ⟨q, heq⟩, Collector.next_hear]

end Correspondence

end Switchboard
