import Mathlib.Data.List.Induction
import Switchboard.Proofs.Collect.Standing

/-!
# What the operations do to registrations

* `Query` : what is asked for; `Query.start` : its collection before any reply;
* `Registration` : a collection under its handle; `Registration.pending` : what the caller holds;
* `Collector.standing_expire`, `standing_sweep`, `standing_enlist`, `standing_receive` : what each
  operation does to each registration;
* `Collector.receive_accepts_iff` : a reply is taken when a collection of its request waits;
* `Collector.finish` : how a wait ends after its deadline; `wait_of_answered`,
  `wait_of_collecting`, `standing_finish` : what a wait obtains.
-/

namespace Switchboard

/-- What is asked for, and when it counts as answered. -/
structure Query where
  requestId : String
  capability : String
  expected : List String
  strategy : Strategy
  timeout : Nat
  deriving DecidableEq, Inhabited

/-- The collection of a request before any reply. -/
def Query.start (q : Query) (now : Nat) : Collection where
  requestId := q.requestId
  capability := q.capability
  expected := q.expected
  strategy := q.strategy
  timeout := q.timeout
  createdAt := now

/-- A collection as it was at first, under its handle. -/
structure Registration where
  handle : Nat
  start : Collection
  deriving DecidableEq, Inhabited

/-- What whoever registered it holds. -/
def Registration.pending (r : Registration) : Pending :=
  ⟨r.handle, r.start.requestId, r.start.capability, r.start.strategy, r.start.deadline⟩

/-- How a registration stands from the first. -/
def Query.standing (q : Query) (now : Nat) : Standing :=
  if q.expected.isEmpty then .answered ((q.start now).conclude false) else .collecting (q.start now)

/-! ## Replies -/

namespace Reply

def successes (replies : List Reply) : List (String × Json) :=
  (replies.filter (!·.isError)).map fun r => (r.sender, r.content)

def errors (replies : List Reply) : List (String × Json) :=
  (replies.filter (·.isError)).map fun r => (r.sender, r.content)

/-- Who replied, in the order of first replies. -/
def senders (replies : List Reply) : List String := (replies.map (·.sender)).eraseDups

end Reply

namespace Collection

theorem receive_eq (c : Collection) (r : Reply) :
    c.receive r =
      { c with
        responses := c.responses ++ Reply.successes [r]
        errors := c.errors ++ Reply.errors [r]
        receivedFrom :=
          if c.receivedFrom.contains r.sender then c.receivedFrom
          else c.receivedFrom ++ [r.sender] } := by
  unfold receive add
  cases hr : r.isError <;> simp [Reply.successes, Reply.errors, hr]

theorem requestId_receive (c : Collection) (r : Reply) : (c.receive r).requestId = c.requestId := by
  rw [receive_eq]

theorem receiveAll_concat (c : Collection) (replies : List Reply) (r : Reply) :
    c.receiveAll (replies ++ [r]) = (c.receiveAll replies).receive r := by
  simp [receiveAll]

/-- Replies add to what a collection holds and leave what was asked for. -/
theorem exists_receiveAll (c : Collection) (replies : List Reply) :
    ∃ responses errors receivedFrom,
      c.receiveAll replies = { c with responses, errors, receivedFrom } := by
  induction replies using List.reverseRecOn with
  | nil => exact ⟨_, _, _, rfl⟩
  | append_singleton replies r ih =>
    obtain ⟨responses, errors, receivedFrom, h⟩ := ih
    rw [receiveAll_concat, h, receive_eq]
    exact ⟨_, _, _, rfl⟩

theorem requestId_receiveAll (c : Collection) (replies : List Reply) :
    (c.receiveAll replies).requestId = c.requestId := by
  obtain ⟨_, _, _, h⟩ := c.exists_receiveAll replies
  rw [h]

theorem deadline_receiveAll (c : Collection) (replies : List Reply) :
    (c.receiveAll replies).deadline = c.deadline := by
  obtain ⟨_, _, _, h⟩ := c.exists_receiveAll replies
  rw [h]
  rfl

/-- What a collection holds after replies. -/
theorem receiveAll_start (q : Query) (now : Nat) (replies : List Reply) :
    (q.start now).receiveAll replies =
      { q.start now with
        responses := Reply.successes replies
        errors := Reply.errors replies
        receivedFrom := Reply.senders replies } := by
  induction replies using List.reverseRecOn with
  | nil => rfl
  | append_singleton replies r ih =>
    have hsenders : Reply.senders (replies ++ [r]) =
        if (Reply.senders replies).contains r.sender then Reply.senders replies
        else Reply.senders replies ++ [r.sender] := by
      simp [Reply.senders, eraseDups_concat, List.mem_eraseDups]
    rw [receiveAll_concat, ih, receive_eq, hsenders]
    simp [Reply.successes, Reply.errors]

/-- A concluded collection is told from a lost one by its content. -/
theorem conclude_ne_lost (c : Collection) (timedOut : Bool) (p : Pending) :
    c.conclude timedOut ≠ p.lost := by
  intro h
  have hsuccess := congrArg Collected.success h
  have hcontent := congrArg Collected.content h
  cases hr : c.responses with
  | nil => simp [conclude, hr, failureContent, Pending.lost, Collected.lost] at hcontent
  | cons r rs => simp [conclude, hr, Pending.lost, Collected.lost] at hsuccess

end Collection

namespace Collector

variable {c : Collector} {k now : Nat} {col : Collection} {a : Collected} {requestId : String}

theorem collecting_unique (h : c.Sound) {k' : Nat} {col' : Collection}
    (hs : c.standing k = .collecting col) (hs' : c.standing k' = .collecting col')
    (hid : col.requestId = col'.requestId) : k = k' := by
  have he := (standing_eq_collecting_iff h).mp hs
  have he' := (standing_eq_collecting_iff h).mp hs'
  exact congrArg CollectorEntry.handle (List.inj_on_of_nodup_map h.ids he he' hid)

/-! ## Expiring and sweeping -/

theorem Sound.expire (h : c.Sound) (requestId : String) : (c.expire requestId).Sound :=
  h.resolveWhere _ _

theorem standing_expire (h : c.Sound) (requestId : String) (k : Nat) :
    (c.expire requestId).standing k =
      (c.standing k).answerWhere true (·.requestId == requestId) :=
  standing_resolveWhere _ _ h k

theorem resolved_of_selected (timedOut : Bool) (f : Collection → Bool) :
    ∀ e ∈ (c.resolveWhere timedOut fun e => f e.collection).entries,
      f e.collection = true → e.resolved = true := by
  intro e' he' hf
  rw [entries_resolveWhere] at he'
  obtain ⟨e, -, rfl⟩ := List.mem_map.mp he'
  rw [collection_mark] at hf
  unfold mark
  split <;> simp_all

theorem swept_resolved (now : Nat) (c : Collector) :
    ∀ e ∈ (c.resolveWhere true (·.collection.deadline ≤ now)).entries,
      (!e.resolved && decide (now < e.collection.createdAt + 2 * e.collection.timeout)) = false →
        e.resolved = true := by
  intro e he hkeep
  by_contra hres
  have hopen : e.resolved = false := by simpa using hres
  have hlate : e.collection.createdAt + 2 * e.collection.timeout ≤ now := by
    simpa [hopen] using hkeep
  -- twice the timeout is over, so the deadline was over before
  have hdue : e.collection.deadline ≤ now := by
    unfold Collection.deadline
    omega
  exact hres (resolved_of_selected true (·.deadline ≤ now) e he (decide_eq_true hdue))

theorem Sound.sweep (h : c.Sound) (now : Nat) : (c.sweep now).1.Sound :=
  (h.resolveWhere true _).discard (swept_resolved now c)

theorem standing_sweep (h : c.Sound) (now k : Nat) :
    (c.sweep now).1.standing k = (c.standing k).answerWhere true (·.deadline ≤ now) :=
  (standing_discard (h.resolveWhere true _) (swept_resolved now c) k).trans
    (standing_resolveWhere _ _ h k)

/-! ## Registering -/

/-- Register what is asked for. -/
def enlist (now : Nat) (q : Query) (c : Collector) : Collector × Pending :=
  c.register now q.requestId q.capability q.expected q.strategy q.timeout

/-- The table without a request. -/
def vacate (requestId : String) (c : Collector) : Collector :=
  let c := c.expire requestId
  { c with entries := c.entries.filter (·.collection.requestId != requestId) }

theorem enlist_eq (now : Nat) (q : Query) (c : Collector) :
    (c.enlist now q).1 =
      if q.expected.isEmpty then
        ((c.vacate q.requestId).enroll (q.start now)).resolveWhere false
          (·.collection.requestId == q.requestId)
      else (c.vacate q.requestId).enroll (q.start now) := rfl

theorem vacated_resolved (requestId : String) (c : Collector) :
    ∀ e ∈ (c.expire requestId).entries,
      (e.collection.requestId != requestId) = false → e.resolved = true :=
  fun e he hid => resolved_of_selected true (·.requestId == requestId) e he (by simpa using hid)

theorem Sound.vacate (h : c.Sound) (requestId : String) : (c.vacate requestId).Sound :=
  (h.expire requestId).discard (vacated_resolved requestId c)

theorem standing_vacate (h : c.Sound) (requestId : String) (k : Nat) :
    (c.vacate requestId).standing k =
      (c.standing k).answerWhere true (·.requestId == requestId) :=
  (standing_discard (h.expire requestId) (vacated_resolved requestId c) k).trans
    (standing_expire h requestId k)

theorem vacate_free (requestId : String) (c : Collector) :
    ∀ e ∈ (c.vacate requestId).entries, e.collection.requestId ≠ requestId := by
  intro e he
  simpa using List.of_mem_filter he

theorem Sound.enlist (h : c.Sound) (now : Nat) (q : Query) : (c.enlist now q).1.Sound := by
  have henrolled : ((c.vacate q.requestId).enroll (q.start now)).Sound :=
    (h.vacate q.requestId).enroll (vacate_free q.requestId c)
  rw [enlist_eq]
  split
  · exact henrolled.resolveWhere _ _
  · exact henrolled

/-- The new registration gets the next handle; one of the same request is answered with what it
has. -/
theorem standing_enlist (h : c.Sound) (now : Nat) (q : Query) (k : Nat) :
    (c.enlist now q).1.standing k =
      if k = c.next then q.standing now
      else (c.standing k).answerWhere true (·.requestId == q.requestId) := by
  have hv := h.vacate q.requestId
  have hfree := vacate_free q.requestId c
  have hnext : (c.vacate q.requestId).next = c.next := rfl
  have henrolled : ∀ k, ((c.vacate q.requestId).enroll (q.start now)).standing k =
      if k = c.next then .collecting (q.start now)
      else (c.standing k).answerWhere true (·.requestId == q.requestId) := by
    intro k
    rw [standing_enroll hv hfree, standing_vacate h, hnext]
  rw [enlist_eq, Query.standing]
  split
  · rw [standing_resolveWhere _ _ (hv.enroll hfree), henrolled]
    split
    · simp [Standing.answerWhere, Query.start]
    · exact Standing.answerWhere_answerWhere ..
  · exact henrolled k

/-! ## Replies to requests -/

section Receive

variable {r : Reply}

/-- A reply meets a collection that waits, or it is refused. -/
theorem get?_cases (h : c.Sound) (requestId : String) :
    (∃ k col, c.standing k = .collecting col ∧ col.requestId = requestId ∧
      c.get? requestId = some ⟨k, col, false⟩) ∨
    ((∀ k col, c.standing k = .collecting col → col.requestId ≠ requestId) ∧
      ∀ e, c.get? requestId = some e → e.resolved = true) := by
  cases hget : c.get? requestId with
  | none =>
    refine .inr ⟨fun k col hs hid => ?_, fun e he => by cases he⟩
    have he := (standing_eq_collecting_iff h).mp hs
    exact find?_key_eq_none_iff.mp hget (List.mem_map.mpr ⟨_, he, hid⟩)
  | some e =>
    obtain ⟨he, hid⟩ := (find?_key_eq_some_iff h.ids).mp hget
    obtain ⟨k, col, resolved⟩ := e
    cases resolved with
    | false => exact .inl ⟨k, col, (standing_eq_collecting_iff h).mpr he, hid, rfl⟩
    | true =>
      refine .inr ⟨fun k' col' hs hid' => ?_, fun e heq => by cases heq; rfl⟩
      have he' := (standing_eq_collecting_iff h).mp hs
      have heq := List.inj_on_of_nodup_map h.ids he he' (hid.trans hid'.symm)
      cases heq

theorem receive_refused (hget : ∀ e, c.get? requestId = some e → e.resolved = true) :
    c.receive requestId r = (c, false) := by
  unfold receive add
  split
  · rfl
  · rename_i e he
    rw [if_pos (hget e he)]

theorem receive_taken (hget : c.get? requestId = some ⟨k, col, false⟩) :
    c.receive requestId r =
      (if (col.receive r).isComplete then
        (c.put ⟨k, col.receive r, false⟩).resolveWhere false (·.handle == k)
      else c.put ⟨k, col.receive r, false⟩, true) := by
  unfold receive add
  rw [hget]
  rfl

/-- A reply is taken when a collection of its request waits. -/
theorem receive_accepts_iff (h : c.Sound) :
    (c.receive requestId r).2 = true ↔
      ∃ k col, c.standing k = .collecting col ∧ col.requestId = requestId := by
  rcases get?_cases h requestId with ⟨k, col, hs, hid, hget⟩ | ⟨hnone, hget⟩
  · rw [receive_taken hget]
    exact ⟨fun _ => ⟨k, col, hs, hid⟩, fun _ => rfl⟩
  · rw [receive_refused hget]
    refine ⟨fun hf => (by cases hf), ?_⟩
    rintro ⟨k, col, hs, hid⟩
    exact absurd hid (hnone k col hs)

theorem Sound.receive (h : c.Sound) (requestId : String) (r : Reply) :
    (c.receive requestId r).1.Sound := by
  rcases get?_cases h requestId with ⟨k, col, hs, hid, hget⟩ | ⟨hnone, hget⟩
  · have hput := h.put ((standing_eq_collecting_iff h).mp hs) (col.requestId_receive r)
    rw [receive_taken hget]
    dsimp only
    split
    · exact hput.resolveWhere _ _
    · exact hput
  · rw [receive_refused hget]
    exact h

theorem standing_receive (h : c.Sound) (requestId : String) (r : Reply) (k : Nat) :
    (c.receive requestId r).1.standing k = (c.standing k).receive requestId r := by
  rcases get?_cases h requestId with ⟨k', col, hs, hid, hget⟩ | ⟨hnone, hget⟩
  · have he := (standing_eq_collecting_iff h).mp hs
    have hcol := col.requestId_receive r
    have hput := standing_put h he hcol
    have hk : ((c.receive requestId r).1.standing k) =
        if k = k' then
          if (col.receive r).isComplete then .answered ((col.receive r).conclude false)
          else .collecting (col.receive r)
        else c.standing k := by
      rw [receive_taken hget]
      dsimp only
      split
      · rw [standing_resolveWhere _ _ (h.put he hcol), hput]
        split
        · simp [Standing.answerWhere, *]
        · cases c.standing k <;> simp [Standing.answerWhere, *]
      · exact hput k
    rw [hk]
    split
    · rename_i heq
      subst heq
      simp [hs, Standing.receive, hid]
    · rename_i hne
      cases hs' : c.standing k with
      | collecting col' =>
        have hother : col'.requestId ≠ requestId :=
          fun hid' => hne (collecting_unique h hs' hs (hid'.trans hid.symm))
        simp [Standing.receive, hother]
      | unknown => rfl
      | answered a => rfl
  · rw [receive_refused hget]
    cases hs : c.standing k with
    | collecting col =>
      have hother := hnone k col hs
      simp [Standing.receive, hother]
    | unknown => rfl
    | answered a => rfl

end Receive

/-! ## Waiting -/

section Wait

variable {p : Pending}

/-- How a wait ends after its deadline: the request is expired, and what is there then is taken. -/
def finish (p : Pending) (c : Collector) : Collector × Collected :=
  let c := c.expire p.requestId
  (c, (c.result? p.handle).getD p.lost)

theorem wait_of_answered (h : c.Sound) (hs : c.standing p.handle = .answered a) :
    c.wait now p = some (c, a) := by
  unfold wait
  rw [result?_of_answered h hs]

theorem isOpen_iff (h : c.Sound) : c.isOpen k = true ↔ ∃ col, c.standing k = .collecting col := by
  constructor
  · intro hopen
    obtain ⟨⟨k', col, resolved⟩, he, hp⟩ := List.any_eq_true.mp hopen
    obtain ⟨rfl, rfl⟩ : k' = k ∧ resolved = false := by simpa using hp
    exact ⟨col, (standing_eq_collecting_iff h).mpr he⟩
  · rintro ⟨col, hs⟩
    exact List.any_eq_true.mpr ⟨_, (standing_eq_collecting_iff h).mp hs, by simp⟩

theorem wait_of_collecting (h : c.Sound) (hs : c.standing p.handle = .collecting col) :
    c.wait now p = if p.deadline ≤ now then some (c.finish p) else none := by
  have hopen := (isOpen_iff h).mpr ⟨col, hs⟩
  unfold wait
  rw [result?_of_collecting h hs, hopen]
  rfl

/-- What is taken after the deadline is the answer, and it was there before or is made of what the
collection has. -/
theorem standing_finish (h : c.Sound) (hk : p.handle < c.next)
    (hid : ∀ col, c.standing p.handle = .collecting col → col.requestId = p.requestId) :
    (c.finish p).1.standing p.handle = .answered (c.finish p).2 := by
  have h' := h.expire p.requestId
  have hs' := standing_expire h p.requestId p.handle
  obtain ⟨a, ha⟩ : ∃ a, (c.expire p.requestId).standing p.handle = .answered a := by
    cases hs : c.standing p.handle with
    | unknown => exact absurd hs ((standing_ne_unknown_iff h).mpr hk)
    | answered a => exact ⟨a, by rw [hs', hs]; rfl⟩
    | collecting col =>
      refine ⟨col.conclude true, ?_⟩
      rw [hs', hs, Standing.answerWhere, if_pos (by simpa using hid col hs)]
  simp [finish, ha, result?_of_answered h' ha]

end Wait

end Collector

end Switchboard
