import Switchboard.Proofs.Bus.Collections

/-!
# Who is given the first reply

Whoever wants the first reply to a request id registers as a waiter for it and waits later. A network
has one table of waiters with one place for each id. A place is lost to whoever registers for the same
id next, to the first reply, and to whoever gives up waiting for this id: his wait ends when its time is
up, and clears the place some time later.

* `Waiters.Sound` : one waiter for an id; `Waiters.Has` : how a waiter stands, by its outcome so far;
  `Waiters.Has.expect`, `Waiters.Has.offer`, `Waiters.Has.giveUp` : what each change of the table is to
  every waiter;
* `Expectation`, `expectations` : the waiters of a history, each with what happened since;
  `Expectation.outcome?` : the first thing that decided about a waiter;
* `World.Minds`, `World.Step.minds` : what a step does to the table;
* `World.Attends` : all waiters stand as their histories say; `World.Passage.heeds` : what they are told,
  and that it takes nothing from the lanes.
-/

namespace Switchboard

/-! ## The table -/

/-- What decided about a waiter. -/
inductive Waiter.Outcome where
  | reply (m : Message)
  /-- Somebody else registered for the same request. -/
  | superseded
  /-- He waited in vain and cleared his place. -/
  | gaveUp
  /-- Somebody else, who had waited in vain for the same request, cleared his place. -/
  | evicted
  deriving DecidableEq

/-- What is decided about a waiter when somebody gives up, if nothing was before. -/
def Waiter.outcomeOfGivingUp? (w v : Waiter) : Option Waiter.Outcome :=
  if v.requestId = w.requestId then some (if v = w then .gaveUp else .evicted) else none

/-- What a wait is told, by what was decided so far, if it need not go on. -/
def Waiter.told (w : Waiter) (timeout : Nat) (timeIsUp : Bool) :
    Option Waiter.Outcome → Option (Except Fault Message)
  | none => if timeIsUp then some (.error (w.lateFault timeout)) else none
  | some (.reply m) => some (.ok m)
  | some _ => some (.error w.droppedFault)

namespace Waiters

/-- There is one waiter for a request, and one place or reply for a handle that was given out. -/
structure Sound (ws : Waiters) : Prop where
  ids : (ws.entries.map (·.1)).Nodup
  handles : (ws.entries.map (·.2) ++ ws.replies.map (·.1)).Nodup
  lt_next : ∀ k ∈ ws.entries.map (·.2) ++ ws.replies.map (·.1), k < ws.next

/-- How a waiter stands: it has its place, its reply, or neither. -/
def Has (ws : Waiters) (w : Waiter) : Option Waiter.Outcome → Prop
  | none => (w.requestId, w.handle) ∈ ws.entries
  | some (.reply m) => (w.handle, m) ∈ ws.replies
  | some _ => w.handle ∉ ws.entries.map (·.2) ++ ws.replies.map (·.1)

variable {ws : Waiters} {w v : Waiter} {o : Option Waiter.Outcome} {id : String} {m : Message}

theorem handle?_eq_some_iff (h : ws.Sound) {k : Nat} :
    ws.handle? id = some k ↔ (id, k) ∈ ws.entries := by
  rw [handle?, Option.map_eq_some_iff]
  constructor
  · rintro ⟨e, he, rfl⟩
    obtain ⟨hmem, rfl⟩ := (find?_key_eq_some_iff h.ids).mp he
    exact hmem
  · intro hmem
    exact ⟨(id, k), (find?_key_eq_some_iff h.ids).mpr ⟨hmem, rfl⟩, rfl⟩

theorem handle?_eq_none_iff : ws.handle? id = none ↔ ∀ k, (id, k) ∉ ws.entries := by
  rw [handle?, Option.map_eq_none_iff, find?_key_eq_none_iff]
  simp

theorem reply?_eq_some_iff (h : ws.Sound) : ws.reply? w = some m ↔ (w.handle, m) ∈ ws.replies := by
  have hd : (ws.replies.map (·.1)).Nodup := (List.nodup_append.mp h.handles).2.1
  rw [reply?, Option.map_eq_some_iff]
  constructor
  · rintro ⟨e, he, rfl⟩
    obtain ⟨hmem, hkey⟩ := (find?_key_eq_some_iff hd).mp he
    exact hkey ▸ hmem
  · intro hmem
    exact ⟨(w.handle, m), (find?_key_eq_some_iff hd).mpr ⟨hmem, rfl⟩, rfl⟩

theorem reply?_eq_none (h : w.handle ∉ ws.replies.map (·.1)) : ws.reply? w = none := by
  rw [reply?, find?_key_eq_none_iff.mpr h, Option.map_none]

theorem isOpen_iff : ws.isOpen w = true ↔ w.handle ∈ ws.entries.map (·.2) := by
  simp [isOpen]

theorem mem_entries_remove {e : String × Nat} :
    e ∈ (ws.remove id).entries ↔ e ∈ ws.entries ∧ e.1 ≠ id := by
  simp [remove]

/-- The entry of a handle is the one of its waiter. -/
theorem Sound.not_replied (h : ws.Sound) (hw : ws.Has w none) :
    w.handle ∉ ws.replies.map (·.1) := by
  have hplace : w.handle ∈ ws.entries.map (·.2) := List.mem_map.mpr ⟨_, hw, rfl⟩
  exact fun hreply => (List.nodup_append.mp h.handles).2.2 _ hplace _ hreply rfl

/-- What a wait obtains, by how the waiter stands. -/
theorem Has.wait (h : ws.Sound) (hw : ws.Has w o) (timeout : Nat) (timeIsUp : Bool) :
    ws.wait w timeout timeIsUp = w.told timeout timeIsUp o := by
  rcases o with _ | m | _ | _ | _
  · have hopen : ws.isOpen w = true := isOpen_iff.mpr (List.mem_map.mpr ⟨_, hw, rfl⟩)
    rw [Waiters.wait, reply?_eq_none (h.not_replied hw), hopen]
    rfl
  · rw [Waiters.wait, (reply?_eq_some_iff h).mpr hw]
    rfl
  all_goals
    obtain ⟨hplace, hreply⟩ := not_or.mp (mt List.mem_append.mpr hw)
    have hclosed : ws.isOpen w = false := by
      simpa using mt isOpen_iff.mp hplace
    rw [Waiters.wait, reply?_eq_none hreply, hclosed]
    rfl

/-! ### Changes of the table -/

theorem Sound.remove (h : ws.Sound) (id : String) : (ws.remove id).Sound where
  ids := h.ids.sublist (List.filter_sublist.map _)
  handles := h.handles.sublist ((List.filter_sublist.map _).append_right _)
  lt_next := fun k hk =>
    h.lt_next k (((List.filter_sublist.map _).append_right _).subset hk)

/-- Two waiters with places for one request are one. -/
theorem Sound.eq_of_requestId (h : ws.Sound) (hw : ws.Has w none) (hv : ws.Has v none)
    (hid : w.requestId = v.requestId) : w = v := by
  have heq : (w.requestId, w.handle) = (v.requestId, v.handle) :=
    List.inj_on_of_nodup_map h.ids hw hv hid
  cases w
  cases v
  simpa [and_comm] using heq

/-- The place for another request stays, and so does what was decided. -/
theorem Has.remove (hw : ws.Has w o) (hid : o = none → w.requestId ≠ id) :
    (ws.remove id).Has w o := by
  rcases o with _ | m | _ | _ | _
  · exact mem_entries_remove.mpr ⟨hw, hid rfl⟩
  · exact hw
  all_goals exact mt (fun hk => ((List.filter_sublist.map _).append_right _).subset hk) hw

/-- The handle of a waiter that loses its place is not found any more. -/
theorem Sound.notMem_remove (h : ws.Sound) (hw : ws.Has w none) :
    w.handle ∉ (ws.remove w.requestId).entries.map (·.2) ++ ws.replies.map (·.1) := by
  rw [List.mem_append, not_or]
  refine ⟨fun hk => ?_, h.not_replied hw⟩
  obtain ⟨e, he, hhandle⟩ := List.mem_map.mp hk
  obtain ⟨hmem, hid⟩ := mem_entries_remove.mp he
  have hd : (ws.entries.map (·.2)).Nodup := (List.nodup_append.mp h.handles).1
  have heq : e = (w.requestId, w.handle) := List.inj_on_of_nodup_map hd hmem hw hhandle
  exact hid (congrArg Prod.fst heq)

/-- The entry that goes is the one with the waiter's handle. -/
theorem Sound.remove_eq (h : ws.Sound) (hw : ws.Has w none) :
    ws.remove w.requestId = { ws with entries := ws.entries.filter (·.2 != w.handle) } := by
  refine congrArg (fun entries => { ws with entries }) (List.filter_congr fun e he => ?_)
  have hd : (ws.entries.map (·.2)).Nodup := (List.nodup_append.mp h.handles).1
  have hiff : e.1 = w.requestId ↔ e.2 = w.handle := by
    constructor
    · intro hid
      exact congrArg Prod.snd (List.inj_on_of_nodup_map h.ids he hw hid : e = (_, w.handle))
    · intro hhandle
      exact congrArg Prod.fst (List.inj_on_of_nodup_map hd he hw hhandle : e = (w.requestId, _))
  rw [Bool.eq_iff_iff]
  simpa using not_congr hiff

/-- Whoever gives up clears the place for his request, and whoever has it loses it. -/
theorem Has.giveUp (h : ws.Sound) (hw : ws.Has w o) (v : Waiter) :
    (ws.remove v.requestId).Has w (o.or (w.outcomeOfGivingUp? v)) := by
  rcases o with _ | o
  · rw [Waiter.outcomeOfGivingUp?]
    by_cases hid : v.requestId = w.requestId
    · have hgone := h.notMem_remove hw
      rw [if_pos hid, hid]
      split <;> exact hgone
    · rw [if_neg hid]
      exact hw.remove fun _ => Ne.symm hid
  · exact hw.remove (by simp)

theorem Sound.expect (h : ws.Sound) (id : String) : (ws.expect id).1.Sound := by
  have hrest := h.remove id
  have hfresh : ∀ k ∈ (ws.remove id).entries.map (·.2) ++ ws.replies.map (·.1), k ≠ ws.next :=
    fun k hk => Nat.ne_of_lt (hrest.lt_next k hk)
  refine ⟨?_, ?_, fun k hk => ?_⟩
  · change (((ws.remove id).entries ++ [(id, ws.next)]).map (·.1)).Nodup
    rw [List.map_append]
    refine hrest.ids.append (List.nodup_singleton _) ?_
    simp [mem_entries_remove]
  · change (((ws.remove id).entries ++ [(id, ws.next)]).map (·.2) ++ ws.replies.map (·.1)).Nodup
    rw [List.map_append, List.append_assoc, List.map_singleton, List.singleton_append,
      List.nodup_middle]
    exact List.nodup_cons.mpr ⟨fun hk => hfresh _ hk rfl, hrest.handles⟩
  · change k ∈ ((ws.remove id).entries ++ [(id, ws.next)]).map (·.2) ++ ws.replies.map (·.1) at hk
    change k < ws.next + 1
    have hcases : k = ws.next ∨ k ∈ (ws.remove id).entries.map (·.2) ++ ws.replies.map (·.1) := by
      simp only [List.map_append, List.mem_append, List.map_singleton, List.mem_singleton] at hk ⊢
      tauto
    rcases hcases with rfl | hk
    · exact Nat.lt_succ_self _
    · exact Nat.lt_succ_of_lt (hrest.lt_next k hk)

/-- Whoever registers takes the place from the one who has it. -/
theorem Has.expect (h : ws.Sound) (hw : ws.Has w o) (hlt : w.handle < ws.next) (id : String) :
    (ws.expect id).1.Has w (o.or (if id = w.requestId then some .superseded else none)) := by
  have hadd : ∀ o', (ws.remove id).Has w o' → (ws.expect id).1.Has w o' := by
    intro o' hrest
    rcases o' with _ | m | _ | _ | _
    · exact List.mem_append_left _ hrest
    · exact hrest
    all_goals
      refine fun hk => hrest ?_
      change w.handle ∈ ((ws.remove id).entries ++ [(id, ws.next)]).map (·.2) ++ ws.replies.map (·.1)
        at hk
      simp only [List.map_append, List.mem_append, List.map_singleton, List.mem_singleton] at hk ⊢
      rcases hk with (hk | hk) | hk
      · exact .inl hk
      · exact absurd hk (Nat.ne_of_lt hlt)
      · exact .inr hk
  rcases o with _ | o
  · by_cases hid : id = w.requestId
    · rw [if_pos hid]
      exact hadd (some .superseded) (hid ▸ h.notMem_remove hw)
    · rw [if_neg hid]
      exact hadd none (hw.remove fun _ => Ne.symm hid)
  · exact hadd _ (hw.remove (by simp))

theorem Sound.offer (h : ws.Sound) (m : Message) : (ws.offer m).Sound := by
  unfold Waiters.offer
  cases hk : ws.handle? m.requestId with
  | none => exact h
  | some k =>
    have hmem := (handle?_eq_some_iff h).mp hk
    have hrest := h.remove m.requestId
    have hgone := h.notMem_remove (w := ⟨k, m.requestId⟩) hmem
    refine ⟨hrest.ids, ?_, fun j hj => ?_⟩
    · change ((ws.remove m.requestId).entries.map (·.2) ++ (ws.replies ++ [(k, m)]).map (·.1)).Nodup
      rw [List.map_append, ← List.append_assoc]
      refine hrest.handles.append (List.nodup_singleton _) fun j hj hjk => ?_
      obtain rfl := List.mem_singleton.mp hjk
      exact hgone hj
    · change j ∈ (ws.remove m.requestId).entries.map (·.2) ++ (ws.replies ++ [(k, m)]).map (·.1) at hj
      change j < ws.next
      rw [List.map_append, ← List.append_assoc] at hj
      rcases List.mem_append.mp hj with hj | hj
      · exact hrest.lt_next j hj
      · obtain rfl := List.mem_singleton.mp hj
        exact h.lt_next _ (List.mem_append_left _ (List.mem_map.mpr ⟨_, hmem, rfl⟩))

/-- A reply is handed to the waiter with the place for its request. -/
theorem Has.offer (h : ws.Sound) (hw : ws.Has w o) (m : Message) :
    (ws.offer m).Has w (o.or (if m.requestId = w.requestId then some (.reply m) else none)) := by
  unfold Waiters.offer
  cases hk : ws.handle? m.requestId with
  | none =>
    rcases o with _ | o
    · have hother : m.requestId ≠ w.requestId := fun hid =>
        handle?_eq_none_iff.mp hk w.handle (hid ▸ hw)
      rw [if_neg hother]
      exact hw
    · exact hw
  | some k =>
    have hmem := (handle?_eq_some_iff h).mp hk
    rcases o with _ | m' | _ | _ | _
    · by_cases hid : m.requestId = w.requestId
      · have hsame : w = ⟨k, m.requestId⟩ := h.eq_of_requestId hw hmem hid.symm
        rw [if_pos hid, hsame]
        exact List.mem_append_right _ (List.mem_singleton_self _)
      · rw [if_neg hid]
        exact hw.remove fun _ => Ne.symm hid
    · exact List.mem_append_left _ hw
    all_goals
      have hrest : w.handle ∉ (ws.remove m.requestId).entries.map (·.2) ++ ws.replies.map (·.1) :=
        Has.remove (o := some .superseded) hw (by simp)
      have hother : w.handle ≠ k := fun heq =>
        hw (List.mem_append_left _ (List.mem_map.mpr ⟨_, hmem, heq.symm⟩))
      change w.handle ∉ (ws.remove m.requestId).entries.map (·.2) ++
        (ws.replies ++ [(k, m)]).map (·.1)
      rw [List.map_append, ← List.append_assoc]
      exact fun hk => (List.mem_append.mp hk).elim hrest fun hk =>
        hother (List.mem_singleton.mp hk)

end Waiters

/-! ## Waiters in a history -/

namespace Happening

/-- The waiter that was given out. -/
def waiter? : Happening → Option Waiter
  | answered ⟨.expect _, w⟩ => some w
  | _ => none

/-- The waiter whose wait ended. -/
def waits? : Happening → Option Waiter
  | answered ⟨.reply w _, _⟩ => some w
  | _ => none

/-- The waiter who cleared the place for his request. -/
def givesUp? : Happening → Option Waiter
  | answered ⟨.giveUp w, _⟩ => some w
  | _ => none

end Happening

/-- What an event decides about a waiter, if nothing did before. -/
def Waiter.outcomeIn? (w : Waiter) : Happening → Option Waiter.Outcome
  | .taken m => if m.repliesTo w.requestId then some (.reply m) else none
  | .answered ⟨.expect id, _⟩ => if id = w.requestId then some .superseded else none
  | .answered ⟨.giveUp v, _⟩ => w.outcomeOfGivingUp? v
  | _ => none

/-- Only a delivery hands somebody a reply. -/
theorem Waiter.outcomeIn?_eq_reply_iff {w : Waiter} {x : Happening} {m : Message} :
    w.outcomeIn? x = some (.reply m) ↔ x = .taken m ∧ m.repliesTo w.requestId = true := by
  constructor
  · intro h
    cases x with
    | taken m' =>
      obtain ⟨hreply, hm⟩ := Option.ite_none_right_eq_some.mp h
      cases hm
      exact ⟨rfl, hreply⟩
    | answered x =>
      obtain ⟨o, a⟩ := x
      cases o with
      | expect id => cases (Option.ite_none_right_eq_some.mp h).2
      | giveUp v =>
        have hone := Option.some.inj (Option.ite_none_right_eq_some.mp h).2
        split at hone <;> cases hone
      | _ => cases h
    | _ => cases h
  · rintro ⟨rfl, hreply⟩
    exact if_pos hreply

/-- A waiter that was given out, and what happened since. -/
structure Expectation where
  waiter : Waiter
  since : List Happening

namespace Expectation

variable (e : Expectation) (xs ys : List Happening)

/-- The first thing that decided about the waiter. -/
def outcome? : Option Waiter.Outcome := e.since.findSome? e.waiter.outcomeIn?

/-- The same waiter when more has happened. -/
def extend : Expectation := { e with since := e.since ++ xs }

/-- The same waiter when only so much had happened. -/
def upTo (i : Nat) : Expectation := { e with since := e.since.take i }

/-- Each of his waits that ended was told what had been decided about him by then. -/
def Informed : Prop :=
  ∀ i timeout a, e.since[i]? = some (.answered ⟨.reply e.waiter timeout, a⟩) →
    ∃ timeIsUp, e.waiter.told timeout timeIsUp (e.upTo i).outcome? = some a

theorem outcome?_extend :
    (e.extend xs).outcome? = e.outcome?.or (xs.findSome? e.waiter.outcomeIn?) :=
  List.findSome?_append

theorem outcome?_extend_singleton (x : Happening) :
    (e.extend [x]).outcome? = e.outcome?.or (e.waiter.outcomeIn? x) := by
  rw [outcome?_extend, List.findSome?_singleton]

/-- Who was handed a reply was handed the first one to his request. -/
theorem find?_of_reply {m : Message} (h : e.outcome? = some (.reply m)) :
    (takenIn e.since).find? (·.repliesTo e.waiter.requestId) = some m := by
  obtain ⟨w, since⟩ := e
  rw [outcome?] at h
  dsimp only at h ⊢
  induction since with
  | nil => cases h
  | cons x xs ih =>
    rw [List.findSome?_cons] at h
    cases hx : w.outcomeIn? x with
    | none =>
      rw [hx] at h
      cases x with
      | taken m' =>
        have hother : m'.repliesTo w.requestId = false := by
          simpa [Waiter.outcomeIn?] using hx
        exact (List.find?_cons_of_neg (by simp [hother])).trans (ih h)
      | _ => exact ih h
    | some o =>
      rw [hx] at h
      obtain rfl := Option.some.inj h
      obtain ⟨rfl, hreply⟩ := Waiter.outcomeIn?_eq_reply_iff.mp hx
      exact List.find?_cons_of_pos hreply

theorem Informed.extend {e : Expectation} {ys : List Happening} (h : e.Informed)
    (hys : ∀ i timeout a, ys[i]? = some (.answered ⟨.reply e.waiter timeout, a⟩) →
      ∃ timeIsUp, e.waiter.told timeout timeIsUp (e.extend (ys.take i)).outcome? = some a) :
    (e.extend ys).Informed := by
  intro i timeout a hi
  change (e.since ++ ys)[i]? = _ at hi
  rcases Nat.lt_or_ge i e.since.length with hlt | hge
  · rw [List.getElem?_append_left hlt] at hi
    have hsame : (e.extend ys).upTo i = e.upTo i :=
      congrArg (Expectation.mk e.waiter) (List.take_append_of_le_length (Nat.le_of_lt hlt))
    rw [hsame]
    exact h i timeout a hi
  · rw [List.getElem?_append_right hge] at hi
    have hsame : (e.extend ys).upTo i = e.extend (ys.take (i - e.since.length)) :=
      congrArg (Expectation.mk e.waiter)
        (List.take_append.trans (congrArg (· ++ _) (List.take_of_length_le hge)))
    rw [hsame]
    exact hys _ timeout a hi

/-- Who was told a message was told the first reply to his request. -/
theorem Informed.find? {e : Expectation} (h : e.Informed) {timeout : Nat} {m : Message}
    (hm : .answered ⟨.reply e.waiter timeout, .ok m⟩ ∈ e.since) :
    (takenIn e.since).find? (·.repliesTo e.waiter.requestId) = some m := by
  obtain ⟨i, hi⟩ := List.mem_iff_getElem?.mp hm
  obtain ⟨timeIsUp, htold⟩ := h i timeout _ hi
  have hreply : (e.upTo i).outcome? = some (.reply m) := by
    cases ho : (e.upTo i).outcome? with
    | none =>
      rw [ho] at htold
      cases (Option.ite_none_right_eq_some.mp htold).2
    | some o =>
      rw [ho] at htold
      cases o <;> cases htold
      rfl
  have hfirst : (takenIn (e.since.take i)).find? (·.repliesTo e.waiter.requestId) = some m :=
    (e.upTo i).find?_of_reply hreply
  rw [← List.take_append_drop i e.since, takenIn_append, List.find?_append, hfirst, Option.some_or]

end Expectation

/-- The waiters of a history, in the order in which they were given out. -/
def expectations : List Happening → List Expectation
  | [] => []
  | x :: xs => (x.waiter?.map fun w => ⟨w, xs⟩).toList ++ expectations xs

theorem expectations_append (xs ys : List Happening) :
    expectations (xs ++ ys) = (expectations xs).map (·.extend ys) ++ expectations ys := by
  induction xs with
  | nil => rfl
  | cons x xs ih =>
    rw [List.cons_append, expectations, expectations, ih, List.map_append, List.append_assoc]
    cases x.waiter? <;> rfl

theorem expectations_eq_nil {xs : List Happening} (h : ∀ x ∈ xs, x.waiter? = none) :
    expectations xs = [] := by
  induction xs with
  | nil => rfl
  | cons x xs ih =>
    obtain ⟨hx, hxs⟩ := List.forall_mem_cons.mp h
    rw [expectations, hx, ih hxs]
    rfl

/-! ## What steps do to the table -/

/-- What happens has nothing to do with waiters. -/
def Happening.Apart (x : Happening) : Prop :=
  x.taken? = none ∧ x.waiter? = none ∧ x.waits? = none ∧ x.givesUp? = none

/-- What a step does to the table of waiters: a message is delivered, a waiter is given out, a wait
ends, or somebody gives up. -/
inductive World.Minds (w : World) : List Happening → World → Prop
  | delivers {w' : World} (m : Message)
      (hwaiters : w'.bus.waiters =
        if m.kind.isReply then w.bus.waiters.offer m else w.bus.waiters) : Minds w [.taken m] w'
  | expects {w' : World} (id : String)
      (hwaiters : w'.bus.waiters = (w.bus.waiters.expect id).1) :
      Minds w [.answered ⟨.expect id, (w.bus.waiters.expect id).2⟩] w'
  | waits {w' : World} (v : Waiter) (timeout : Nat) (timeIsUp : Bool) (a : Except Fault Message)
      (hwait : w.bus.waiters.wait v timeout timeIsUp = some a)
      (hwaiters : w'.bus.waiters = w.bus.waiters) : Minds w [.answered ⟨.reply v timeout, a⟩] w'
  | givesUp {w' : World} (v : Waiter)
      (hwaiters : w'.bus.waiters = w.bus.waiters.remove v.requestId) :
      Minds w [.answered ⟨.giveUp v, ()⟩] w'
  | other {w' : World} {ys : List Happening} (hwaiters : w'.bus.waiters = w.bus.waiters)
      (hys : ∀ x ∈ ys, x.Apart) : Minds w ys w'

namespace Scene

variable {s : Scene}

theorem waiters_wakeAt (s : Scene) (time : Nat) :
    (s.wakeAt time).world.bus.waiters = s.world.bus.waiters :=
  congrArg Bus.waiters (s.bus_wakeAt time)

theorem waiters_send (s : Scene) (m : Message) (patience : Option Nat) :
    (s.send m patience).1.world.bus.waiters = s.world.bus.waiters := by
  unfold send
  split
  · split
    · rfl
    · split
      · rfl
      · dsimp only
        split
        · exact waiters_wakeAt _ _
        · rfl
  · split
    · rfl
    · split <;> rfl

/-- Most operations have nothing to do with waiters. -/
theorem waiters_attempt (h : s.world.owned = true) {o : Operation}
    (hexpect : ∀ id, o ≠ .expect id) (hgiveUp : ∀ v, o ≠ .giveUp v) :
    (s.attempt o).1.world.bus.waiters = s.world.bus.waiters := by
  cases o with
  | pause ms =>
    rw [attempt, pause]
    split
    · rfl
    · exact waiters_wakeAt s _
  | hold =>
    rw [attempt, hold]
    split <;> rfl
  | release =>
    have hsame : ∀ holds, ({ s.world with holds } : World).closeIfAbandoned.bus.waiters =
        s.world.bus.waiters := fun holds => by
      rw [World.closeIfAbandoned_of_owned (w := { s.world with holds }) h]
    exact hsame _
  | send m patience => exact s.waiters_send m patience
  | collected p =>
    rw [attempt, collected]
    split
    · rfl
    · exact waiters_wakeAt s _
  | expect id => exact absurd rfl (hexpect id)
  | reply v timeout =>
    rw [attempt, reply]
    split
    · rfl
    · exact waiters_wakeAt s _
  | giveUp v => exact absurd rfl (hgiveUp v)
  | enter agent capability =>
    rw [attempt, enter]
    split
    · rfl
    · dsimp only
      split <;> rfl
  | _ => rfl

/-- Such an operation leaves the table alone. -/
theorem minds_other (h : s.world.owned = true) {o : Operation}
    (hexpect : ∀ id, o ≠ .expect id) (hreply : ∀ v timeout, o ≠ .reply v timeout)
    (hgiveUp : ∀ v, o ≠ .giveUp v) :
    s.world.Minds (s.answered o) (s.attempt o).1.world := by
  refine .other (waiters_attempt h hexpect hgiveUp) fun x hx => ?_
  obtain ⟨answer, -, rfl⟩ : ∃ answer, (s.attempt o).2 = some answer ∧
      .answered ⟨o, answer⟩ = x := by simpa [answered] using hx
  cases o with
  | expect id => exact absurd rfl (hexpect id)
  | reply v timeout => exact absurd rfl (hreply v timeout)
  | giveUp v => exact absurd rfl (hgiveUp v)
  | _ => exact ⟨rfl, rfl, rfl, rfl⟩

/-- A wait that ends is told what the table has for its waiter. -/
theorem minds_reply (s : Scene) (v : Waiter) (timeout : Nat) :
    s.world.Minds (s.answered (.reply v timeout)) (s.attempt (.reply v timeout)).1.world := by
  have hattempt : s.attempt (.reply v timeout) = s.reply v timeout := rfl
  unfold reply at hattempt
  split at hattempt
  · rename_i answer hwait
    rw [answered_of_attempt hattempt, hattempt]
    exact .waits v timeout _ answer hwait rfl
  · rw [answered_of_attempt hattempt, hattempt]
    exact .other (waiters_wakeAt s _) fun x hx => by cases hx

theorem minds_attempt (h : s.world.owned = true) (o : Operation) :
    s.world.Minds (s.answered o) (s.attempt o).1.world := by
  cases o with
  | expect id => exact .expects id rfl
  | reply v timeout => exact s.minds_reply v timeout
  | giveUp v => exact .givesUp v rfl
  | _ => exact minds_other h (by simp) (by simp) (by simp)

/-- What someone who waits is told. -/
theorem attempt_reply (s : Scene) (v : Waiter) (timeout : Nat) :
    (s.attempt (.reply v timeout)).2 =
      s.world.bus.waiters.wait v timeout (timeout = 0 || s.timeIsUp) := by
  change (s.reply v timeout).2 = _
  unfold reply
  cases s.world.bus.waiters.wait v timeout (timeout = 0 || s.timeIsUp) <;> rfl

/-- Who takes the place of a waiter wakes him. -/
theorem signals_expect {id : String} {k : Nat} (h : s.world.bus.waiters.handle? id = some k) :
    .replied k ∈ (s.attempt (.expect id)).1.world.signals := by
  change Signal.replied k ∈ s.world.signals ++
    ((s.world.bus.waiters.handle? id).map Signal.replied).toList
  rw [h]
  exact List.mem_append_right _ (List.mem_singleton_self _)

/-- Who clears the place of a waiter wakes him. -/
theorem signals_giveUp {v : Waiter} {k : Nat}
    (h : s.world.bus.waiters.handle? v.requestId = some k) :
    .replied k ∈ (s.attempt (.giveUp v)).1.world.signals := by
  change Signal.replied k ∈ s.world.signals ++
    ((s.world.bus.waiters.handle? v.requestId).map Signal.replied).toList
  rw [h]
  exact List.mem_append_right _ (List.mem_singleton_self _)

end Scene

namespace World

variable {w w' : World} {xs ys : List Happening}

/-- A reply that is delivered wakes the one who has the place for its request. -/
theorem signals_deliverOne {m : Message} {rest : List Message} (hqueue : w.bus.queue = m :: rest)
    (hm : m.kind.isReply = true) {k : Nat} (h : w.bus.waiters.handle? m.requestId = some k) :
    .replied k ∈ w.deliverOne.signals := by
  have hwaiter : (Bus.deliver { w.bus with queue := rest, gate := w.bus.gate.release.1 } m).2.waiter =
      some k := by
    rw [Bus.deliver_eq, hm]
    exact h
  rw [w.deliverOne_eq hqueue]
  refine List.mem_append_right _ (List.mem_append_left _ (List.mem_append_left _
    (List.mem_append_right _ ?_)))
  rw [hwaiter]
  exact List.mem_singleton_self _

theorem waiters_deliverOne {m : Message} {rest : List Message} (h : w.bus.queue = m :: rest) :
    w.deliverOne.bus.waiters =
      if m.kind.isReply then w.bus.waiters.offer m else w.bus.waiters := by
  rw [w.deliverOne_eq h]
  change (Bus.deliver _ m).1.waiters = _
  rw [Bus.deliver_eq]
  cases m.kind.isReply <;> rfl

/-- Nothing else can happen to the table. -/
theorem Step.minds (hstep : Step w ys w') (h : w.owned = true) : w.Minds ys w' := by
  have hnone : ∀ x : Happening, x.Apart → ∀ y ∈ [x], y.Apart := fun x hx =>
    List.forall_mem_singleton.mpr hx
  cases hstep with
  | asks s o => exact Scene.minds_attempt h o
  | delivers hrunning hqueue => exact .delivers _ (waiters_deliverOne hqueue)
  | @opens w i lane actor hlane hactor =>
    refine .other ?_ fun x hx => ?_
    · unfold openInbox
      rw [hlane]
      dsimp only
      rw [hactor]
    · obtain ⟨m, -, rfl⟩ := List.mem_map.mp hx
      exact ⟨rfl, rfl, rfl, rfl⟩
  | @registers w agent actor hactor =>
    refine .other ?_ (hnone _ ⟨rfl, rfl, rfl, rfl⟩)
    unfold register
    rw [hactor]
    rfl
  | unregisters w name =>
    refine .other ?_ (hnone _ ⟨rfl, rfl, rfl, rfl⟩)
    unfold unregister Bus.unregister Bus.leave
    dsimp only
    cases (w.bus.member? name).isSome <;> rfl
  | starts w =>
    refine .other ?_ (hnone _ ⟨rfl, rfl, rfl, rfl⟩)
    unfold start
    split <;> rfl
  | stops w => exact .other rfl (hnone _ ⟨rfl, rfl, rfl, rfl⟩)
  | sweeps w =>
    unfold sweepNow
    split
    · exact .other rfl (by simp)
    · exact .other rfl (by simp)
  | leaves w ticket => exact .other rfl (by simp)
  | ends w b => exact .other (congrArg Bus.waiters (bus_takeBack h b)) (by simp)
  | aside hstep => exact .other (congrArg Bus.waiters hstep.bus) (by simp)

end World

/-! ## What becomes of waiters -/

theorem Waiter.outcomeIn?_of_apart (w : Waiter) {x : Happening} (h : x.Apart) :
    w.outcomeIn? x = none := by
  obtain ⟨htaken, hwaiter, -, hgivesUp⟩ := h
  cases x with
  | taken m => cases htaken
  | answered x =>
    obtain ⟨o, a⟩ := x
    cases o with
    | expect id => cases hwaiter
    | giveUp v => cases hgivesUp
    | _ => rfl
  | _ => rfl

theorem Expectation.outcome?_extend_of_apart (e : Expectation) {ys : List Happening}
    (h : ∀ x ∈ ys, x.Apart) : (e.extend ys).outcome? = e.outcome? := by
  have hnone : ys.findSome? e.waiter.outcomeIn? = none :=
    List.findSome?_eq_none_iff.mpr fun x hx => e.waiter.outcomeIn?_of_apart (h x hx)
  rw [e.outcome?_extend, hnone, Option.or_none]

theorem Waiter.droppedFault_ne (w v : Waiter) (timeout : Nat) :
    w.droppedFault ≠ v.lateFault timeout := by
  simp [droppedFault, lateFault]

/-- If at most one item comes to have a property, one more has it at most. -/
theorem countP_le_succ {α : Type} {l : List α} (hd : l.Nodup) {p q : α → Bool}
    (h : ∀ x ∈ l, ∀ y ∈ l, q x = true → p x = false → q y = true → p y = false → x = y) :
    l.countP q ≤ l.countP p + 1 := by
  induction l with
  | nil => exact Nat.zero_le _
  | cons x l ih =>
    obtain ⟨hx, hd⟩ := List.nodup_cons.mp hd
    by_cases hnew : q x = true ∧ p x = false
    · have hrest : l.countP q ≤ l.countP p := List.countP_mono_left fun y hy hqy => by
        by_contra hpy
        have heq := h x List.mem_cons_self y (List.mem_cons_of_mem _ hy) hnew.1 hnew.2 hqy
          (Bool.eq_false_iff.mpr hpy)
        exact hx (heq ▸ hy)
      rw [List.countP_cons, List.countP_cons, if_pos hnew.1]
      omega
    · have hrest := ih hd fun y hy z hz =>
        h y (List.mem_cons_of_mem _ hy) z (List.mem_cons_of_mem _ hz)
      rw [List.countP_cons, List.countP_cons]
      cases hq : q x <;> cases hp : p x <;> simp_all
      omega

namespace World

variable {w w' : World} {xs ys : List Happening}

/-- How many waiters were handed a message. -/
def handedIn (xs : List Happening) (m : Message) : Nat :=
  (expectations xs).countP fun e => decide (e.outcome? = some (.reply m))

/-- All waiters stand as their histories say. -/
structure Attends (xs : List Happening) (w : World) : Prop where
  sound : w.bus.waiters.Sound
  has : ∀ e ∈ expectations xs, w.bus.waiters.Has e.waiter e.outcome?
  lt_next : ∀ e ∈ expectations xs, e.waiter.handle < w.bus.waiters.next
  handles : ((expectations xs).map (·.waiter.handle)).Nodup
  named : ∀ id v, .answered ⟨.expect id, v⟩ ∈ xs → v.requestId = id
  informed : ∀ e ∈ expectations xs, e.Informed
  once : ∀ m, handedIn xs m ≤ (takenIn xs).count m

namespace Attends

theorem opened (settings : Settings) : Attends [] (opened settings) where
  sound := ⟨List.nodup_nil, List.nodup_nil, by simp [World.opened, Bus.opened]⟩
  has := fun e he => by cases he
  lt_next := fun e he => by cases he
  handles := List.nodup_nil
  named := fun id v hv => by cases hv
  informed := fun e he => by cases he
  once := fun m => Nat.le_refl 0

/-- A step in which no waiter is given out. -/
theorem extend (h : w.Attends xs) (hys : ∀ x ∈ ys, x.waiter? = none)
    (hsound : w'.bus.waiters.Sound) (hnext : w'.bus.waiters.next = w.bus.waiters.next)
    (hhas : ∀ e ∈ expectations xs, w'.bus.waiters.Has e.waiter (e.extend ys).outcome?)
    (hinformed : ∀ e ∈ expectations xs, ∀ i timeout a,
      ys[i]? = some (.answered ⟨.reply e.waiter timeout, a⟩) →
        ∃ timeIsUp, e.waiter.told timeout timeIsUp (e.extend (ys.take i)).outcome? = some a)
    (honce : ∀ m, (expectations xs).countP (fun e => decide ((e.extend ys).outcome? =
      some (.reply m))) ≤ (takenIn xs).count m + (takenIn ys).count m) :
    w'.Attends (xs ++ ys) := by
  have hall : expectations (xs ++ ys) = (expectations xs).map (·.extend ys) := by
    rw [expectations_append, expectations_eq_nil hys, List.append_nil]
  refine ⟨hsound, fun e he => ?_, fun e he => ?_, ?_, fun id v hv => ?_, fun e he => ?_,
    fun m => ?_⟩
  · rw [hall] at he
    obtain ⟨e₀, he₀, rfl⟩ := List.mem_map.mp he
    exact hhas e₀ he₀
  · rw [hall] at he
    obtain ⟨e₀, he₀, rfl⟩ := List.mem_map.mp he
    exact hnext ▸ h.lt_next e₀ he₀
  · rw [hall, List.map_map]
    exact h.handles
  · rcases List.mem_append.mp hv with hold | hnew
    · exact h.named id v hold
    · cases hys _ hnew
  · rw [hall] at he
    obtain ⟨e₀, he₀, rfl⟩ := List.mem_map.mp he
    exact (h.informed e₀ he₀).extend (hinformed e₀ he₀)
  · rw [handedIn, hall, List.countP_map, takenIn_append, List.count_append]
    exact honce m

/-- As long as nothing is delivered nobody is handed a reply. -/
theorem once_of_quiet (h : w.Attends xs) (hys : ∀ y ∈ ys, y.taken? = none) (m : Message) :
    (expectations xs).countP (fun e => decide ((e.extend ys).outcome? = some (.reply m))) ≤
      (takenIn xs).count m + (takenIn ys).count m := by
  have hold : ∀ e : Expectation,
      (e.extend ys).outcome? = some (.reply m) → e.outcome? = some (.reply m) := by
    intro e hnow
    rw [e.outcome?_extend, Option.or_eq_some_iff] at hnow
    refine hnow.resolve_right fun ⟨_, hnew⟩ => ?_
    obtain ⟨y, hy, hreply⟩ := List.exists_of_findSome?_eq_some hnew
    obtain ⟨rfl, -⟩ := Waiter.outcomeIn?_eq_reply_iff.mp hreply
    cases hys _ hy
  have hcount : (expectations xs).countP
      (fun e => decide ((e.extend ys).outcome? = some (.reply m))) ≤ handedIn xs m :=
    List.countP_mono_left fun e _ hnow => decide_eq_true (hold e (of_decide_eq_true hnow))
  exact (hcount.trans (h.once m)).trans (Nat.le_add_right _ _)

/-- A wait that ended is not where something else happened. -/
theorem not_waits {x : Happening} (hx : x.waits? = none) (u : Waiter) (i timeout : Nat)
    (a : Except Fault Message) : [x][i]? ≠ some (.answered ⟨.reply u timeout, a⟩) := by
  intro hi
  obtain rfl := List.mem_singleton.mp (List.mem_of_getElem? hi)
  cases hx

/-- A message is delivered. -/
theorem deliver (h : w.Attends xs) (m : Message)
    (hwaiters : w'.bus.waiters =
      if m.kind.isReply then w.bus.waiters.offer m else w.bus.waiters) :
    w'.Attends (xs ++ [.taken m]) := by
  refine h.extend (by simp [Happening.waiter?]) ?_ ?_ (fun e he => ?_)
    (fun e _ i timeout a hi => absurd hi (not_waits rfl _ _ _ _)) fun m' => ?_
  · rw [hwaiters]
    split
    · exact h.sound.offer m
    · exact h.sound
  · rw [hwaiters]
    split
    · unfold Waiters.offer
      split <;> rfl
    · rfl
  · have houtcome : (e.extend [.taken m]).outcome? =
        e.outcome?.or (if m.repliesTo e.waiter.requestId then some (.reply m) else none) :=
      e.outcome?_extend_singleton _
    rw [houtcome, hwaiters]
    cases hkind : m.kind.isReply with
    | true => simpa [Message.repliesTo, hkind] using (h.has e he).offer h.sound m
    | false => simpa [Message.repliesTo, hkind] using h.has e he
  · -- whoever is handed the message only now had the place for its request
    have hnew : ∀ e : Expectation, (e.extend [.taken m]).outcome? = some (.reply m') →
        e.outcome? ≠ some (.reply m') →
        e.outcome? = none ∧ m.requestId = e.waiter.requestId ∧ m = m' := by
      intro e hafter hbefore
      rw [e.outcome?_extend_singleton, Option.or_eq_some_iff] at hafter
      obtain ⟨hopen, hnew⟩ := hafter.resolve_left hbefore
      obtain ⟨htaken, hreply⟩ := Waiter.outcomeIn?_eq_reply_iff.mp hnew
      obtain rfl := Happening.taken.inj htaken
      exact ⟨hopen, beq_iff_eq.mp (Bool.and_eq_true_iff.mp hreply).2, rfl⟩
    by_cases hm : m = m'
    · subst hm
      have hlast : (takenIn [.taken m]).count m = 1 := List.count_singleton_self
      rw [hlast]
      refine (countP_le_succ (List.Nodup.of_map _ h.handles) fun e he f hf hqe hpe hqf hpf => ?_).trans
        (Nat.succ_le_succ (h.once m))
      obtain ⟨heopen, heid, -⟩ := hnew e (of_decide_eq_true hqe) (of_decide_eq_false hpe)
      obtain ⟨hfopen, hfid, -⟩ := hnew f (of_decide_eq_true hqf) (of_decide_eq_false hpf)
      have hwaiter : e.waiter = f.waiter :=
        h.sound.eq_of_requestId (heopen ▸ h.has e he) (hfopen ▸ h.has f hf) (heid.symm.trans hfid)
      exact List.inj_on_of_nodup_map h.handles he hf (congrArg Waiter.handle hwaiter)
    · refine (List.countP_mono_left fun e he hafter => ?_).trans
        ((h.once m').trans (Nat.le_add_right _ _))
      by_contra hbefore
      exact hm (hnew e (of_decide_eq_true hafter) (of_decide_eq_false (by simpa using hbefore))).2.2

/-- A waiter is given out, in the place of whoever has it. -/
theorem expect (h : w.Attends xs) (id : String)
    (hwaiters : w'.bus.waiters = (w.bus.waiters.expect id).1) :
    w'.Attends (xs ++ [.answered ⟨.expect id, (w.bus.waiters.expect id).2⟩]) := by
  let fresh : Expectation := ⟨⟨w.bus.waiters.next, id⟩, []⟩
  let x : Happening := .answered ⟨.expect id, (w.bus.waiters.expect id).2⟩
  have hall : expectations (xs ++ [x]) = (expectations xs).map (·.extend [x]) ++ [fresh] :=
    expectations_append xs [x]
  have houtcome : ∀ e : Expectation, (e.extend [x]).outcome? =
      e.outcome?.or (if id = e.waiter.requestId then some .superseded else none) :=
    fun e => e.outcome?_extend_singleton x
  have hnext : w'.bus.waiters.next = w.bus.waiters.next + 1 := congrArg Waiters.next hwaiters
  refine ⟨hwaiters ▸ h.sound.expect id, fun e he => ?_, fun e he => ?_, ?_, fun id' v hv => ?_,
    fun e he => ?_, fun m => ?_⟩
  · rw [hall] at he
    rw [hwaiters]
    rcases List.mem_append.mp he with hold | hnew
    · obtain ⟨e₀, he₀, rfl⟩ := List.mem_map.mp hold
      rw [houtcome]
      exact (h.has e₀ he₀).expect h.sound (h.lt_next e₀ he₀) id
    · obtain rfl := List.mem_singleton.mp hnew
      exact List.mem_append_right _ (List.mem_singleton_self _)
  · rw [hall] at he
    rw [hnext]
    rcases List.mem_append.mp he with hold | hnew
    · obtain ⟨e₀, he₀, rfl⟩ := List.mem_map.mp hold
      exact Nat.lt_succ_of_lt (h.lt_next e₀ he₀)
    · obtain rfl := List.mem_singleton.mp hnew
      exact Nat.lt_succ_self _
  · rw [hall, List.map_append, List.map_map]
    refine List.Nodup.append h.handles (List.nodup_singleton _) fun k hk hfresh => ?_
    obtain ⟨e, he, rfl⟩ := List.mem_map.mp hk
    exact Nat.ne_of_lt (h.lt_next e he) (List.mem_singleton.mp hfresh)
  · rcases List.mem_append.mp hv with hold | hnew
    · exact h.named id' v hold
    · cases List.mem_singleton.mp hnew
      rfl
  · rw [hall] at he
    rcases List.mem_append.mp he with hold | hnew
    · obtain ⟨e₀, he₀, rfl⟩ := List.mem_map.mp hold
      exact (h.informed e₀ he₀).extend fun i timeout a hi => absurd hi (not_waits rfl _ _ _ _)
    · obtain rfl := List.mem_singleton.mp hnew
      exact fun i timeout a hi => by cases hi
  · have hfresh : decide (fresh.outcome? = some (.reply m)) = false := rfl
    rw [handedIn, hall, List.countP_append, List.countP_map, List.countP_singleton, hfresh,
      takenIn_append, List.count_append]
    exact h.once_of_quiet (List.forall_mem_singleton.mpr rfl) m

/-- A wait ends, and the table stays. -/
theorem wait (h : w.Attends xs) {v : Waiter} {timeout : Nat} {timeIsUp : Bool}
    {a : Except Fault Message} (hwait : w.bus.waiters.wait v timeout timeIsUp = some a)
    (hwaiters : w'.bus.waiters = w.bus.waiters) :
    w'.Attends (xs ++ [.answered ⟨.reply v timeout, a⟩]) := by
  have hsame : ∀ e : Expectation,
      (e.extend [.answered ⟨.reply v timeout, a⟩]).outcome? = e.outcome? := fun e =>
    (e.outcome?_extend_singleton _).trans Option.or_none
  refine h.extend (List.forall_mem_singleton.mpr rfl) (hwaiters ▸ h.sound) (congrArg _ hwaiters)
    (fun e he => ?_) (fun e he i timeout' a' hi => ?_)
    (h.once_of_quiet (List.forall_mem_singleton.mpr rfl))
  · rw [hsame, hwaiters]
    exact h.has e he
  · obtain ⟨u, since⟩ := e
    cases i with
    | zero =>
      cases Option.some.inj hi
      have hnow : (Expectation.extend ⟨u, since⟩ []).outcome? = Expectation.outcome? ⟨u, since⟩ :=
        (Expectation.outcome?_extend _ _).trans Option.or_none
      refine ⟨timeIsUp, ?_⟩
      rw [List.take_zero, hnow, ← (h.has _ he).wait h.sound]
      exact hwait
    | succ i => cases hi

/-- Somebody gives up, and the place for his request is cleared. -/
theorem giveUp (h : w.Attends xs) (v : Waiter)
    (hwaiters : w'.bus.waiters = w.bus.waiters.remove v.requestId) :
    w'.Attends (xs ++ [.answered ⟨.giveUp v, ()⟩]) := by
  refine h.extend (List.forall_mem_singleton.mpr rfl) (hwaiters ▸ h.sound.remove _)
    (congrArg (·.next) hwaiters) (fun e he => ?_)
    (fun e _ i timeout a hi => absurd hi (not_waits rfl _ _ _ _))
    (h.once_of_quiet (List.forall_mem_singleton.mpr rfl))
  rw [e.outcome?_extend_singleton, hwaiters]
  exact (h.has e he).giveUp h.sound v

/-- Whatever a step does to the table, the waiters stand as the history says. -/
theorem minds (h : w.Attends xs) (hminds : w.Minds ys w') : w'.Attends (xs ++ ys) := by
  cases hminds with
  | delivers m hwaiters => exact h.deliver m hwaiters
  | expects id hwaiters => exact h.expect id hwaiters
  | waits v timeout timeIsUp a hwait hwaiters => exact h.wait hwait hwaiters
  | givesUp v hwaiters => exact h.giveUp v hwaiters
  | other hwaiters hys =>
    have hsame : ∀ e : Expectation, (e.extend ys).outcome? = e.outcome? := fun e =>
      e.outcome?_extend_of_apart hys
    refine h.extend (fun x hx => (hys x hx).2.1) (hwaiters ▸ h.sound) (congrArg _ hwaiters)
      (fun e he => ?_) (fun e he i timeout a hi => ?_)
      (h.once_of_quiet fun x hx => (hys x hx).1)
    · rw [hsame, hwaiters]
      exact h.has e he
    · cases (hys _ (List.mem_of_getElem? hi)).2.2.1

end Attends

/-- After all steps of a network its waiters stand as their histories say. -/
theorem Passage.attends {settings : Settings} (h : (World.opened settings).Passage xs w) :
    w.Attends xs := by
  induction h with
  | stay => exact .opened settings
  | step h hstep ih => exact ih.minds (hstep.minds (h.tally (.opened settings)).owned)

/-- What those who wait for a first reply obtain, and that they take nothing from the lanes. -/
structure Heeds (xs : List Happening) (w : World) : Prop where
  /-- Whoever waits now is told what was decided about him first: the reply, or that his place is lost.
  Only while nothing was does he go on to wait until his time is up. -/
  told : ∀ e ∈ expectations xs, ∀ (s : Scene) (timeout : Nat), s.world = w →
    (s.attempt (.reply e.waiter timeout)).2 =
      e.waiter.told timeout (timeout = 0 || s.timeIsUp) e.outcome?
  /-- A wait that has ended was told what had been decided by then. -/
  informed : ∀ e ∈ expectations xs, e.Informed
  /-- A message that it was told is the first reply to its id that was delivered since. -/
  first : ∀ e ∈ expectations xs, ∀ timeout m,
    .answered ⟨.reply e.waiter timeout, .ok m⟩ ∈ e.since →
      (takenIn e.since).find? (·.repliesTo e.waiter.requestId) = some m
  /-- A message is handed to no more waiters than it was delivered times. -/
  once : ∀ m, handedIn xs m ≤ (takenIn xs).count m
  /-- Who waits is woken when he is superseded, when somebody clears his place and when his reply is
  delivered. -/
  woken : ∀ e ∈ expectations xs, e.outcome? = none →
    (∀ p timeout, (Operation.reply e.waiter timeout).waitsFor p (.replied e.waiter.handle) = true) ∧
    (∀ s : Scene, s.world = w → .replied e.waiter.handle ∈
      (s.attempt (.expect e.waiter.requestId)).1.world.signals) ∧
    (∀ (s : Scene) (v : Waiter), s.world = w → v.requestId = e.waiter.requestId →
      .replied e.waiter.handle ∈ (s.attempt (.giveUp v)).1.world.signals) ∧
    ∀ m rest, w.bus.queue = m :: rest → m.repliesTo e.waiter.requestId = true →
      .replied e.waiter.handle ∈ w.deliverOne.signals
  /-- Who gives up while he has his place takes it away, and nothing else. -/
  own : ∀ e ∈ expectations xs, e.outcome? = none → ∀ s : Scene, s.world = w →
    (s.attempt (.giveUp e.waiter)).1.world.bus.waiters =
      { w.bus.waiters with entries := w.bus.waiters.entries.filter (·.2 != e.waiter.handle) }
  /-- Whoever waits for a message and whatever is collected, it comes to the end of the lanes of the
  registrations that it concerns, once. -/
  lanes : ∀ m rest, w.bus.queue = m :: rest → ∀ i,
    inboxAt w.deliverOne.bus.lanes i =
        inboxAt w.bus.lanes i ++ (if i ∈ w.bus.targets m then [m] else []) ∧
      (i ∈ w.bus.targets m ↔
        ∃ t, (tenures xs)[i]? = some t ∧ t.isOpen = true ∧ m.concerns t.name = true)

theorem lanes_deliverOne {m : Message} {rest : List Message} (h : w.bus.queue = m :: rest) :
    w.deliverOne.bus.lanes = w.bus.posted m := by
  rw [deliverOne_eq w h]
  exact congrArg (fun p : Bus × Delivery => p.1.lanes) (Bus.deliver_eq _ m)

/-- Everybody who waits for a reply is told the first one, and no two the same. -/
theorem Passage.heeds {settings : Settings} (h : (World.opened settings).Passage xs w) :
    w.Heeds xs := by
  have hattends := h.attends
  have hroll := (h.tally (.opened settings)).roll
  refine
    { told := fun e he s timeout hs => ?_
      informed := hattends.informed
      first := fun e he timeout m hm => (hattends.informed e he).find? hm
      once := hattends.once
      woken := fun e he hopen => ?_
      own := fun e he hopen s hs => ?_
      lanes := fun m rest hqueue i => ?_ }
  · subst hs
    rw [s.attempt_reply, (hattends.has e he).wait hattends.sound]
  · have hplace := hattends.has e he
    rw [hopen] at hplace
    have hhandle := (Waiters.handle?_eq_some_iff hattends.sound).mpr hplace
    refine ⟨fun p timeout => beq_self_eq_true _, fun s hs => ?_, fun s v hs hid => ?_,
      fun m rest hqueue hm => ?_⟩
    · subst hs
      exact Scene.signals_expect hhandle
    · subst hs
      exact Scene.signals_giveUp (hid ▸ hhandle)
    · obtain ⟨hkind, hid⟩ := Bool.and_eq_true_iff.mp hm
      rw [← beq_iff_eq.mp hid] at hhandle
      exact signals_deliverOne hqueue hkind hhandle
  · subst hs
    have hplace := hattends.has e he
    rw [hopen] at hplace
    exact hattends.sound.remove_eq hplace
  · rw [lanes_deliverOne hqueue]
    exact ⟨hroll.inboxAt_posted m i, hroll.mem_targets_iff⟩

end World

end Switchboard
