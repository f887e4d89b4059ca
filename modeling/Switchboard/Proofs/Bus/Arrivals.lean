import Switchboard.Proofs.Bus.Histories
import Switchboard.Proofs.Keyed
import Switchboard.Proofs.Timetable.Deliveries

/-!
# What was sent arrives

The messages of a history are found again: those that were accepted are in the queue unless they were
taken off it, and those that were taken are in the lanes of the registrations that they were for
unless they have begun to be handled.

* `Bus.Roll` : the agents of a bus are those whose registrations are open; `Bus.Roll.mem_targets_iff` :
  whom a message goes to;
* `World.Moves` : what a step does in which nobody comes or goes;
* `World.Tally` : a network is where its history says; `World.Tally.step`, `World.Passage.tally` : so it
  is after every step;
* `Delivered`, `World.Tally.delivered` : the messages that have begun to be handled.
-/

namespace Switchboard

/-! ## Lanes -/

/-- The messages that are in a lane, if there is one at the position. -/
def inboxAt (lanes : List Lane) (i : Nat) : List Message := ((lanes[i]?).map (·.inbox)).getD []

theorem inboxAt_concat {lanes : List Lane} (agent i : Nat) :
    inboxAt (lanes ++ [⟨agent, []⟩]) i = inboxAt lanes i := by
  unfold inboxAt
  rcases Nat.lt_trichotomy i lanes.length with h | h | h
  · rw [List.getElem?_append_left h]
  · subst h
    simp
  · rw [List.getElem?_eq_none (by simp; omega), List.getElem?_eq_none (by omega)]

theorem length_post (m : Message) (positions : List Nat) (lanes : List Lane) :
    (Bus.post m positions lanes).length = lanes.length := by
  induction positions generalizing lanes with
  | nil => rfl
  | cons i positions ih =>
    rw [Bus.post_cons, ih]
    exact List.length_modify ..

/-- A message comes to the end of the lanes it is put into. -/
theorem inboxAt_post {m : Message} {positions : List Nat} {lanes : List Lane}
    (hd : positions.Nodup) (hlt : ∀ i ∈ positions, i < lanes.length) (i : Nat) :
    inboxAt (Bus.post m positions lanes) i =
      inboxAt lanes i ++ if i ∈ positions then [m] else [] := by
  induction positions generalizing lanes with
  | nil => simp [Bus.post]
  | cons j positions ih =>
    obtain ⟨hj, hd⟩ := List.nodup_cons.mp hd
    obtain ⟨hjlt, hlt⟩ := List.forall_mem_cons.mp hlt
    rw [Bus.post_cons, ih hd (by simpa using hlt)]
    by_cases hi : j = i
    · subst hi
      simp [inboxAt, hj, hjlt]
    · simp [inboxAt, hi, Ne.symm hi]

/-! ## Registrations -/

/-- The agents of a bus are those whose registrations are open, each in the lane of its
registration. -/
structure Bus.Roll (b : Bus) (ts : List Tenure) : Prop where
  lanes : b.lanes.length = ts.length
  names : (b.members.map (·.name)).Nodup
  members : ∀ x ∈ b.members, ∃ t, ts[x.lane]? = some t ∧ t.name = x.name ∧ t.isOpen = true
  holders : ∀ i t, ts[i]? = some t → t.isOpen = true → ∃ x ∈ b.members, x.name = t.name ∧ x.lane = i

namespace Bus.Roll

variable {b b' : Bus} {ts : List Tenure} {m : Message} {i : Nat}

/-- A message goes to the lanes of the open registrations that it concerns. -/
theorem mem_targets_iff (h : b.Roll ts) :
    i ∈ b.targets m ↔ ∃ t, ts[i]? = some t ∧ t.isOpen = true ∧ m.concerns t.name = true := by
  unfold targets Message.concerns
  cases hto : m.toAgent with
  | some name =>
    simp only [Option.mem_toList, Option.map_eq_some_iff, beq_iff_eq]
    constructor
    · rintro ⟨x, hx, rfl⟩
      obtain ⟨hmem, hname⟩ := (find?_key_eq_some_iff h.names).mp hx
      obtain ⟨t, ht, htname, hopen⟩ := h.members x hmem
      exact ⟨t, ht, hopen, (htname.trans hname).symm⟩
    · rintro ⟨t, ht, hopen, rfl⟩
      obtain ⟨x, hmem, hname, hlane⟩ := h.holders i t ht hopen
      exact ⟨x, (find?_key_eq_some_iff h.names).mpr ⟨hmem, hname⟩, hlane⟩
  | none =>
    simp only [List.mem_map, List.mem_filter]
    constructor
    · rintro ⟨x, ⟨hmem, hother⟩, rfl⟩
      obtain ⟨t, ht, htname, hopen⟩ := h.members x hmem
      refine ⟨t, ht, hopen, ?_⟩
      rw [htname, bne_comm]
      exact hother
    · rintro ⟨t, ht, hopen, hother⟩
      obtain ⟨x, hmem, hname, hlane⟩ := h.holders i t ht hopen
      refine ⟨x, ⟨hmem, ?_⟩, hlane⟩
      rw [hname, bne_comm]
      exact hother

theorem lt_of_mem_targets (h : b.Roll ts) (hi : i ∈ b.targets m) : i < b.lanes.length := by
  obtain ⟨t, ht, -⟩ := h.mem_targets_iff.mp hi
  rw [h.lanes]
  exact (List.getElem?_eq_some_iff.mp ht).1

/-- Two agents are in two lanes. -/
theorem nodup_lanes (h : b.Roll ts) : (b.members.map (·.lane)).Nodup := by
  refine List.Nodup.map_on (fun x hx y hy hlane => ?_) (List.Nodup.of_map _ h.names)
  obtain ⟨t, ht, htx, -⟩ := h.members x hx
  obtain ⟨t', ht', hty, -⟩ := h.members y hy
  obtain rfl : t = t' := Option.some.inj (ht.symm.trans (hlane ▸ ht'))
  exact List.inj_on_of_nodup_map h.names hx hy (htx.symm.trans hty)

theorem nodup_targets (h : b.Roll ts) (m : Message) : (b.targets m).Nodup := by
  unfold targets
  split
  · cases b.member? _ <;> simp
  · exact h.nodup_lanes.sublist (List.filter_sublist.map _)

/-- A message that is delivered comes to the end of the lanes it goes to. -/
theorem inboxAt_posted (h : b.Roll ts) (m : Message) (i : Nat) :
    inboxAt (b.posted m) i = inboxAt b.lanes i ++ if i ∈ b.targets m then [m] else [] :=
  inboxAt_post (h.nodup_targets m) (fun _ hi => h.lt_of_mem_targets hi) i

/-- As long as nobody comes or goes the agents stay the same. -/
theorem extend (h : b.Roll ts) {ys : List Happening} (hkeeps : ∀ x ∈ ys, ∀ name, x.keeps name = true)
    (hmembers : b'.members = b.members) (hlanes : b'.lanes.length = b.lanes.length) :
    b'.Roll (ts.map (·.extend ys)) := by
  have hopen : ∀ t : Tenure, (t.extend ys).isOpen = t.isOpen := fun t => by
    rw [Tenure.isOpen_extend, List.all_eq_true.mpr fun x hx => hkeeps x hx t.name, Bool.and_true]
  refine ⟨?_, hmembers ▸ h.names, fun x hx => ?_, fun i t ht ho => ?_⟩
  · rw [hlanes, h.lanes, List.length_map]
  · rw [hmembers] at hx
    obtain ⟨t, ht, hname, ho⟩ := h.members x hx
    exact ⟨t.extend ys, by rw [List.getElem?_map, ht]; rfl, hname, (hopen t).trans ho⟩
  · rw [List.getElem?_map] at ht
    obtain ⟨t, hi, rfl⟩ := Option.map_eq_some_iff.mp ht
    rw [hmembers]
    exact h.holders i t hi ((hopen t).symm.trans ho)

/-- Whoever loses the name is not among the agents any more. -/
theorem without (h : b.Roll ts) {x : Happening} {name : String}
    (hkeeps : ∀ other, x.keeps other = (name != other))
    (hmembers : b'.members = b.members.filter (·.name != name))
    (hlanes : b'.lanes.length = b.lanes.length) : b'.Roll (ts.map (·.extend [x])) := by
  have hopen : ∀ t : Tenure, (t.extend [x]).isOpen = (t.isOpen && name != t.name) := fun t => by
    rw [Tenure.isOpen_extend, List.all_cons, List.all_nil, Bool.and_true, hkeeps]
  refine ⟨?_, ?_, fun y hy => ?_, fun i t ht ho => ?_⟩
  · rw [hlanes, h.lanes, List.length_map]
  · rw [hmembers]
    exact h.names.sublist (List.filter_sublist.map _)
  · rw [hmembers] at hy
    obtain ⟨hy, hother⟩ := List.mem_filter.mp hy
    obtain ⟨t, ht, hname, ho⟩ := h.members y hy
    refine ⟨t.extend [x], by rw [List.getElem?_map, ht]; rfl, hname, ?_⟩
    rw [hopen, ho, hname, Bool.true_and, bne_comm]
    exact hother
  · rw [List.getElem?_map] at ht
    obtain ⟨t, hi, rfl⟩ := Option.map_eq_some_iff.mp ht
    rw [hopen, Bool.and_eq_true] at ho
    obtain ⟨y, hy, hname, hlane⟩ := h.holders i t hi ho.1
    refine ⟨y, ?_, hname, hlane⟩
    rw [hmembers]
    refine List.mem_filter.mpr ⟨hy, ?_⟩
    rw [hname, bne_comm]
    exact ho.2

/-- An agent that registers takes the name from whoever has it, and is given a lane of its own. -/
theorem join (h : b.Roll ts) (name : String) (agent : Nat) :
    (b.join name agent).Roll (ts.map (·.extend [.registered name]) ++ [⟨name, []⟩]) := by
  have hkeeps : ∀ other, (Happening.registered name).keeps other = (name != other) := fun _ => rfl
  have hleft : Bus.Roll { b with members := b.members.filter (·.name != name) }
      (ts.map (·.extend [.registered name])) := h.without hkeeps rfl rfl
  have hlength : b.lanes.length = (ts.map (·.extend [.registered name])).length := hleft.lanes
  refine ⟨?_, ?_, fun x hx => ?_, fun i t ht ho => ?_⟩
  · unfold Bus.join
    rw [List.length_append, List.length_append, hlength]
    rfl
  · unfold Bus.join
    rw [List.map_append]
    refine List.Nodup.append hleft.names (List.nodup_singleton _) ?_
    simp
  · rcases List.mem_append.mp hx with hx | hx
    · obtain ⟨t, ht, hname, ho⟩ := hleft.members x hx
      exact ⟨t, (List.getElem?_append_left (List.getElem?_eq_some_iff.mp ht).1).trans ht, hname, ho⟩
    · obtain rfl := List.mem_singleton.mp hx
      refine ⟨⟨name, []⟩, ?_, rfl, rfl⟩
      rw [hlength]
      exact List.getElem?_concat_length
  · rcases Nat.lt_or_ge i b.lanes.length with hlt | hge
    · rw [List.getElem?_append_left (hlength ▸ hlt)] at ht
      obtain ⟨x, hx, hname, hlane⟩ := hleft.holders i t ht ho
      exact ⟨x, List.mem_append_left _ hx, hname, hlane⟩
    · obtain rfl : i = b.lanes.length := by
        have hi := (List.getElem?_eq_some_iff.mp ht).1
        rw [List.length_append, ← hlength, List.length_singleton] at hi
        omega
      rw [hlength, List.getElem?_concat_length] at ht
      obtain rfl := Option.some.inj ht
      exact ⟨⟨name, agent, b.lanes.length⟩, List.mem_append_right _ (List.mem_singleton.mpr rfl), rfl,
        rfl⟩

end Bus.Roll

/-! ## What is due -/

theorem tenures_of_keeps {ys : List Happening} (h : ∀ x ∈ ys, ∀ name, x.keeps name = true) :
    tenures ys = [] := by
  induction ys with
  | nil => rfl
  | cons x ys ih =>
    obtain ⟨hx, hys⟩ := List.forall_mem_cons.mp h
    cases x with
    | registered name =>
      have hname := hx name
      simp [Happening.keeps] at hname
    | _ => exact ih hys

/-- A message that is taken off the queue is due to the registrations whose lanes it goes to. -/
theorem Bus.Roll.dueOn_append {b : Bus} {xs ys : List Happening} (h : b.Roll (tenures xs))
    (hkeeps : ∀ x ∈ ys, ∀ name, x.keeps name = true) (i : Nat) :
    dueOn (xs ++ ys) i = dueOn xs i ++ (takenIn ys).filter fun m => decide (i ∈ b.targets m) := by
  unfold dueOn
  rw [tenures_append, tenures_of_keeps hkeeps, List.append_nil, List.getElem?_map]
  cases ht : (tenures xs)[i]? with
  | none =>
    have hnone : ∀ m, i ∉ b.targets m := fun m hi => by
      obtain ⟨t, ht', -⟩ := h.mem_targets_iff.mp hi
      rw [ht] at ht'
      cases ht'
    simp [hnone]
  | some t =>
    have htargets : ∀ m, i ∈ b.targets m ↔ t.isOpen = true ∧ m.concerns t.name = true := fun m => by
      rw [h.mem_targets_iff, ht]
      simp
    change (t.extend ys).due = t.due ++ _
    cases ho : t.isOpen with
    | true =>
      have hall : ys.all (·.keeps t.name) = true :=
        List.all_eq_true.mpr fun x hx => hkeeps x hx t.name
      rw [t.due_extend_of_open ys ho hall]
      simp [htargets, ho]
    | false =>
      rw [t.due_extend_of_closed ys ho]
      simp [htargets, ho]

theorem dueOn_append_of_none {ys : List Happening} (htaken : takenIn ys = [])
    (hfresh : ∀ t ∈ tenures ys, t.due = []) (xs : List Happening) (i : Nat) :
    dueOn (xs ++ ys) i = dueOn xs i := by
  unfold dueOn
  rw [tenures_append]
  rcases Nat.lt_or_ge i (tenures xs).length with hlt | hge
  · rw [List.getElem?_append_left (by rwa [List.length_map]), List.getElem?_map,
      List.getElem?_eq_getElem hlt]
    exact Tenure.due_extend_of_none _ ys htaken
  · rw [List.getElem?_append_right (by rwa [List.length_map]), List.getElem?_eq_none hge]
    cases ht : (tenures ys)[i - ((tenures xs).map (·.extend ys)).length]? with
    | none => rfl
    | some t => exact hfresh t (List.mem_of_getElem? ht)

/-! ## Steps -/

/-- What a step does in which nobody comes or goes. -/
structure World.Moves (w : World) (ys : List Happening) (w' : World) : Prop where
  keeps : ∀ x ∈ ys, ∀ name, x.keeps name = true
  owned : w'.owned = w.owned
  members : w'.bus.members = w.bus.members
  lanes : w'.bus.lanes.length = w.bus.lanes.length
  queue : w.bus.queue ++ acceptedIn ys = takenIn ys ++ w'.bus.queue
  inbox : ∀ i, inboxAt w.bus.lanes i ++ ((takenIn ys).filter fun m => decide (i ∈ w.bus.targets m)) =
    begunOn ys i ++ inboxAt w'.bus.lanes i
  nextHandling : w'.nextHandling = w.nextHandling + (begunIn ys).length
  handlings : ∀ h ∈ w'.handlings, (∃ h₀ ∈ w.handlings, h.number = h₀.number ∧ h.lane = h₀.lane) ∨
    ∃ k m, h.number = w.nextHandling + k ∧ (begunIn ys)[k]? = some (h.lane, m)

namespace World

variable {w w' : World} {xs ys : List Happening}

/-- What a step does that only lets work come further. -/
theorem Moves.of_mail (hkeeps : ∀ x ∈ ys, ∀ name, x.keeps name = true) (howned : w'.owned = w.owned)
    (htaken : takenIn ys = []) (hbegun : begunIn ys = [])
    (hmail : w'.bus.mail = { w.bus.mail with queue := w.bus.queue ++ acceptedIn ys })
    (hnext : w'.nextHandling = w.nextHandling)
    (hhandlings : ∀ h ∈ w'.handlings, ∃ h₀ ∈ w.handlings, h.number = h₀.number ∧ h.lane = h₀.lane) :
    w.Moves ys w' where
  keeps := hkeeps
  owned := howned
  members := congrArg Bus.Mail.members hmail
  lanes := congrArg (fun mail : Bus.Mail => mail.lanes.length) hmail
  queue := by
    rw [htaken]
    exact (congrArg Bus.Mail.queue hmail).symm
  inbox := fun i => by
    have hlanes : w'.bus.lanes = w.bus.lanes := congrArg Bus.Mail.lanes hmail
    rw [htaken, begunOn, hbegun, hlanes]
    exact List.append_nil _
  nextHandling := by
    rw [hbegun, hnext]
    rfl
  handlings := fun h hh => .inl (hhandlings h hh)

/-- What an operation does. -/
theorem moves_attempt {s : Scene} (h : s.world.owned = true) (o : Operation) :
    s.world.Moves (s.answered o) (s.attempt o).1.world := by
  obtain ⟨hnext, hhandlings⟩ := nextHandling_of_stage (s.stage_attempt o)
  have hanswered : ∀ x ∈ s.answered o, ∃ x', x = .answered x' := fun x hx => by
    obtain ⟨answer, -, rfl⟩ := Option.map_eq_some_iff.mp (Option.mem_toList.mp hx)
    exact ⟨_, rfl⟩
  refine .of_mail (fun x hx name => ?_) (congrArg Grounds.owned (s.grounds_attempt h o))
    (List.filterMap_eq_nil_iff.mpr fun x hx => ?_) (List.filterMap_eq_nil_iff.mpr fun x hx => ?_)
    (Scene.mail_attempt h o) hnext fun h₁ hh => ⟨h₁, hhandlings ▸ hh, rfl, rfl⟩
  all_goals
    obtain ⟨x', rfl⟩ := hanswered x hx
    rfl

theorem moves_deliverOne (hroll : w.bus.Roll (tenures xs)) {m : Message} {rest : List Message}
    (hqueue : w.bus.queue = m :: rest) : w.Moves [.taken m] w.deliverOne := by
  have hgrounds := w.grounds_deliverOne
  have hlayout := congrArg Grounds.layout hgrounds
  obtain ⟨hnext, hhandlings⟩ := nextHandling_of_stage w.stage_deliverOne
  have hlanes : w.deliverOne.bus.lanes = w.bus.posted m := by
    rw [deliverOne_eq w hqueue]
    exact congrArg (fun p : Bus × Delivery => p.1.lanes) (Bus.deliver_eq _ m)
  refine
    { keeps := by simp [Happening.keeps]
      owned := congrArg Grounds.owned hgrounds
      members := congrArg Bus.Layout.members hlayout
      lanes := by rw [hlanes]; exact length_post ..
      queue := ?_
      inbox := fun i => ?_
      nextHandling := hnext
      handlings := fun h hh => .inl ⟨h, hhandlings ▸ hh, rfl, rfl⟩ }
  · rw [queue_deliverOne, hqueue]
    exact List.append_nil _
  · rw [hlanes, hroll.inboxAt_posted]
    change inboxAt w.bus.lanes i ++ [m].filter _ = _
    by_cases hi : i ∈ w.bus.targets m <;> simp [hi, begunOn, begunIn, Happening.begun?]

theorem begunIn_map_begun (i : Nat) (ms : List Message) :
    begunIn (ms.map (.begun i)) = ms.map fun m => (i, m) := by
  rw [begunIn, List.filterMap_map]
  exact congrFun List.filterMap_eq_map' ms

theorem begunOn_map_begun (i j : Nat) (ms : List Message) :
    begunOn (ms.map (.begun i)) j = if i = j then ms else [] := by
  rw [begunOn, begunIn_map_begun]
  split <;> rename_i hj <;> simp [List.filter_map, Function.comp_def, hj]

/-- A lane is emptied, and its messages begin to be handled in their order. -/
theorem moves_openInbox {i : Nat} {lane : Lane} {actor : Actor}
    (hlane : w.bus.lanes[i]? = some lane) (hactor : w.actors[lane.agent]? = some actor) :
    w.Moves (lane.inbox.map (.begun i)) (w.openInbox i) := by
  have hbegun := begunIn_map_begun i lane.inbox
  have hnone : ∀ {β : Type} (f : Happening → Option β), (∀ m, f (.begun i m) = none) →
      (lane.inbox.map (.begun i)).filterMap f = [] := by
    intro β f hf
    refine List.filterMap_eq_nil_iff.mpr fun x hx => ?_
    obtain ⟨m, -, rfl⟩ := List.mem_map.mp hx
    exact hf m
  have haccepted : acceptedIn (lane.inbox.map (.begun i)) = [] := hnone _ fun _ => rfl
  have htaken : takenIn (lane.inbox.map (.begun i)) = [] := hnone _ fun _ => rfl
  rw [Roster.openInbox_eq hlane hactor]
  refine
    { keeps := fun x hx name => ?_
      owned := rfl
      members := rfl
      lanes := List.length_modify ..
      queue := ?_
      inbox := fun j => ?_
      nextHandling := ?_
      handlings := fun h hh => ?_ }
  · obtain ⟨m, -, rfl⟩ := List.mem_map.mp hx
    rfl
  · rw [haccepted, htaken]
    exact List.append_nil _
  · rw [htaken, List.filter_nil, List.append_nil, begunOn_map_begun]
    split
    · rename_i hj
      subst hj
      simp [inboxAt, Roster.emptied, hlane]
    · rename_i hj
      simp [inboxAt, Roster.emptied, hj]
  · rw [hbegun, List.length_map]
  · rcases List.mem_append.mp hh with hh | hh
    · exact .inl ⟨h, hh, rfl, rfl⟩
    · obtain ⟨⟨number, m⟩, hmem, rfl⟩ := List.mem_map.mp hh
      obtain ⟨k, hk⟩ := List.mem_iff_getElem?.mp hmem
      obtain ⟨hnumber, hm⟩ := List.getElem?_zip_eq_some.mp hk
      refine .inr ⟨k, m, ?_, ?_⟩
      · have hk := List.getElem?_eq_some_iff.mp hnumber
        simpa using hk.2.symm
      · rw [hbegun, List.getElem?_map, hm]
        rfl

/-! ## Histories -/

/-- A network is where its history says. -/
structure Tally (xs : List Happening) (w : World) : Prop where
  owned : w.owned = true
  roll : w.bus.Roll (tenures xs)
  queue : acceptedIn xs = takenIn xs ++ w.bus.queue
  inbox : ∀ i, begunOn xs i ++ inboxAt w.bus.lanes i = dueOn xs i
  nextHandling : w.nextHandling = (begunIn xs).length
  handlings : ∀ h ∈ w.handlings, ∃ m, (begunIn xs)[h.number]? = some (h.lane, m)

namespace Tally

theorem opened (settings : Settings) : Tally [] (opened settings) where
  owned := rfl
  roll := ⟨rfl, List.nodup_nil, by simp [World.opened, Bus.opened], by simp [tenures]⟩
  queue := rfl
  inbox := fun _ => rfl
  nextHandling := rfl
  handlings := by simp [World.opened]

theorem moves (h : w.Tally xs) (hmoves : w.Moves ys w') : w'.Tally (xs ++ ys) where
  owned := hmoves.owned.trans h.owned
  roll := by
    rw [tenures_append, tenures_of_keeps hmoves.keeps, List.append_nil]
    exact h.roll.extend hmoves.keeps hmoves.members hmoves.lanes
  queue := by
    rw [acceptedIn_append, takenIn_append, h.queue, List.append_assoc, hmoves.queue,
      List.append_assoc]
  inbox := fun i => by
    rw [h.roll.dueOn_append hmoves.keeps, ← h.inbox i, List.append_assoc, hmoves.inbox,
      begunOn_append, List.append_assoc]
  nextHandling := by
    rw [hmoves.nextHandling, h.nextHandling, begunIn_append, List.length_append]
  handlings := fun h₁ hh => by
    rw [begunIn_append]
    rcases hmoves.handlings h₁ hh with ⟨h₀, hh₀, hnumber, hlane⟩ | ⟨k, m, hnumber, hm⟩
    · obtain ⟨m, hm⟩ := h.handlings h₀ hh₀
      rw [hnumber, hlane, List.getElem?_append_left (List.getElem?_eq_some_iff.mp hm).1]
      exact ⟨m, hm⟩
    · rw [hnumber, h.nextHandling, List.getElem?_append_right (Nat.le_add_right _ _),
        Nat.add_sub_cancel_left]
      exact ⟨m, hm⟩

/-- Somebody comes or goes, and the messages stay where they are. -/
theorem changes (h : w.Tally xs) {x : Happening} (hroll : w'.bus.Roll (tenures (xs ++ [x])))
    (haccepted : x.accepted? = none) (htaken : x.taken? = none) (hbegun : x.begun? = none)
    (hfresh : ∀ t ∈ tenures [x], t.due = []) (howned : w'.owned = w.owned)
    (hqueue : w'.bus.queue = w.bus.queue) (hinbox : ∀ i, inboxAt w'.bus.lanes i = inboxAt w.bus.lanes i)
    (hnext : w'.nextHandling = w.nextHandling) (hhandlings : w'.handlings = w.handlings) :
    w'.Tally (xs ++ [x]) := by
  have hacceptedIn : acceptedIn [x] = [] := by simp [acceptedIn, haccepted]
  have htakenIn : takenIn [x] = [] := by simp [takenIn, htaken]
  have hbegunIn : begunIn (xs ++ [x]) = begunIn xs := by simp [begunIn, hbegun]
  refine ⟨howned.trans h.owned, hroll, ?_, fun i => ?_, ?_, fun h₁ hh => ?_⟩
  · rw [acceptedIn_append, takenIn_append, hacceptedIn, htakenIn, List.append_nil, List.append_nil,
      hqueue, h.queue]
  · rw [dueOn_append_of_none htakenIn hfresh, ← h.inbox i, begunOn, begunOn, hbegunIn, hinbox]
  · rw [hnext, h.nextHandling, hbegunIn]
  · rw [hbegunIn]
    exact h.handlings h₁ (hhandlings ▸ hh)

theorem register (h : w.Tally xs) {agent : Nat} {actor : Actor}
    (hactor : w.actors[agent]? = some actor) :
    (w.register agent).Tally (xs ++ [.registered actor.agent.name]) := by
  unfold World.register
  rw [hactor]
  refine h.changes ?_ rfl rfl rfl (fun t ht => ?_) rfl rfl (fun i => inboxAt_concat agent i) rfl rfl
  · rw [tenures_append]
    have hjoined := h.roll.join actor.agent.name agent
    exact ⟨hjoined.lanes, hjoined.names, hjoined.members, hjoined.holders⟩
  · obtain rfl := List.mem_singleton.mp ht
    rfl

theorem unregister (h : w.Tally xs) (name : String) :
    (w.unregister name).1.Tally (xs ++ [.unregistered name]) := by
  have hmail := w.mail_unregister name
  have hlanes : (w.unregister name).1.bus.lanes = w.bus.lanes := congrArg Bus.Mail.lanes hmail
  refine h.changes ?_ rfl rfl rfl (by simp [tenures]) rfl (congrArg Bus.Mail.queue hmail)
    (fun i => by rw [hlanes]) rfl rfl
  rw [tenures_append]
  change Bus.Roll _ ((tenures xs).map _ ++ [])
  rw [List.append_nil]
  exact h.roll.without (fun _ => rfl) (congrArg Bus.Mail.members hmail) (by rw [hlanes])

/-- Work comes further, and the delivery is started or stopped. -/
theorem aside (h : w.Tally xs) (hys : ∀ x ∈ ys, x = .started ∨ x = .stopped)
    (howned : w'.owned = w.owned) (hmail : w'.bus.mail = w.bus.mail)
    (hnext : w'.nextHandling = w.nextHandling)
    (hhandlings : ∀ h ∈ w'.handlings, ∃ h₀ ∈ w.handlings, h.number = h₀.number ∧ h.lane = h₀.lane) :
    w'.Tally (xs ++ ys) := by
  have hnone : ∀ {β : Type} (f : Happening → Option β), f .started = none → f .stopped = none →
      ys.filterMap f = [] := by
    intro β f hstarted hstopped
    refine List.filterMap_eq_nil_iff.mpr fun x hx => ?_
    rcases hys x hx with rfl | rfl
    · exact hstarted
    · exact hstopped
  have haccepted : acceptedIn ys = [] := hnone _ rfl rfl
  refine h.moves (.of_mail (fun x hx name => ?_) howned (hnone _ rfl rfl) (hnone _ rfl rfl) ?_ hnext
    hhandlings)
  · rcases hys x hx with rfl | rfl <;> rfl
  · rw [hmail, haccepted, List.append_nil]
    rfl

/-- A step goes on with the history. -/
theorem step (h : w.Tally xs) (hstep : Step w ys w') : w'.Tally (xs ++ ys) := by
  have hkept : ∀ {v : World}, v.handlings = w.handlings →
      ∀ h ∈ v.handlings, ∃ h₀ ∈ w.handlings, h.number = h₀.number ∧ h.lane = h₀.lane :=
    fun heq h hh => ⟨h, heq ▸ hh, rfl, rfl⟩
  cases hstep with
  | asks s o => exact h.moves (moves_attempt h.owned o)
  | delivers hrunning hqueue => exact h.moves (moves_deliverOne h.roll hqueue)
  | opens hlane hactor => exact h.moves (moves_openInbox hlane hactor)
  | registers hactor => exact h.register hactor
  | unregisters w name => exact h.unregister name
  | starts w =>
    unfold start
    split <;> exact h.aside (by simp) rfl rfl rfl (hkept rfl)
  | stops w => exact h.aside (by simp) rfl rfl rfl (hkept rfl)
  | sweeps w =>
    unfold sweepNow
    split <;> exact h.aside (by simp) rfl rfl rfl (hkept rfl)
  | leaves w ticket => exact h.aside (by simp) rfl rfl rfl (hkept rfl)
  | ends w b =>
    obtain ⟨hnext, hhandlings⟩ := nextHandling_of_stage (w.stage_takeBack b)
    exact h.aside (by simp) (congrArg Grounds.owned (grounds_takeBack h.owned b))
      (mail_takeBack h.owned b) hnext (hkept hhandlings)
  | aside hstep =>
    exact h.aside (by simp) hstep.owned (congrArg Bus.mail hstep.bus) hstep.nextHandling
      hstep.handlings

end Tally

/-- However its steps follow each other, a network is where its history says. -/
theorem Passage.tally (h : w.Passage xs w') (hstart : w.Tally []) : w'.Tally xs := by
  induction h with
  | stay => exact hstart
  | step _ hstep ih => exact ih.step hstep

/-! ## While messages are being delivered -/

/-- Messages are taken off the queue only while they are being delivered. -/
structure Timely (xs : List Happening) (w : World) : Prop where
  owned : w.owned = true
  running : w.running = runsAfter xs
  taken : ∀ before m after, xs = before ++ .taken m :: after → runsAfter before = true

namespace Timely

theorem opened (settings : Settings) : Timely [] (opened settings) :=
  ⟨rfl, rfl, fun before m after h => by simp at h⟩

theorem append (h : w.Timely xs)
    (hys : ∀ before m after, ys = before ++ .taken m :: after → runsAfter (xs ++ before) = true)
    (howned : w'.owned = w.owned) (hrunning : w'.running = runsAfter (xs ++ ys)) :
    w'.Timely (xs ++ ys) := by
  refine ⟨howned.trans h.owned, hrunning, fun before m after heq => ?_⟩
  rcases List.append_eq_append_iff.mp heq with ⟨zs, rfl, hzs⟩ | ⟨zs, rfl, hzs⟩
  · exact hys zs m after hzs
  · cases zs with
    | nil =>
      have hfirst := hys [] m after hzs.symm
      rwa [List.append_nil, List.append_nil] at hfirst
    | cons z zs =>
      obtain ⟨rfl, -⟩ := List.cons.inj hzs
      exact h.taken before m zs rfl

/-- A step that shows no delivery. -/
theorem append_of_not_mem (h : w.Timely xs) (hys : ∀ m, .taken m ∉ ys) (howned : w'.owned = w.owned)
    (hrunning : w'.running = runsAfter (xs ++ ys)) : w'.Timely (xs ++ ys) :=
  h.append (fun _ m _ heq => absurd (heq ▸ List.mem_append_right _ List.mem_cons_self) (hys m))
    howned hrunning

/-- A step during which the delivery is neither started nor stopped. -/
theorem runsAfter_append (h : ∀ x ∈ ys, x ≠ .started ∧ x ≠ .stopped) :
    runsAfter (xs ++ ys) = runsAfter xs := by
  unfold runsAfter
  rw [List.foldl_append]
  generalize xs.foldl _ false = running
  induction ys with
  | nil => rfl
  | cons x ys ih =>
    obtain ⟨⟨hstarted, hstopped⟩, hys⟩ := List.forall_mem_cons.mp h
    cases x with
    | started => exact absurd rfl hstarted
    | stopped => exact absurd rfl hstopped
    | _ => exact ih hys

theorem runsAfter_concat_started : runsAfter (xs ++ [.started]) = true := by
  unfold runsAfter
  rw [List.foldl_append]
  rfl

theorem runsAfter_concat_stopped : runsAfter (xs ++ [.stopped]) = false := by
  unfold runsAfter
  rw [List.foldl_append]
  rfl

theorem step (h : w.Timely xs) (hstep : Step w ys w') : w'.Timely (xs ++ ys) := by
  have hsame : ∀ {v : World} {ys : List Happening},
      (∀ x ∈ ys, x ≠ .started ∧ x ≠ .stopped ∧ ∀ m, x ≠ .taken m) → v.owned = w.owned →
      v.running = w.running → v.Timely (xs ++ ys) := by
    intro v ys hys howned hrunning
    refine h.append_of_not_mem (fun m hm => (hys _ hm).2.2 m rfl) howned ?_
    rw [runsAfter_append fun x hx => ⟨(hys x hx).1, (hys x hx).2.1⟩, hrunning, h.running]
  cases hstep with
  | asks s o =>
    have hgrounds := s.grounds_attempt h.owned o
    refine hsame (fun x hx => ?_) (congrArg Grounds.owned hgrounds) (congrArg Grounds.running hgrounds)
    obtain ⟨answer, -, rfl⟩ := Option.map_eq_some_iff.mp (Option.mem_toList.mp hx)
    simp
  | @delivers _ m rest hrunning hqueue =>
    have hgrounds := w.grounds_deliverOne
    refine h.append (fun before m' after heq => ?_) (congrArg Grounds.owned hgrounds) ?_
    · obtain rfl : before = [] := by
        cases before with
        | nil => rfl
        | cons x before => simp at heq
      rw [List.append_nil, ← h.running, hrunning]
    · rw [runsAfter_append (by simp), ← h.running]
      exact congrArg Grounds.running hgrounds
  | @opens _ i lane actor hlane hactor =>
    have hgrounds := w.grounds_openInbox i
    refine hsame (fun x hx => ?_) (congrArg Grounds.owned hgrounds) (congrArg Grounds.running hgrounds)
    obtain ⟨m, -, rfl⟩ := List.mem_map.mp hx
    simp
  | @registers _ agent actor hactor =>
    unfold World.register
    rw [hactor]
    exact hsame (by simp) rfl rfl
  | unregisters w name => exact hsame (by simp) rfl rfl
  | starts w =>
    refine h.append_of_not_mem (by simp) ?_ ?_
    · unfold start
      split <;> rfl
    · rw [runsAfter_concat_started]
      unfold start
      split
      · assumption
      · rfl
  | stops w => exact h.append_of_not_mem (by simp) rfl runsAfter_concat_stopped.symm
  | sweeps w =>
    have hgrounds := w.grounds_sweepNow
    exact hsame (by simp) (congrArg Grounds.owned hgrounds) (congrArg Grounds.running hgrounds)
  | leaves w ticket => exact hsame (by simp) rfl rfl
  | ends w b =>
    have hgrounds := grounds_takeBack h.owned b
    exact hsame (by simp) (congrArg Grounds.owned hgrounds) (congrArg Grounds.running hgrounds)
  | aside hstep => exact hsame (by simp) hstep.owned hstep.running

end Timely

theorem Passage.timely (h : w.Passage xs w') (hstart : w.Timely []) : w'.Timely xs := by
  induction h with
  | stay => exact hstart
  | step _ hstep ih => exact ih.step hstep

end World

/-! ## What has begun to be handled -/

/-- What is sent arrives: in order, once, and at those whom it is for. -/
structure Delivered (xs : List Happening) (w : World) : Prop where
  /-- The messages that were accepted are taken off the queue in this order; the rest is in it. -/
  queue : acceptedIn xs = takenIn xs ++ w.bus.queue
  /-- They are taken off it only while messages are being delivered. -/
  running : ∀ before m after, xs = before ++ .taken m :: after → runsAfter before = true
  /-- In the lane of a registration the messages begin to be handled that were taken for it while its
  agent had the name, in this order; the rest is in the lane. -/
  lanes : ∀ i, begunOn xs i ++ inboxAt w.bus.lanes i = dueOn xs i
  /-- Handlings are numbered as they begin, and those that have not ended are among them. -/
  nextHandling : w.nextHandling = (begunIn xs).length
  handlings : ∀ h ∈ w.handlings, ∃ m, (begunIn xs)[h.number]? = some (h.lane, m)
  /-- No registration is given a message twice, or in another order than the queue's. -/
  ordered : ∀ i, (begunOn xs i).Sublist (acceptedIn xs)
  /-- What it is given is addressed to its name, or sent to everybody by another one. -/
  addressed : ∀ i, ∀ m ∈ begunOn xs i, ∃ t, (tenures xs)[i]? = some t ∧
    (m.toAgent = some t.name ∨ m.toAgent = none ∧ m.fromAgent ≠ t.name)
  /-- A message with an addressee is for one registration at most. -/
  once : ∀ m, m.toAgent ≠ none →
    ((tenures xs).flatMap Tenure.due).count m ≤ (acceptedIn xs).count m

theorem Message.concerns_iff {m : Message} {name : String} :
    m.concerns name = true ↔ m.toAgent = some name ∨ m.toAgent = none ∧ m.fromAgent ≠ name := by
  unfold concerns
  cases m.toAgent <;> simp

/-- What is due to a registration, if there is one of the number. -/
theorem mem_dueOn {xs : List Happening} {i : Nat} {m : Message} (h : m ∈ dueOn xs i) :
    ∃ t, (tenures xs)[i]? = some t ∧ m ∈ t.due := by
  unfold dueOn at h
  cases ht : (tenures xs)[i]? with
  | none =>
    rw [ht] at h
    cases h
  | some t =>
    rw [ht] at h
    exact ⟨t, rfl, h⟩

theorem dueOn_sublist_takenIn (xs : List Happening) (i : Nat) :
    (dueOn xs i).Sublist (takenIn xs) := by
  unfold dueOn
  cases ht : (tenures xs)[i]? with
  | none => exact List.nil_sublist _
  | some t => exact due_sublist_takenIn (List.mem_of_getElem? ht)

theorem World.Tally.delivered {xs : List Happening} {w : World} (h : w.Tally xs)
    (htimely : w.Timely xs) : Delivered xs w where
  queue := h.queue
  running := htimely.taken
  lanes := h.inbox
  nextHandling := h.nextHandling
  handlings := h.handlings
  ordered := fun i => by
    have hbegun : begunOn xs i <+: dueOn xs i := ⟨_, h.inbox i⟩
    have htaken : takenIn xs <+: acceptedIn xs := ⟨_, h.queue.symm⟩
    exact (hbegun.sublist.trans (dueOn_sublist_takenIn xs i)).trans htaken.sublist
  addressed := fun i m hm => by
    have hdue : m ∈ dueOn xs i := h.inbox i ▸ List.mem_append_left _ hm
    obtain ⟨t, ht, hmem⟩ := mem_dueOn hdue
    exact ⟨t, ht, Message.concerns_iff.mp (List.mem_filter.mp hmem).2⟩
  once := fun m hm => by
    obtain ⟨name, hname⟩ := Option.ne_none_iff_exists'.mp hm
    have htaken : takenIn xs <+: acceptedIn xs := ⟨_, h.queue.symm⟩
    have hdue := count_due_le hname xs
    have haccepted := htaken.sublist.count_le m
    omega

/-- However the steps of a network follow each other, what is sent arrives. -/
theorem World.Passage.delivered {settings : Settings} {xs : List Happening} {w : World}
    (h : (World.opened settings).Passage xs w) : Delivered xs w :=
  (h.tally (.opened settings)).delivered (h.timely (.opened settings))

end Switchboard
