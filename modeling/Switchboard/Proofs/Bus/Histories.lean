import Mathlib.Data.List.TakeWhile
import Switchboard.Proofs.Flow.Courses
import Switchboard.Proofs.World.Grounds
import Switchboard.Proofs.World.Notices

/-!
# Histories of a network

A network that the user keeps goes on step by step: work asks something, the first message of the
queue is delivered, the messages of a lane begin to be handled, an agent comes or goes. The steps may
follow each other in any order. A history says what has happened.

* `Happening` : what a step shows; `acceptedIn`, `takenIn`, `begunIn` : the messages that entered the
  queue, left it, and began to be handled;
* `Tenure`, `tenures` : the registrations of a history, each with what happened since; `Tenure.due` :
  the messages that were taken for it while it had its name;
* `World.Step`, `World.Passage` : one step, and any number of them;
* `Bus.mail`, `Scene.mail_attempt` : what messages pass through, and what an operation does to it.
-/

namespace Switchboard

/-- The message that was put into the queue. -/
def Answered.accepted? : Answered → Option Message
  | ⟨.send m _, sent⟩ => bif sent then some m else none
  | _ => none

/-- Something that happens in a network. -/
inductive Happening where
  /-- An operation of some work was answered. -/
  | answered (x : Answered)
  /-- A message was taken off the queue. -/
  | taken (m : Message)
  /-- A message of a lane began to be handled. -/
  | begun (lane : Nat) (m : Message)
  | registered (name : String)
  | unregistered (name : String)
  | started
  | stopped

namespace Happening

def accepted? : Happening → Option Message
  | answered x => x.accepted?
  | _ => none

def taken? : Happening → Option Message
  | taken m => some m
  | _ => none

def begun? : Happening → Option (Nat × Message)
  | begun lane m => some (lane, m)
  | _ => none

/-- Whether a name stays with whoever has it. -/
def keeps (name : String) : Happening → Bool
  | registered other | unregistered other => other != name
  | _ => true

end Happening

section Lists

variable (xs ys : List Happening)

/-- The messages that were put into the queue. -/
def acceptedIn : List Message := xs.filterMap Happening.accepted?

/-- The messages that were taken off the queue. -/
def takenIn : List Message := xs.filterMap Happening.taken?

/-- The messages that began to be handled, each with its lane. -/
def begunIn : List (Nat × Message) := xs.filterMap Happening.begun?

/-- The messages that began to be handled in one lane. -/
def begunOn (lane : Nat) : List Message := ((begunIn xs).filter (·.1 == lane)).map (·.2)

@[simp] theorem acceptedIn_append : acceptedIn (xs ++ ys) = acceptedIn xs ++ acceptedIn ys :=
  List.filterMap_append

@[simp] theorem takenIn_append : takenIn (xs ++ ys) = takenIn xs ++ takenIn ys :=
  List.filterMap_append

@[simp] theorem begunIn_append : begunIn (xs ++ ys) = begunIn xs ++ begunIn ys :=
  List.filterMap_append

@[simp] theorem begunOn_append (lane : Nat) :
    begunOn (xs ++ ys) lane = begunOn xs lane ++ begunOn ys lane := by
  simp [begunOn]

end Lists

/-- Whether messages are being delivered, when it was last said whether they are. -/
def runsAfter (xs : List Happening) : Bool :=
  xs.foldl (fun running x => match x with
    | .started => true
    | .stopped => false
    | _ => running) false

/-! ## Registrations -/

/-- Whether a message goes to the agent of a name: it is addressed to it, or to everybody and sent
by another one. -/
def Message.concerns (m : Message) (name : String) : Bool :=
  match m.toAgent with
  | some target => target == name
  | none => m.fromAgent != name

/-- A registration: the name, and what happened since. -/
structure Tenure where
  name : String
  since : List Happening

namespace Tenure

variable (t : Tenure) (xs : List Happening)

/-- Whether the agent has the name still. -/
def isOpen : Bool := t.since.all (·.keeps t.name)

/-- What happened while the agent had the name. -/
def span : List Happening := t.since.takeWhile (·.keeps t.name)

/-- The messages that were taken off the queue for the agent while it had the name. -/
def due : List Message := (takenIn t.span).filter (·.concerns t.name)

/-- The same registration when more has happened. -/
def extend : Tenure := { t with since := t.since ++ xs }

@[simp] theorem name_extend : (t.extend xs).name = t.name := rfl

@[simp] theorem isOpen_extend : (t.extend xs).isOpen = (t.isOpen && xs.all (·.keeps t.name)) :=
  List.all_append

theorem span_of_isOpen (h : t.isOpen = true) : t.span = t.since :=
  List.takeWhile_eq_self_iff.mpr (List.all_eq_true.mp h)

/-- Whoever has lost the name is given no more messages. -/
theorem due_extend_of_closed (h : t.isOpen = false) : (t.extend xs).due = t.due := by
  have hspan : (t.extend xs).span = t.span := by
    unfold span
    rw [extend, List.takeWhile_append, if_neg]
    intro hlength
    have hself : t.since.takeWhile (·.keeps t.name) = t.since :=
      (List.takeWhile_prefix _).eq_of_length hlength
    rw [isOpen, List.all_eq_true.mpr (List.takeWhile_eq_self_iff.mp hself)] at h
    cases h
  rw [due, due, hspan]
  rfl

/-- While the name stays with the agent the messages that concern it are for it. -/
theorem due_extend_of_open (h : t.isOpen = true) (hkeeps : xs.all (·.keeps t.name) = true) :
    (t.extend xs).due = t.due ++ (takenIn xs).filter (·.concerns t.name) := by
  have hopen : (t.extend xs).isOpen = true := by rw [isOpen_extend, h, hkeeps]; rfl
  rw [due, due, span_of_isOpen _ h, span_of_isOpen _ hopen, extend, takenIn_append,
    List.filter_append]

theorem due_extend_of_none (h : takenIn xs = []) : (t.extend xs).due = t.due := by
  cases hopen : t.isOpen with
  | false => exact t.due_extend_of_closed xs hopen
  | true =>
    have hnone : ∀ x ∈ xs, x.taken? = none := List.filterMap_eq_nil_iff.mp h
    have hspan : takenIn (t.extend xs).span = takenIn t.span := by
      rw [span_of_isOpen t hopen, span, extend,
        List.takeWhile_append_of_pos (List.all_eq_true.mp hopen), takenIn_append]
      have hrest : takenIn (xs.takeWhile (·.keeps t.name)) = [] :=
        List.filterMap_eq_nil_iff.mpr fun x hx => hnone x (List.takeWhile_subset _ hx)
      rw [hrest, List.append_nil]
    rw [due, due, hspan]
    rfl

end Tenure

/-- The registrations of a history, in the order in which they happened. -/
def tenures : List Happening → List Tenure
  | [] => []
  | .registered name :: xs => ⟨name, xs⟩ :: tenures xs
  | _ :: xs => tenures xs

/-- The messages that were taken off the queue for a registration, given by its number. -/
def dueOn (xs : List Happening) (i : Nat) : List Message := (((tenures xs)[i]?).map (·.due)).getD []

theorem tenures_append (xs ys : List Happening) :
    tenures (xs ++ ys) = (tenures xs).map (·.extend ys) ++ tenures ys := by
  induction xs with
  | nil => rfl
  | cons x xs ih =>
    cases x with
    | registered name =>
      change Tenure.mk name (xs ++ ys) :: tenures (xs ++ ys) = _
      rw [ih]
      rfl
    | _ => exact ih

/-- What is due to a registration was taken off the queue. -/
theorem due_sublist_takenIn {xs : List Happening} {t : Tenure} (ht : t ∈ tenures xs) :
    t.due.Sublist (takenIn xs) := by
  have hsince : t.since <:+ xs := by
    induction xs with
    | nil => cases ht
    | cons x xs ih =>
      cases x with
      | registered name =>
        rcases List.mem_cons.mp ht with rfl | ht
        · exact List.suffix_cons _ _
        · exact (ih ht).trans (List.suffix_cons _ _)
      | _ => exact (ih ht).trans (List.suffix_cons _ _)
  have hspan : t.span.Sublist xs := (List.takeWhile_sublist _).trans hsince.sublist
  exact List.filter_sublist.trans (hspan.filterMap _)

theorem Tenure.due_cons (name : String) (x : Happening) (xs : List Happening) :
    (Tenure.mk name (x :: xs)).due =
      if x.keeps name = true then
        (takenIn [x]).filter (·.concerns name) ++ (Tenure.mk name xs).due
      else [] := by
  unfold Tenure.due Tenure.span
  dsimp only
  rw [List.takeWhile_cons]
  split
  · rw [← List.singleton_append, takenIn_append, List.filter_append]
  · rfl

/-- A message with an addressee is for one registration at most: that of the agent which has the
name when the message is taken off the queue. -/
theorem count_due_le {m : Message} {name : String} (hm : m.toAgent = some name)
    (xs : List Happening) :
    ((tenures xs).flatMap Tenure.due).count m + (Tenure.mk name xs).due.count m ≤
      (takenIn xs).count m := by
  have hconcerns : ∀ other, m.concerns other = (name == other) := fun other => by
    rw [Message.concerns, hm]
  induction xs with
  | nil => exact Nat.le_refl 0
  | cons x xs ih =>
    rw [Tenure.due_cons]
    cases x with
    | registered other =>
      have htenures : tenures (.registered other :: xs) = ⟨other, xs⟩ :: tenures xs := rfl
      have htaken : takenIn (.registered other :: xs) = takenIn xs := rfl
      rw [htenures, htaken, List.flatMap_cons, List.count_append]
      by_cases h : other = name
      · subst h
        simp only [Happening.keeps, bne_self_eq_false, Bool.false_eq_true, if_false, List.count_nil]
        omega
      · have hnone : (Tenure.mk other xs).due.count m = 0 := by
          refine List.count_eq_zero.mpr fun hmem => ?_
          have hother := (List.mem_filter.mp hmem).2
          rw [hconcerns] at hother
          exact h (eq_of_beq hother).symm
        have hkeeps : (Happening.registered other).keeps name = true := by
          simpa [Happening.keeps] using h
        rw [if_pos hkeeps, hnone, Nat.zero_add]
        exact ih
    | unregistered other =>
      have hsame : ((tenures xs).flatMap Tenure.due).count m ≤ (takenIn xs).count m := by omega
      split
      · exact ih
      · exact hsame
    | taken m' =>
      have htaken : takenIn (.taken m' :: xs) = [m'] ++ takenIn xs := rfl
      have hdue : ((takenIn [.taken m']).filter (·.concerns name)).count m ≤ [m'].count m :=
        List.filter_sublist.count_le m
      have hkeeps : (Happening.taken m').keeps name = true := rfl
      rw [if_pos hkeeps, htaken, List.count_append, List.count_append]
      change ((tenures xs).flatMap Tenure.due).count m + _ ≤ _
      omega
    | _ => exact ih

/-! ## Steps -/

/-- Nothing happens on the bus, and no message begins to be handled: time passes, somebody is lined up
for a turn, an agent is made, some work has come further or has ended. -/
structure World.Aside (w w' : World) : Prop where
  bus : w'.bus = w.bus
  running : w'.running = w.running
  owned : w'.owned = w.owned
  nextHandling : w'.nextHandling = w.nextHandling
  handlings : ∀ h ∈ w'.handlings, ∃ h₀ ∈ w.handlings, h.number = h₀.number ∧ h.lane = h₀.lane

/-- What an operation that was answered shows. -/
def Scene.answered (s : Scene) (o : Operation) : List Happening :=
  ((s.attempt o).2.map fun answer => .answered ⟨o, answer⟩).toList

/-- One step of a network that the user keeps. -/
inductive World.Step : World → List Happening → World → Prop
  /-- Some work asks something. -/
  | asks (s : Scene) (o : Operation) : Step s.world (s.answered o) (s.attempt o).1.world
  /-- The first message of the queue is delivered. -/
  | delivers {w : World} {m : Message} {rest : List Message} (hrunning : w.running = true)
      (hqueue : w.bus.queue = m :: rest) : Step w [.taken m] w.deliverOne
  /-- The messages of a lane begin to be handled. -/
  | opens {w : World} {i : Nat} {lane : Lane} {actor : Actor}
      (hlane : w.bus.lanes[i]? = some lane) (hactor : w.actors[lane.agent]? = some actor) :
      Step w (lane.inbox.map (.begun i)) (w.openInbox i)
  | registers {w : World} {agent : Nat} {actor : Actor} (hactor : w.actors[agent]? = some actor) :
      Step w [.registered actor.agent.name] (w.register agent)
  | unregisters (w : World) (name : String) : Step w [.unregistered name] (w.unregister name).1
  | starts (w : World) : Step w [.started] w.start
  | stops (w : World) : Step w [.stopped] w.stop
  | sweeps (w : World) : Step w [] w.sweepNow
  /-- Some work gives up its place in line. -/
  | leaves (w : World) (ticket : Nat) : Step w [] (Scene.leaveLine w ticket)
  /-- Some work ends and gives back what it had. -/
  | ends (w : World) (b : Belongings) : Step w [] (w.takeBack b)
  | aside {w w' : World} (h : Aside w w') : Step w [] w'

/-- Any number of steps. -/
inductive World.Passage (w : World) : List Happening → World → Prop
  | stay : Passage w [] w
  | step {xs ys : List Happening} {w' w'' : World} (h : Passage w xs w') (hstep : Step w' ys w'') :
      Passage w (xs ++ ys) w''

namespace World.Passage

variable {w w' w'' : World} {xs ys : List Happening}

theorem single (h : Step w xs w') : Passage w xs w' := .step .stay h

theorem trans (h : Passage w xs w') (h' : Passage w' ys w'') : Passage w (xs ++ ys) w'' := by
  induction h' with
  | stay =>
    rw [List.append_nil]
    exact h
  | step _ hstep ih =>
    rw [← List.append_assoc]
    exact .step ih hstep

end World.Passage

/-! ## What messages pass through -/

/-- What messages pass through. -/
structure Bus.Mail where
  queue : List Message
  members : List Member
  lanes : List Lane

def Bus.mail (b : Bus) : Mail := ⟨b.queue, b.members, b.lanes⟩

namespace World

variable {w : World}

theorem bus_takeBack (h : w.owned = true) (b : Belongings) : (w.takeBack b).bus = w.bus := by
  have hpermits : ∀ (ps : List HeldPermit) (w : World),
      (ps.foldl (fun w p => Scene.settleIn w p .abandoned) w).bus = w.bus ∧
      (ps.foldl (fun w p => Scene.settleIn w p .abandoned) w).owned = w.owned := by
    intro ps
    induction ps with
    | nil => exact fun w => ⟨rfl, rfl⟩
    | cons p ps ih => exact fun w => ih _
  obtain ⟨hbus, howned⟩ := hpermits b.permits w
  unfold takeBack
  rw [closeIfAbandoned_of_owned (by exact howned.trans h)]
  exact hbus

theorem mail_takeBack (h : w.owned = true) (b : Belongings) :
    (w.takeBack b).bus.mail = w.bus.mail :=
  congrArg Bus.mail (bus_takeBack h b)

theorem mail_unregister (w : World) (name : String) :
    (w.unregister name).1.bus.mail =
      { w.bus.mail with members := w.bus.members.filter (·.name != name) } := by
  unfold unregister Bus.unregister Bus.leave
  dsimp only
  cases (w.bus.member? name).isSome <;> rfl

theorem nextHandling_of_stage {w' : World} (h : w'.stage = w.stage) :
    w'.nextHandling = w.nextHandling ∧ w'.handlings = w.handlings :=
  ⟨congrArg Stage.nextHandling h, congrArg Stage.handlings h⟩

end World

namespace Scene

variable {s : Scene}

theorem bus_wakeAt (s : Scene) (time : Nat) : (s.wakeAt time).world.bus = s.world.bus := by
  unfold wakeAt
  split <;> rfl

theorem mail_wakeAt (s : Scene) (time : Nat) :
    (s.wakeAt time).world.bus.mail = s.world.bus.mail :=
  congrArg Bus.mail (s.bus_wakeAt time)

/-- Who sends is told that his message is in the queue, or else it is not there. -/
theorem send_cases (s : Scene) (m : Message) (patience : Option Nat) :
    (∃ gate, s.send m patience = (s.accept gate m, some true)) ∨
    ∃ s' told, s.send m patience = (s', told) ∧ told ≠ some true ∧
      s'.world.bus.mail = s.world.bus.mail := by
  unfold send
  split
  · split
    · exact .inl ⟨_, rfl⟩
    · split
      · exact .inr ⟨_, _, rfl, by simp, rfl⟩
      · dsimp only
        split
        · exact .inr ⟨_, _, rfl, by simp, mail_wakeAt _ _⟩
        · exact .inr ⟨_, _, rfl, by simp, rfl⟩
  · split
    · exact .inl ⟨_, rfl⟩
    · split
      · exact .inr ⟨_, _, rfl, by simp, rfl⟩
      · exact .inr ⟨_, _, rfl, by simp, rfl⟩

theorem answered_of_attempt {o : Operation} {s' : Scene} {told : Option o.Answer}
    (h : s.attempt o = (s', told)) :
    s.answered o = (told.map fun answer => .answered ⟨o, answer⟩).toList := by
  rw [answered, h]

theorem acceptedIn_answered {o : Operation} (ho : ∀ m patience, o ≠ .send m patience) :
    acceptedIn (s.answered o) = [] := by
  unfold answered
  cases (s.attempt o).2 with
  | none => rfl
  | some answer =>
    cases o with
    | send m patience => exact absurd rfl (ho m patience)
    | _ => rfl

/-- A message comes to the end of the queue when its sender is told that it was sent. -/
theorem mail_send (s : Scene) (m : Message) (patience : Option Nat) :
    (s.attempt (.send m patience)).1.world.bus.mail =
      { s.world.bus.mail with
        queue := s.world.bus.queue ++ acceptedIn (s.answered (.send m patience)) } := by
  rcases s.send_cases m patience with ⟨gate, hsend⟩ | ⟨s', told, hsend, htold, hmail⟩
  · have hattempt : s.attempt (.send m patience) = (s.accept gate m, some true) := hsend
    rw [answered_of_attempt hattempt, hattempt]
    rfl
  · have hattempt : s.attempt (.send m patience) = (s', told) := hsend
    have hnone : acceptedIn (s.answered (.send m patience)) = [] := by
      rw [answered_of_attempt hattempt]
      rcases told with _ | _ | _
      · rfl
      · rfl
      · exact absurd rfl htold
    rw [hnone, hattempt, List.append_nil]
    exact hmail

/-- Other operations leave the mail alone. -/
theorem mail_attempt_of_ne (h : s.world.owned = true) {o : Operation}
    (ho : ∀ m patience, o ≠ .send m patience) :
    (s.attempt o).1.world.bus.mail = s.world.bus.mail := by
  cases o with
  | pause ms =>
    rw [attempt, pause]
    split
    · rfl
    · exact mail_wakeAt s _
  | hold =>
    rw [attempt, hold]
    split <;> rfl
  | release =>
    have hsame : ∀ holds, ({ s.world with holds } : World).closeIfAbandoned.bus.mail =
        s.world.bus.mail := fun holds => by
      rw [World.closeIfAbandoned_of_owned (w := { s.world with holds }) h]
    exact hsame _
  | send m patience => exact absurd rfl (ho m patience)
  | collected p =>
    rw [attempt, collected]
    split
    · rfl
    · exact mail_wakeAt s _
  | reply w timeout =>
    rw [attempt, reply]
    split
    · rfl
    · exact mail_wakeAt s _
  | enter agent capability =>
    rw [attempt, enter]
    split
    · rfl
    · dsimp only
      split <;> rfl
  | _ => rfl

/-- An operation puts the message that it sends into the queue, and does nothing else to what
messages pass through. -/
theorem mail_attempt (h : s.world.owned = true) (o : Operation) :
    (s.attempt o).1.world.bus.mail =
      { s.world.bus.mail with queue := s.world.bus.queue ++ acceptedIn (s.answered o) } := by
  by_cases ho : ∃ m patience, o = .send m patience
  · obtain ⟨m, patience, rfl⟩ := ho
    exact s.mail_send m patience
  · have ho : ∀ m patience, o ≠ .send m patience := fun m patience heq => ho ⟨m, patience, heq⟩
    rw [mail_attempt_of_ne h ho, acceptedIn_answered ho, List.append_nil]
    rfl

end Scene

end Switchboard
