import Switchboard.Proofs.Bus.Arrivals
import Switchboard.Proofs.Collect.Answers

/-!
# Whose replies the steps of a network bring

All work of a network has its replies collected in one table. Whoever starts a collection engages the
table for one request id; from then on the replies to this id are put into his collection until it has
its answer.

* `Engagement`, `engagements` : the collections that were started in a history, each with what happened
  since; `Engagement.replies` : the replies to its id that were taken off the queue;
* `World.Files` : what a step does to the table; `World.Step.files` : that is all it can do;
* `Engagement.Accounted` : how a collection stands and what was told of it; `World.Ledger` : all
  collections of a network are accounted for, after every step;
* `World.Passage.made_of_replies` : the answer that is told is made of the replies to its id;
* `World.Ledger.keeps_others` : to start a collection leaves those of other ids alone.
-/

namespace Switchboard

/-! ## Engagements -/

namespace Happening

def answered? : Happening → Option Answered
  | answered x => some x
  | _ => none

/-- What whoever started a collection was given. -/
def pending? : Happening → Option Pending
  | answered ⟨.collect .., p⟩ => some p
  | _ => none

end Happening

/-- The exchanges of all work. -/
def answeredIn (xs : List Happening) : List Answered := xs.filterMap Happening.answered?

@[simp] theorem answeredIn_append (xs ys : List Happening) :
    answeredIn (xs ++ ys) = answeredIn xs ++ answeredIn ys :=
  List.filterMap_append

theorem mem_answeredIn {xs : List Happening} {x : Answered} :
    x ∈ answeredIn xs ↔ .answered x ∈ xs := by
  refine List.mem_filterMap.trans ⟨?_, fun h => ⟨_, h, rfl⟩⟩
  rintro ⟨y, hy, hanswered⟩
  cases y with
  | answered y =>
    obtain rfl := Option.some.inj hanswered
    exact hy
  | _ => cases hanswered

namespace Message

/-- Whether a message is a reply to a request id. -/
def repliesTo (m : Message) (requestId : String) : Bool :=
  m.kind.isReply && m.requestId == requestId

/-- What a collection is given of a message. -/
def asReply (m : Message) : Reply := ⟨m.fromAgent, m.content, decide (m.kind = .error)⟩

/-- What the delivery of a message tells the table. -/
def signal (m : Message) : CollectorSignal :=
  if m.kind.isReply then .reply m.requestId m.asReply else .nothing

end Message

/-- A collection that was started, and what happened since. -/
structure Engagement where
  pending : Pending
  since : List Happening

namespace Engagement

variable (e : Engagement)

/-- The replies to its request id that were taken off the queue since. -/
def replies : List Message := (takenIn e.since).filter (·.repliesTo e.pending.requestId)

/-- Who waited for the answer was told it. -/
def Told (a : Collected) : Prop := .answered ⟨.collected e.pending, a⟩ ∈ e.since

/-- The same collection when more has happened. -/
def extend (xs : List Happening) : Engagement := { e with since := e.since ++ xs }

@[simp] theorem pending_extend (xs : List Happening) : (e.extend xs).pending = e.pending := rfl

theorem replies_extend (xs : List Happening) :
    (e.extend xs).replies =
      e.replies ++ (takenIn xs).filter (·.repliesTo e.pending.requestId) := by
  simp [replies, extend]

theorem told_extend {xs : List Happening} {a : Collected} :
    (e.extend xs).Told a ↔ e.Told a ∨ .answered ⟨.collected e.pending, a⟩ ∈ xs :=
  List.mem_append

end Engagement

/-- The collections that were started in a history. -/
def engagements : List Happening → List Engagement
  | [] => []
  | x :: xs => (x.pending?.map fun p => ⟨p, xs⟩).toList ++ engagements xs

theorem engagements_append (xs ys : List Happening) :
    engagements (xs ++ ys) = (engagements xs).map (·.extend ys) ++ engagements ys := by
  induction xs with
  | nil => rfl
  | cons x xs ih =>
    rw [List.cons_append, engagements, engagements, ih, List.map_append, List.append_assoc]
    cases x.pending? <;> rfl

theorem suffix_of_mem_engagements {xs : List Happening} {e : Engagement} (he : e ∈ engagements xs) :
    e.since <:+ xs := by
  induction xs with
  | nil => cases he
  | cons x xs ih =>
    rcases List.mem_append.mp he with hfirst | hlater
    · obtain ⟨p, -, rfl⟩ := Option.map_eq_some_iff.mp (Option.mem_toList.mp hfirst)
      exact List.suffix_cons _ _
    · exact (ih hlater).trans (List.suffix_cons _ _)

theorem replies_sublist {xs : List Happening} {e : Engagement} (he : e ∈ engagements xs) :
    e.replies.Sublist (takenIn xs) :=
  List.filter_sublist.trans ((suffix_of_mem_engagements he).sublist.filterMap _)

/-- Who was given a collection and later its answer was told so since. -/
theorem exists_engagement {xs : List Happening} {x : Answered} {p : Pending} {a : Collected}
    (hx : (Happening.answered x).pending? = some p)
    (h : [x, ⟨.collected p, a⟩].Sublist (answeredIn xs)) :
    ∃ e ∈ engagements xs, e.pending = p ∧ e.Told a := by
  induction xs with
  | nil => cases h
  | cons y xs ih =>
    have hlater : (∃ e ∈ engagements xs, e.pending = p ∧ e.Told a) →
        ∃ e ∈ engagements (y :: xs), e.pending = p ∧ e.Told a := by
      rintro ⟨e, he, hpending⟩
      exact ⟨e, List.mem_append_right _ he, hpending⟩
    cases y with
    | answered y =>
      rcases List.sublist_cons_iff.mp h with hrest | ⟨r, hr, hrest⟩
      · exact hlater (ih hrest)
      · obtain ⟨rfl, rfl⟩ := List.cons.inj hr
        have htold : .answered ⟨.collected p, a⟩ ∈ xs :=
          mem_answeredIn.mp (List.singleton_sublist.mp hrest)
        refine ⟨⟨p, xs⟩, ?_, rfl, htold⟩
        rw [engagements, hx]
        exact List.mem_cons_self
    | _ => exact hlater (ih h)

theorem engagements_eq_nil {xs : List Happening} (h : ∀ x ∈ xs, x.pending? = none) :
    engagements xs = [] := by
  induction xs with
  | nil => rfl
  | cons x xs ih =>
    obtain ⟨hx, hxs⟩ := List.forall_mem_cons.mp h
    rw [engagements, hx, ih hxs]
    rfl

/-! ## What steps do to the table -/

/-- What a step does to the table of collections: a message is delivered, a collection is started, or
collections are answered with what they have. -/
inductive World.Files (w : World) : List Happening → World → Prop
  | delivers {w' : World} (m : Message)
      (hcollector : w'.bus.collector = w.bus.collector.hear w.now m.signal) : Files w [.taken m] w'
  | registers {w' : World} (q : Query) (timeout : Option Nat)
      (hcollector : w'.bus.collector = (w.bus.collector.enlist w.now q).1) :
      Files w [.answered ⟨.collect q.requestId q.capability q.expected q.strategy timeout,
        (w.bus.collector.enlist w.now q).2⟩] w'
  | hears {w' : World} {ys : List Happening} (sig : CollectorSignal)
      (hcollector : w'.bus.collector = w.bus.collector.hear w.now sig)
      (hsig : ∀ requestId r, sig ≠ .reply requestId r) (htaken : takenIn ys = [])
      (hnone : ∀ x ∈ ys, x.pending? = none)
      (htold : ∀ p a, .answered ⟨.collected p, a⟩ ∈ ys →
        w.bus.collector.wait w.now p = some (w'.bus.collector, a)) : Files w ys w'

/-- Waiting for a collection ends it at most. -/
theorem Collector.exists_hear_of_wait {c c' : Collector} {now : Nat} {p : Pending} {a : Collected}
    (h : c.wait now p = some (c', a)) :
    ∃ sig : CollectorSignal, (∀ requestId r, sig ≠ .reply requestId r) ∧ c' = c.hear now sig := by
  unfold wait at h
  split at h
  · cases h
    exact ⟨.nothing, by simp, rfl⟩
  · split at h
    · cases h
      exact ⟨.nothing, by simp, rfl⟩
    · split at h
      · cases h
        exact ⟨.close p.requestId, by simp, rfl⟩
      · cases h

namespace Scene

variable {s : Scene}

theorem collector_wakeAt (s : Scene) (time : Nat) :
    (s.wakeAt time).world.bus.collector = s.world.bus.collector :=
  congrArg Bus.collector (s.bus_wakeAt time)

theorem collector_send (s : Scene) (m : Message) (patience : Option Nat) :
    (s.send m patience).1.world.bus.collector = s.world.bus.collector := by
  unfold send
  split
  · split
    · rfl
    · split
      · rfl
      · dsimp only
        split
        · exact collector_wakeAt _ _
        · rfl
  · split
    · rfl
    · split <;> rfl

/-- Most operations have nothing to do with the table. -/
theorem collector_attempt (h : s.world.owned = true) {o : Operation}
    (hcollect : ∀ requestId capability expected strategy timeout,
      o ≠ .collect requestId capability expected strategy timeout)
    (hcollected : ∀ p, o ≠ .collected p) :
    (s.attempt o).1.world.bus.collector = s.world.bus.collector := by
  cases o with
  | pause ms =>
    rw [attempt, pause]
    split
    · rfl
    · exact collector_wakeAt s _
  | hold =>
    rw [attempt, hold]
    split <;> rfl
  | release =>
    have hsame : ∀ holds, ({ s.world with holds } : World).closeIfAbandoned.bus.collector =
        s.world.bus.collector := fun holds => by
      rw [World.closeIfAbandoned_of_owned (w := { s.world with holds }) h]
    exact hsame _
  | send m patience => exact s.collector_send m patience
  | collect requestId capability expected strategy timeout =>
    exact absurd rfl (hcollect requestId capability expected strategy timeout)
  | collected p => exact absurd rfl (hcollected p)
  | reply w timeout =>
    rw [attempt, reply]
    split
    · rfl
    · exact collector_wakeAt s _
  | enter agent capability =>
    rw [attempt, enter]
    split
    · rfl
    · dsimp only
      split <;> rfl
  | _ => rfl

theorem takenIn_answered (s : Scene) (o : Operation) : takenIn (s.answered o) = [] := by
  unfold answered
  cases (s.attempt o).2 <;> rfl

/-- Such an operation leaves the table alone. -/
theorem files_other (h : s.world.owned = true) {o : Operation}
    (hcollect : ∀ requestId capability expected strategy timeout,
      o ≠ .collect requestId capability expected strategy timeout)
    (hcollected : ∀ p, o ≠ .collected p) :
    s.world.Files (s.answered o) (s.attempt o).1.world := by
  refine .hears .nothing (collector_attempt h hcollect hcollected) (by simp)
    (s.takenIn_answered o) (fun x hx => ?_) fun p a hmem => ?_
  · obtain ⟨answer, -, rfl⟩ : ∃ answer, (s.attempt o).2 = some answer ∧
        .answered ⟨o, answer⟩ = x := by simpa [answered] using hx
    cases o with
    | collect requestId capability expected strategy timeout =>
      exact absurd rfl (hcollect requestId capability expected strategy timeout)
    | _ => rfl
  · obtain ⟨answer, -, heq⟩ : ∃ answer, (s.attempt o).2 = some answer ∧
        (.answered ⟨o, answer⟩ : Happening) = .answered ⟨.collected p, a⟩ := by
      simpa [answered] using hmem
    cases heq
    exact absurd rfl (hcollected p)

/-- Who waits for a collection ends it at most, and has its answer if it need not wait any longer. -/
theorem files_collected (s : Scene) (p : Pending) :
    s.world.Files (s.answered (.collected p)) (s.attempt (.collected p)).1.world := by
  have hattempt : s.attempt (.collected p) = s.collected p := rfl
  unfold collected at hattempt
  split at hattempt
  · rename_i collector answer hwait
    rw [answered_of_attempt hattempt, hattempt]
    obtain ⟨sig, hsig, hcollector⟩ := Collector.exists_hear_of_wait hwait
    refine .hears sig hcollector hsig rfl (fun x hx => ?_) fun p' a hmem => ?_
    · obtain rfl := List.mem_singleton.mp hx
      rfl
    · cases List.mem_singleton.mp hmem
      exact hwait
  · rw [answered_of_attempt hattempt, hattempt]
    exact .hears .nothing (collector_wakeAt s _) (by simp) rfl (fun x hx => by cases hx)
      fun p' a hmem => by cases hmem

/-- An operation starts a collection, waits for one, or has nothing to do with the table. -/
theorem files_attempt (h : s.world.owned = true) (o : Operation) :
    s.world.Files (s.answered o) (s.attempt o).1.world := by
  cases o with
  | collect requestId capability expected strategy timeout =>
    exact .registers ⟨requestId, capability, expected, strategy,
      timeout.getD s.world.settings.aggregator.defaultTimeoutMs.toNat⟩ timeout rfl
  | collected p => exact s.files_collected p
  | _ => exact files_other h (by simp) (by simp)

end Scene

namespace World

variable {w w' : World} {xs ys : List Happening}

theorem collector_deliverOne {m : Message} {rest : List Message} (h : w.bus.queue = m :: rest) :
    w.deliverOne.bus.collector = w.bus.collector.hear w.now m.signal := by
  rw [w.deliverOne_eq h]
  change (Bus.deliver _ m).1.collector = _
  rw [Bus.deliver_eq]
  unfold Message.signal
  cases m.kind.isReply <;> rfl

/-- What a step does in which nothing is told of the table. -/
theorem Files.quiet (sig : CollectorSignal)
    (hcollector : w'.bus.collector = w.bus.collector.hear w.now sig)
    (hsig : ∀ requestId r, sig ≠ .reply requestId r)
    (hys : ∀ x ∈ ys, x.answered? = none ∧ x.taken? = none) : w.Files ys w' := by
  refine .hears sig hcollector hsig (List.filterMap_eq_nil_iff.mpr fun x hx => (hys x hx).2)
    (fun x hx => ?_) fun p a hmem => ?_
  · have hnone := (hys x hx).1
    cases x with
    | answered x => cases hnone
    | _ => rfl
  · cases (hys _ hmem).1

/-- Nothing else can happen to the table. -/
theorem Step.files (hstep : Step w ys w') (h : w.owned = true) : w.Files ys w' := by
  cases hstep with
  | asks s o => exact Scene.files_attempt h o
  | delivers hrunning hqueue => exact .delivers _ (collector_deliverOne hqueue)
  | @opens w i lane actor hlane hactor =>
    refine .quiet .nothing ?_ (by simp) fun x hx => ?_
    · unfold openInbox
      rw [hlane]
      dsimp only
      rw [hactor]
      rfl
    · obtain ⟨m, -, rfl⟩ := List.mem_map.mp hx
      exact ⟨rfl, rfl⟩
  | @registers w agent actor hactor =>
    refine .quiet .nothing ?_ (by simp) (by simp [Happening.answered?, Happening.taken?])
    unfold register
    rw [hactor]
    rfl
  | unregisters w name =>
    refine .quiet .nothing ?_ (by simp) (by simp [Happening.answered?, Happening.taken?])
    unfold unregister Bus.unregister Bus.leave
    dsimp only
    cases (w.bus.member? name).isSome <;> rfl
  | starts w =>
    refine .quiet .nothing ?_ (by simp) (by simp [Happening.answered?, Happening.taken?])
    unfold start
    split <;> rfl
  | stops w =>
    exact .quiet .nothing rfl (by simp) (by simp [Happening.answered?, Happening.taken?])
  | sweeps w =>
    unfold sweepNow
    split
    · exact .quiet .sweep rfl (by simp) (by simp)
    · exact .quiet .nothing rfl (by simp) (by simp)
  | leaves w ticket => exact .quiet .nothing rfl (by simp) (by simp)
  | ends w b =>
    exact .quiet .nothing (congrArg Bus.collector (bus_takeBack h b)) (by simp) (by simp)
  | aside hstep => exact .quiet .nothing (congrArg Bus.collector hstep.bus) (by simp) (by simp)

end World

/-! ## What becomes of collections -/

/-- A collection is answered with replies to its id, in the order in which they came, or it has been
given all there were so far; whoever was told its answer was told how it stands. -/
structure Engagement.Accounted (e : Engagement) (st : Standing) : Prop where
  made : ∃ start ms, (⟨e.pending.handle, start⟩ : Registration).pending = e.pending ∧
    ms <+: e.replies ∧ (∀ col, st = .collecting col → ms = e.replies) ∧
    Standing.After start (ms.map Message.asReply) st
  told : ∀ a, e.Told a → st = .answered a

namespace Engagement.Accounted

variable {e : Engagement} {st : Standing} {ys : List Happening} (now : Nat)

/-- The answer of a collection is made of replies to its id. -/
theorem exists_conclude (h : e.Accounted st) {a : Collected} (ha : e.Told a) :
    ∃ start ms timedOut, (⟨e.pending.handle, start⟩ : Registration).pending = e.pending ∧
      ms <+: e.replies ∧ a = (start.receiveAll (ms.map Message.asReply)).conclude timedOut := by
  obtain ⟨start, ms, hpending, hfirst, -, hafter⟩ := h.made
  rw [h.told a ha] at hafter
  obtain ⟨timedOut, hmade⟩ := hafter.exists_conclude
  exact ⟨start, ms, timedOut, hpending, hfirst, hmade⟩

/-- A collection that waits does so for its id. -/
theorem requestId_eq (h : e.Accounted st) {col : Collection} (hst : st = .collecting col) :
    col.requestId = e.pending.requestId := by
  obtain ⟨start, ms, hpending, -, -, hafter⟩ := h.made
  rw [hst] at hafter
  rw [hafter.eq_of_collecting, Collection.requestId_receiveAll]
  exact congrArg Pending.requestId hpending

theorem start (q : Query) (c : Collector) :
    (⟨(c.enlist now q).2, []⟩ : Engagement).Accounted (q.standing now) where
  made := ⟨q.start now, [], rfl, List.nil_prefix, fun _ _ => rfl, q.standing_after now⟩
  told := fun a ha => by cases ha

/-- What is no reply gives a collection nothing; it may be its end. -/
theorem hear (h : e.Accounted st) {sig : CollectorSignal}
    (hsig : ∀ requestId r, sig ≠ .reply requestId r) (htaken : takenIn ys = [])
    (htold : ∀ a, .answered ⟨.collected e.pending, a⟩ ∈ ys → st.hear now sig = .answered a) :
    (e.extend ys).Accounted (st.hear now sig) where
  made := by
    obtain ⟨start, ms, hpending, hfirst, hall, hafter⟩ := h.made
    have hreplies : (e.extend ys).replies = e.replies := by
      rw [e.replies_extend, htaken, List.filter_nil, List.append_nil]
    rw [hreplies]
    refine ⟨start, ms, hpending, hfirst, fun col hst => ?_, hafter.hear now hsig⟩
    obtain ⟨col', hbefore, -⟩ := Standing.hear_eq_collecting hst
    exact hall col' hbefore
  told := fun a ha => by
    rcases e.told_extend.mp ha with hold | hnew
    · rw [h.told a hold, Standing.hear_answered]
    · exact htold a hnew

/-- A message is given to the collection of its id as long as that waits. -/
theorem deliver (h : e.Accounted st) (m : Message) :
    (e.extend [.taken m]).Accounted (st.hear now m.signal) where
  made := by
    obtain ⟨start, ms, hpending, hfirst, hall, hafter⟩ := h.made
    have hid : start.requestId = e.pending.requestId := congrArg Pending.requestId hpending
    have hreplies : (e.extend [.taken m]).replies =
        e.replies ++ if m.repliesTo e.pending.requestId then [m] else [] := by
      rw [e.replies_extend]
      change _ ++ [m].filter _ = _
      rw [List.filter_singleton]
      cases m.repliesTo e.pending.requestId <;> rfl
    rw [hreplies]
    by_cases hown : m.repliesTo e.pending.requestId = true ∧ ∃ col, st = .collecting col
    · obtain ⟨hmine, col, rfl⟩ := hown
      obtain ⟨hkind, hmid⟩ : m.kind.isReply = true ∧ m.requestId = start.requestId := by
        rw [hid]
        simpa [Message.repliesTo] using hmine
      obtain rfl := hall col rfl
      rw [if_pos hmine]
      refine ⟨start, e.replies ++ [m], hpending, List.prefix_refl _, fun _ _ => rfl, ?_⟩
      rw [Message.signal, if_pos hkind, hmid, List.map_append]
      exact hafter.receive m.asReply
    · refine ⟨start, ms, hpending, hfirst.trans (List.prefix_append _ _), fun col hst => ?_, ?_⟩
      · obtain ⟨col', hbefore, -⟩ := Standing.hear_eq_collecting hst
        have hother : ¬ m.repliesTo e.pending.requestId = true :=
          fun hmine => hown ⟨hmine, col', hbefore⟩
        rw [if_neg hother, List.append_nil]
        exact hall col' hbefore
      · unfold Message.signal
        split
        · rename_i hkind
          refine hafter.receive_other m.asReply ?_
          by_cases hmid : m.requestId = start.requestId
          · refine .inr fun col hst => hown ⟨?_, col, hst⟩
            rw [← hid, ← hmid]
            simp [Message.repliesTo, hkind]
          · exact .inl hmid
        · exact hafter.hear now (by simp)
  told := fun a ha => by
    rcases e.told_extend.mp ha with hold | hnew
    · rw [h.told a hold, Standing.hear_answered]
    · cases List.mem_singleton.mp hnew

end Engagement.Accounted

namespace World

variable {w w' : World} {xs ys : List Happening}

/-- All collections of a network are accounted for. -/
structure Ledger (xs : List Happening) (w : World) : Prop where
  sound : w.bus.collector.Sound
  accounted : ∀ e ∈ engagements xs,
    e.Accounted (w.bus.collector.standing e.pending.handle)

namespace Ledger

theorem opened (settings : Settings) : Ledger [] (opened settings) :=
  ⟨Collector.sound_empty, fun e he => by cases he⟩

theorem lt_next (h : w.Ledger xs) {e : Engagement} (he : e ∈ engagements xs) :
    e.pending.handle < w.bus.collector.next := by
  obtain ⟨start, ms, -, -, -, hafter⟩ := (h.accounted e he).made
  refine (Collector.standing_ne_unknown_iff h.sound).mp fun hunknown => ?_
  rw [hunknown] at hafter
  cases hafter

/-- Who waits for a collection that was started is told how it stands. -/
theorem standing_of_wait (h : w.Ledger xs) {e : Engagement} (he : e ∈ engagements xs)
    {c : Collector} {a : Collected}
    (hwait : w.bus.collector.wait w.now e.pending = some (c, a)) :
    c.standing e.pending.handle = .answered a := by
  cases hs : w.bus.collector.standing e.pending.handle with
  | unknown => exact absurd hs ((Collector.standing_ne_unknown_iff h.sound).mpr (h.lt_next he))
  | answered a' =>
    rw [Collector.wait_of_answered h.sound hs] at hwait
    cases hwait
    exact hs
  | collecting col =>
    rw [Collector.wait_of_collecting h.sound hs] at hwait
    split at hwait
    · cases hwait
      exact Collector.standing_finish h.sound (h.lt_next he) fun col hs =>
        (h.accounted e he).requestId_eq hs
    · cases hwait

theorem files (h : w.Ledger xs) (hfiles : w.Files ys w') : w'.Ledger (xs ++ ys) := by
  cases hfiles with
  | delivers m hcollector =>
    refine ⟨hcollector ▸ h.sound.hear w.now _, fun e he => ?_⟩
    rw [engagements_append] at he
    obtain ⟨e₀, he₀, rfl⟩ : ∃ e₀ ∈ engagements xs, e₀.extend [.taken m] = e := by
      simpa [engagements, Happening.pending?] using he
    rw [hcollector, Collector.standing_hear h.sound]
    exact (h.accounted e₀ he₀).deliver w.now m
  | registers q timeout hcollector =>
    refine ⟨hcollector ▸ h.sound.enlist w.now q, fun e he => ?_⟩
    rw [engagements_append] at he
    rw [hcollector, Collector.standing_enlist h.sound]
    rcases List.mem_append.mp he with hold | hnew
    · obtain ⟨e₀, he₀, rfl⟩ := List.mem_map.mp hold
      have hclose : ∀ requestId r, CollectorSignal.close q.requestId ≠ .reply requestId r := by simp
      rw [Engagement.pending_extend, if_neg (Nat.ne_of_lt (h.lt_next he₀))]
      exact (h.accounted e₀ he₀).hear w.now hclose rfl fun a ha => by
        cases List.mem_singleton.mp ha
    · obtain rfl : e = ⟨(w.bus.collector.enlist w.now q).2, []⟩ := by
        simpa [engagements, Happening.pending?] using hnew
      have hhandle : (w.bus.collector.enlist w.now q).2.handle = w.bus.collector.next := rfl
      rw [hhandle, if_pos rfl]
      exact .start w.now q _
  | hears sig hcollector hsig htaken hnone htold =>
    refine ⟨hcollector ▸ h.sound.hear w.now sig, fun e he => ?_⟩
    rw [engagements_append, engagements_eq_nil hnone, List.append_nil] at he
    obtain ⟨e₀, he₀, rfl⟩ := List.mem_map.mp he
    have hstanding : w'.bus.collector.standing e₀.pending.handle =
        (w.bus.collector.standing e₀.pending.handle).hear w.now sig := by
      rw [hcollector, Collector.standing_hear h.sound]
    rw [Engagement.pending_extend, hstanding]
    refine (h.accounted e₀ he₀).hear w.now hsig htaken fun a ha => ?_
    rw [← hstanding]
    exact h.standing_of_wait he₀ (htold _ a ha)

/-- To start a collection leaves those of other ids alone. -/
theorem keeps_others (h : w.Ledger xs) (howned : w.owned = true)
    {requestId capability : String} {expected : List String} {strategy : Strategy}
    {timeout : Option Nat} {p : Pending}
    (hstep : Step w [.answered ⟨.collect requestId capability expected strategy timeout, p⟩] w')
    {k : Nat} {col : Collection} (hs : w.bus.collector.standing k = .collecting col)
    (hid : col.requestId ≠ requestId) : w'.bus.collector.standing k = .collecting col := by
  have hfiles := hstep.files howned
  generalize hys : [Happening.answered
    ⟨.collect requestId capability expected strategy timeout, p⟩] = ys at hfiles
  cases hfiles with
  | delivers m hcollector => cases hys
  | registers q timeout hcollector =>
    cases hys
    have hk : k < w.bus.collector.next := (Collector.standing_ne_unknown_iff h.sound).mp (by simp [hs])
    have hother : (col.requestId == q.requestId) = false := beq_eq_false_iff_ne.mpr hid
    rw [hcollector, Collector.standing_enlist h.sound, if_neg (Nat.ne_of_lt hk), hs,
      Standing.answerWhere, hother]
    rfl
  | hears sig hcollector hsig htaken hnone htold =>
    cases hnone _ (hys ▸ List.mem_singleton_self _)

end Ledger

/-- After all steps of a network its collections are accounted for. -/
theorem Passage.ledger {settings : Settings} (h : (World.opened settings).Passage xs w) :
    w.Ledger xs := by
  induction h with
  | stay => exact .opened settings
  | step h hstep ih => exact ih.files (hstep.files (h.tally (.opened settings)).owned)

/-- Who starts a collection is given one for his id. -/
theorem Passage.requestId_pending {settings : Settings} (h : (World.opened settings).Passage xs w)
    {requestId capability : String} {expected : List String} {strategy : Strategy}
    {timeout : Option Nat} {p : Pending}
    (hx : ⟨.collect requestId capability expected strategy timeout, p⟩ ∈ answeredIn xs) :
    p.requestId = requestId := by
  induction h with
  | stay => cases hx
  | @step xs ys w' w'' h hstep ih =>
    rw [answeredIn_append] at hx
    rcases List.mem_append.mp hx with hold | hnew
    · exact ih hold
    · have hfiles := hstep.files (h.tally (.opened settings)).owned
      cases hfiles with
      | delivers m hcollector => cases hnew
      | registers q timeout hcollector =>
        cases List.mem_singleton.mp hnew
        rfl
      | hears sig hcollector hsig htaken hnone htold =>
        cases hnone _ (mem_answeredIn.mp hnew)

/-- The answer that is told of a collection is made of the replies to its id. -/
theorem Passage.made_of_replies {settings : Settings} (h : (World.opened settings).Passage xs w)
    {e : Engagement} (he : e ∈ engagements xs) {a : Collected} (ha : e.Told a) :
    ∃ start ms timedOut, (⟨e.pending.handle, start⟩ : Registration).pending = e.pending ∧
      ms <+: e.replies ∧ a = (start.receiveAll (ms.map Message.asReply)).conclude timedOut :=
  (h.ledger.accounted e he).exists_conclude ha

end World

end Switchboard
