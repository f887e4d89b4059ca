import Switchboard.Proofs.Timetable.Rosters
import Switchboard.Proofs.World.Notices

/-!
# The steps of a wave have their turn

A step of the roster registers its collection, sends its request as soon as there is a place in the
queue, and then waits. Whatever it does, the other steps do not notice.

* `Roster.Covers.update` : one step of the wave goes on while the roster covers all that is under way;
* `Roster.Covers.leaves_run`, `leaves_send`, `leaves_await` : a step that begins, that comes to its
  request, that waits for its collection;
* `Roster.Covers.advance`, `Roster.Covers.advanceAll` : a turn of a step, and of all steps of the wave.
-/

namespace Switchboard

theorem mem_middle {α : Type} {before after : List α} {a b : α} :
    b ∈ before ++ a :: after ↔ b = a ∨ b ∈ before ++ after := by
  simp only [List.mem_append, List.mem_cons]
  exact or_left_comm

namespace Scene

variable {s : Scene}

theorem wakeAt_of_some {alarm : Alarm} (h : s.parking.alarm = some alarm) (time : Nat) :
    s.wakeAt time = s := by
  unfold wakeAt
  rw [h]

theorem wakeAt_of_none (h : s.parking.alarm = none) (time : Nat) :
    s.wakeAt time =
      { s with
        parking := ⟨some ⟨time, s.world.nextAlarm⟩, s.parking.ticket⟩
        world := { s.world with nextAlarm := s.world.nextAlarm + 1 } } := by
  unfold wakeAt
  rw [h]

end Scene

namespace Assignment

variable {x : Assignment} {w w' : World}

/-- What is under way stays so while messages are added, if the handling that serves the step does not
lose it. -/
theorem Underway.carry (h : x.Underway w) (hnow : w'.now = w.now)
    (hqueue : w.bus.queue ⊆ w'.bus.queue) (hlanes : w'.bus.lanes = w.bus.lanes)
    (hserving : ∀ h₁ ∈ w.handlings, x.Serving w.now h₁.thread → x.Underway w') :
    x.Underway w' := by
  cases h with
  | asking h hm => exact .asking (hnow ▸ h) (hqueue hm)
  | mailed h hlane hm => exact .mailed (hnow ▸ h) (hlanes ▸ hlane) hm
  | serving h hh => exact hserving _ hh h
  | answering h hm => exact .answering (hnow ▸ h) (hqueue hm)

/-- What is under way stays so while only messages are added. -/
theorem Underway.grow (h : x.Underway w) (hnow : w'.now = w.now)
    (hqueue : w.bus.queue ⊆ w'.bus.queue) (hlanes : w'.bus.lanes = w.bus.lanes)
    (hhandlings : w'.handlings = w.handlings) : x.Underway w' :=
  h.carry hnow hqueue hlanes fun _ hh hserving => .serving (hnow ▸ hserving) (hhandlings ▸ hh)

end Assignment

namespace Roster

variable {r : Roster} {n : Nat} {w w' : World} {before after : List (Assignment × Branch)}
  {x : Assignment} {b b' : Branch}

/-- A step whose messages are its requests has no more requests than before if it has sent no more
than it still had to send. -/
theorem requests_update (hnow : w'.now = w.now) (hhandlings : w'.handlings = w.handlings)
    (hlanes : w'.bus.lanes = w.bus.lanes) {more : List Message}
    (hqueue : w'.bus.queue = w.bus.queue ++ more) (hmore : ∀ m ∈ more, x.Asks w.now m)
    (honce : more.length + b'.unsent ≤ b.unsent) (y : Assignment) :
    y.requests w' (before ++ (x, b') :: after) ≤ y.requests w (before ++ (x, b) :: after) := by
  have hmine : (more.map y.asked).sum +
      (if x.call.requestId = y.call.requestId then b'.unsent else 0) ≤
        if x.call.requestId = y.call.requestId then b.unsent else 0 := by
    split
    · have hsum := y.sum_asked_le more
      omega
    · rename_i hid
      have hsum := y.sum_asked_eq_zero fun m hm =>
        Assignment.asked_of_id_ne (id_of_requests (hmore m hm).1 ▸ hid)
      omega
  unfold Assignment.requests
  rw [hqueue, hlanes, hhandlings, hnow]
  simp only [List.map_append, List.map_cons, List.sum_append, List.sum_cons]
  omega

/-- One step of the wave goes on: it may send its request and change the collections, as long as the
other steps do not notice. -/
theorem Covers.update (h : r.Covers n w (before ++ (x, b) :: after))
    (hgrounds : w'.grounds = w.grounds) (hstage : w'.stage = w.stage)
    (hbreaker : w'.breaker = w.breaker) (hlanes : w'.bus.lanes = w.bus.lanes) {more : List Message}
    (hqueue : w'.bus.queue = w.bus.queue ++ more) (hmore : ∀ m ∈ more, x.Asks w.now m)
    (honce : more.length + b'.unsent ≤ b.unsent)
    (htable : w'.bus.collector.Sound)
    (hothers : ∀ y ∈ r.steps, y ≠ x → ∀ {u : Prop} {c : Branch},
      y.At w.now w.bus.collector u c → y.At w.now w'.bus.collector u c)
    (hx : x.At w'.now w'.bus.collector (x.Underway w') b')
    (hplaces : w'.bus.gate.Accounts w'.bus.queue.length r.places
      (tickets w.handlings (before ++ (x, b') :: after)))
    (hsent : b.Unsent → (∃ m ∈ w'.bus.queue, x.Requests m) ∨ b'.Unsent)
    (hload : w'.load + b'.load ≤ w.load + b.load) :
    r.Covers n w' (before ++ (x, b') :: after) := by
  have hnow : w'.now = w.now := congrArg World.Stage.now hstage
  have hhandlings : w'.handlings = w.handlings := congrArg World.Stage.handlings hstage
  have hnext : w'.nextHandling = w.nextHandling := congrArg World.Stage.nextHandling hstage
  have hsub : w.bus.queue ⊆ w'.bus.queue := hqueue ▸ List.subset_append_left _ _
  have hxsteps : x ∈ r.steps := (h.steps _ (mem_middle.mpr (.inl rfl))).1
  have hother : x ∉ (before ++ after).map (·.1) := by
    have hd := h.distinct
    rw [List.map_append, List.map_cons, List.nodup_middle] at hd
    rw [List.map_append]
    exact (List.nodup_cons.mp hd).1
  refine
    { grounds := hgrounds.trans h.grounds
      queue := fun m hm => ?_
      inbox := by
        rw [hlanes, hnow]
        exact h.inbox
      handlings := by
        rw [hhandlings, hnow]
        exact h.handlings
      numbers := by
        rw [hhandlings, hnext]
        exact h.numbers
      distinct := by simpa using h.distinct
      steps := fun p hp => ?_
      table := htable
      places := hhandlings ▸ hplaces
      seen := fun y hy => ?_
      guards := h.guards.mono hbreaker
        (fun y _ => requests_update hnow hhandlings hlanes hqueue hmore honce y)
        fun y _ h₁ hh hs => ⟨hhandlings ▸ hh, hnow ▸ hs⟩
      load := ?_ }
  · rw [hnow]
    rw [hqueue] at hm
    rcases List.mem_append.mp hm with hm | hm
    · exact h.queue m hm
    · exact ⟨x, hxsteps, .inl (hmore m hm)⟩
  · rcases mem_middle.mp hp with rfl | hp
    · exact ⟨hxsteps, hx⟩
    · obtain ⟨hsteps, hat⟩ := h.steps p (mem_middle.mpr (.inr hp))
      have hne : p.1 ≠ x := fun heq => hother (List.mem_map.mpr ⟨p, hp, heq⟩)
      refine ⟨hsteps, ?_⟩
      rw [hnow]
      exact (hothers p.1 hsteps hne hat).imp fun hu =>
        hu.grow hnow hsub hlanes hhandlings
  · rcases h.seen y hy with hseen | ⟨m, hm, hrequests⟩ | ⟨c, hc, hunsent⟩
    · exact .inl hseen
    · exact .inr (.inl ⟨m, hsub hm, hrequests⟩)
    · rcases mem_middle.mp hc with heq | hc
      · obtain ⟨rfl, rfl⟩ := Prod.mk.inj heq
        exact .inr ((hsent hunsent).imp id fun hb => ⟨b', mem_middle.mpr (.inl rfl), hb⟩)
      · exact .inr (.inr ⟨c, mem_middle.mpr (.inr hc), hunsent⟩)
  · have hold := h.load
    simp only [List.map_append, List.map_cons, List.sum_append, List.sum_cons] at hold ⊢
    omega

/-! ## Numbers in line -/

theorem tickets_of_none {hs : List Handling} (hb : b.parking.ticket = none) :
    tickets hs (before ++ (x, b) :: after) = tickets hs (before ++ after) := by
  simp [tickets, hb]

theorem tickets_of_some {hs : List Handling} {k : Nat} (hb : b.parking.ticket = some k) :
    (tickets hs (before ++ (x, b) :: after)).Perm (k :: tickets hs (before ++ after)) := by
  simp only [tickets, List.filterMap_append, List.filterMap_cons, hb]
  rw [← List.append_assoc, ← List.append_assoc]
  exact List.perm_middle

/-- A step that neither stood nor stands in line changes nothing for the others. -/
theorem accounts_of_none {g : Gate} {taken all : Nat} {hs : List Handling}
    (h : g.Accounts taken all (tickets hs (before ++ (x, b) :: after)))
    (hb : b.parking.ticket = none) (hb' : b'.parking.ticket = none) :
    g.Accounts taken all (tickets hs (before ++ (x, b') :: after)) := by
  rw [tickets_of_none hb] at h
  rwa [tickets_of_none hb']

/-! ## Turns of a step -/

/-- How a turn leaves a step of the wave, with what its user has: it waits for something, or it has
ended. -/
def Leaves (r : Roster) (n : Nat) (before : List (Assignment × Branch)) (x : Assignment)
    (after : List (Assignment × Branch)) (belongings : Belongings) :
    Scene × Turn (Routine StepOutcome) StepOutcome → Prop
  | (s, .waits code) =>
    r.Covers n s.world (before ++ (x, .going ⟨code, s.parking⟩) :: after) ∧
      (Branch.going ⟨code, s.parking⟩).Blocked s.world.bus s.world.now ∧ s.belongings = belongings
  | (s, .ended o) =>
    r.Covers n s.world (before ++ (x, .ended o) :: after) ∧ s.belongings = belongings
  | (_, .crashed _) => False

/-- When the collection of a request is answered the steps with other requests do not notice. -/
theorem Sound.others_expire (hr : r.Sound) {c c' : Collector} (hx : x ∈ r.steps)
    (hc : ∀ handle, c.standing handle ≠ .unknown → c'.standing handle =
      (c.standing handle).answerWhere true (·.requestId == x.call.requestId)) {now : Nat} :
    ∀ y ∈ r.steps, y ≠ x → ∀ {u : Prop} {b : Branch}, y.At now c u b → y.At now c' u b := by
  intro y hy hne u b hat
  refine hat.answerWhere (hr.clear y hy) hc fun hid => ?_
  exact absurd (hr.eq_of_id hy hx (beq_iff_eq.mp hid)) hne

/-- A step that was waiting for its collection ends, and the other steps do not notice. -/
theorem Covers.ends (h : r.Covers n w (before ++ (x, b) :: after)) (hsent : b.load = 0)
    (hticket : b.parking.ticket = none) (hstop : x.stop ≤ w.now) {c : Collector} (htable : c.Sound)
    (hresults : w.bus.collector.results <+: c.results)
    (hpays : Collector.Pays 0 w.bus.collector c)
    (hothers : ∀ y ∈ r.steps, y ≠ x → ∀ {u : Prop} {b : Branch},
      y.At w.now w.bus.collector u b → y.At w.now c u b) :
    r.Covers n (w.withCollector c) (before ++ (x, .ended x.outcome) :: after) := by
  have hqueue : (w.withCollector c).bus.queue = w.bus.queue ++ [] := (List.append_nil _).symm
  refine h.update rfl rfl rfl rfl hqueue nofun ?_ htable hothers (.ended hstop) ?_
    (fun hunsent => ?_) ?_
  · exact Nat.zero_le _
  · exact accounts_of_none h.places hticket rfl
  · unfold Branch.Unsent at hunsent
    omega
  · have hload := w.load_withCollector hpays hresults
    rw [hsent]
    exact hload

section Turns

variable {s : Scene} {handle : Nat}

/-- A step whose collection was answered ends. -/
theorem Covers.leaves_answered
    (h : r.Covers n s.world
      (before ++ (x, .going ⟨x.call.await (x.pending handle), s.parking⟩) :: after))
    {a : Collected} (ha : s.world.bus.collector.standing handle = .answered a)
    (houtcome : x.call.outcome a = x.outcome) (hstop : x.stop ≤ s.world.now)
    (hticket : s.parking.ticket = none) :
    r.Leaves n before x after s.belongings (Routine.advance (x.call.await (x.pending handle)) s) := by
  have hwait : s.attempt (.collected (x.pending handle)) =
      ({ s with world := s.world.withCollector s.world.bus.collector }, some a) := by
    rw [Scene.attempt, Scene.collected, Collector.wait_of_answered h.table ha]
  have hturn : Routine.advance (x.call.await (x.pending handle)) s =
      ({ s with world := s.world.withCollector s.world.bus.collector, parking := {} },
        .ended (x.call.outcome a)) := Routine.advance_of_some hwait
  rw [hturn, houtcome]
  exact ⟨h.ends rfl hticket hstop h.table (List.prefix_refl _) (.refl _) fun _ _ _ _ _ h => h, rfl⟩

/-- A step that is out of time ends without a reply. -/
theorem Covers.leaves_late (hr : r.Sound)
    (h : r.Covers n s.world
      (before ++ (x, .going ⟨x.call.await (x.pending handle), s.parking⟩) :: after))
    (hcollecting : s.world.bus.collector.standing handle = .collecting x.collection)
    (hdue : s.world.now ≤ x.due) (hlate : x.limit ≤ s.world.now)
    (hticket : s.parking.ticket = none) :
    r.Leaves n before x after s.belongings (Routine.advance (x.call.await (x.pending handle)) s) := by
  have hx : x ∈ r.steps := (h.steps _ (mem_middle.mpr (.inl rfl))).1
  have hclear := hr.clear x hx
  have hover : x.budget < x.post.delay := by
    unfold Assignment.limit at hlate
    unfold Assignment.due at hdue
    unfold Assignment.Clear at hclear
    omega
  have hstop : x.stop ≤ s.world.now := by
    unfold Assignment.stop
    unfold Assignment.limit at hlate
    omega
  have hwait : s.world.bus.collector.wait s.world.now (x.pending handle) =
      some (s.world.bus.collector.finish (x.pending handle)) := by
    rw [Collector.wait_of_collecting h.table hcollecting]
    exact if_pos hlate
  have hfinish : s.attempt (.collected (x.pending handle)) =
      ({ s with world := s.world.withCollector (s.world.bus.collector.expire x.call.requestId) },
        some (s.world.bus.collector.finish (x.pending handle)).2) := by
    rw [Scene.attempt, Scene.collected, hwait]
    rfl
  have hturn : Routine.advance (x.call.await (x.pending handle)) s =
      ({ s with
          world := s.world.withCollector (s.world.bus.collector.expire x.call.requestId)
          parking := {} },
        .ended (x.call.outcome (s.world.bus.collector.finish (x.pending handle)).2)) :=
    Routine.advance_of_some hfinish
  rw [hturn, Assignment.finish_of_collecting h.table hcollecting,
    Assignment.outcome_of_silence hover]
  refine ⟨h.ends rfl hticket hstop (h.table.expire _) (List.prefix_append _ _)
    (Collector.pays_wait hwait) (hr.others_expire hx fun handle _ => ?_), rfl⟩
  exact Collector.standing_expire h.table x.call.requestId handle

/-- A step that has time left waits on, with an alarm. -/
theorem Covers.leaves_early
    (h : r.Covers n s.world
      (before ++ (x, .going ⟨x.call.await (x.pending handle), s.parking⟩) :: after))
    (hcollecting : s.world.bus.collector.standing handle = .collecting x.collection)
    (hdue : s.world.now ≤ x.due) (hearly : s.world.now < x.limit) (hunderway : x.Underway s.world)
    (hticket : s.parking.ticket = none) (halarm : ∀ a ∈ s.parking.alarm, a.time = x.limit) :
    r.Leaves n before x after s.belongings (Routine.advance (x.call.await (x.pending handle)) s) := by
  have hwait : s.world.bus.collector.wait s.world.now (x.pending handle) = none := by
    rw [Collector.wait_of_collecting h.table hcollecting]
    exact if_neg (Nat.not_le_of_lt hearly)
  have hturn : Routine.advance (x.call.await (x.pending handle)) s =
      (s.wakeAt x.limit, .waits (x.call.await (x.pending handle))) :=
    Routine.advance_of_none (by rw [Scene.attempt, Scene.collected, hwait]; rfl)
  have hopen : handle ∉ s.world.bus.collector.results.map (·.1) :=
    Collector.result?_eq_none_iff.mp (Collector.result?_of_collecting h.table hcollecting)
  rw [hturn]
  cases ha : s.parking.alarm with
  | some alarm =>
    have htime := halarm alarm ha
    rw [Scene.wakeAt_of_some ha]
    exact ⟨h, ⟨hopen, alarm, ha, by omega⟩, rfl⟩
  | none =>
    rw [Scene.wakeAt_of_none ha, hticket]
    refine ⟨?_, ⟨hopen, _, rfl, hearly⟩, rfl⟩
    refine h.update rfl rfl rfl rfl (List.append_nil _).symm (fun _ hm => by cases hm)
      (Nat.zero_le _) h.table (fun _ _ _ _ _ h => h) ?_ ?_
      (fun hunsent => absurd hunsent (Nat.lt_irrefl 0)) (Nat.le_refl _)
    · refine .waiting (.inr ⟨hcollecting, Nat.le_of_lt hearly, hdue⟩) (fun _ => ?_) fun a ha => ?_
      · exact hunderway.grow rfl (fun _ h => h) rfl rfl
      · obtain rfl := Option.some.inj ha
        rfl
    · exact accounts_of_none h.places hticket rfl

/-- A step waits for its collection, until that is answered or out of time. -/
theorem Covers.leaves_await (hr : r.Sound)
    (h : r.Covers n s.world
      (before ++ (x, .going ⟨x.call.await (x.pending handle), s.parking⟩) :: after))
    (hstands : x.Stands s.world.now s.world.bus.collector handle)
    (hunderway : s.world.bus.collector.standing handle = .collecting x.collection →
      x.Underway s.world)
    (hticket : s.parking.ticket = none) (halarm : ∀ a ∈ s.parking.alarm, a.time = x.limit) :
    r.Leaves n before x after s.belongings (Routine.advance (x.call.await (x.pending handle)) s) := by
  rcases hstands with ⟨a, ha, houtcome, hnow⟩ | ⟨hcollecting, -, hdue⟩
  · exact h.leaves_answered ha houtcome (Nat.le_of_eq hnow.symm) hticket
  · rcases Nat.lt_or_ge s.world.now x.limit with hearly | hlate
    · exact h.leaves_early hcollecting hdue hearly (hunderway hcollecting) hticket halarm
    · exact h.leaves_late hr hcollecting hdue hlate hticket

/-- A step has a place in the queue for its request, and waits for its collection then. -/
theorem Covers.leaves_accept (hr : r.Sound) {m : Message}
    {next : (Operation.send m none).Answer → Routine StepOutcome}
    (sent : (Operation.send m none).Answer)
    (h : r.Covers n s.world
      (before ++ (x, .going ⟨.ask (.send m none) next, s.parking⟩) :: after))
    (hm : x.Requests m) (hnext : ∀ sent, next sent = x.call.await (x.pending handle))
    (hnow : s.world.now = x.time) (hstands : x.Stands s.world.now s.world.bus.collector handle)
    {gate : Gate} (hgate : gate.Accounts (s.world.bus.queue.length + 1) r.places
      (tickets s.world.handlings (before ++ after))) :
    r.Leaves n before x after s.belongings
      (Routine.advance (next sent) { s.accept gate m with parking := {} }) := by
  have hmem : m ∈ (s.accept gate m).world.bus.queue :=
    List.mem_append_right _ (List.mem_singleton.mpr rfl)
  have hunderway : x.Underway (s.accept gate m).world := .asking ⟨hm, hnow⟩ hmem
  rw [hnext]
  refine Covers.leaves_await hr (h.update rfl rfl rfl rfl rfl ?_ (Nat.le_refl 1) h.table
    (fun _ _ _ _ _ h => h) ?_ ?_ (fun _ => .inl ⟨m, hmem, hm⟩) ?_) hstands (fun _ => hunderway) rfl
    nofun
  · intro m' hm'
    obtain rfl := List.mem_singleton.mp hm'
    exact ⟨hm, hnow⟩
  · exact .waiting hstands (fun _ => hunderway) nofun
  · rw [tickets_of_none rfl]
    change gate.Accounts (s.world.bus.queue ++ [m]).length _ _
    rwa [List.length_append]
  · have hload : m.load = 7 := by
      obtain ⟨stamp, rfl⟩ := hm
      rfl
    rw [World.load_accept, hload]
    exact Nat.le_refl _

/-- A step sends its request as soon as there is a place. -/
theorem Covers.leaves_send (hr : r.Sound) {m : Message}
    {next : (Operation.send m none).Answer → Routine StepOutcome} {ticket : Option Nat}
    (hparking : s.parking = { ticket })
    (h : r.Covers n s.world (before ++ (x, .going ⟨.ask (.send m none) next, { ticket }⟩) :: after))
    (hm : x.Requests m) (hnext : ∀ sent, next sent = x.call.await (x.pending handle))
    (hnow : s.world.now = x.time) (hstands : x.Stands s.world.now s.world.bus.collector handle) :
    r.Leaves n before x after s.belongings (Routine.advance (.ask (.send m none) next) s) := by
  have hplaces := h.places
  have hticket : s.parking.ticket = ticket := by rw [hparking]
  cases ticket with
  | none =>
    rw [tickets_of_none rfl] at hplaces
    cases htake : s.world.bus.gate.take? with
    | some gate =>
      rw [Routine.advance_of_some (o := .send m none) (s.send_free hticket htake m)]
      rw [← hparking] at h
      exact h.leaves_accept hr _ hm hnext hnow hstands (hplaces.take htake)
    | none =>
      rw [Routine.advance_of_none (o := .send m none) (s.send_full hticket htake m)]
      have hlined : s.lineUp.parking = { ticket := some s.world.bus.gate.next } := by
        rw [Scene.lineUp, hparking]
        rfl
      refine ⟨?_, ⟨_, congrArg Parking.ticket hlined, hplaces.next_not_granted⟩, rfl⟩
      rw [hlined]
      refine h.update rfl rfl rfl rfl (List.append_nil _).symm nofun (Nat.le_refl 1) h.table
        (fun _ _ _ _ _ h => h) (.sending hm hnext hnow hstands _) ?_ .inr (Nat.le_refl _)
      exact (hplaces.lineUp htake).perm (tickets_of_some rfl).symm
  | some k =>
    have hline := hplaces.perm (tickets_of_some rfl)
    cases hclaim : s.world.bus.gate.claim? k with
    | some gate =>
      rw [Routine.advance_of_some (o := .send m none) (s.send_kept hticket hclaim m)]
      rw [← hparking] at h
      exact h.leaves_accept hr _ hm hnext hnow hstands (hline.claim hclaim)
    | none =>
      rw [Routine.advance_of_none (o := .send m none) (s.send_waits hparking hclaim m)]
      rw [← hparking] at h
      refine ⟨h, ⟨k, hticket, fun hgranted => ?_⟩, rfl⟩
      simp [Gate.claim?, hgranted] at hclaim

/-- The collection of a step is registered, and its request is stamped. -/
def registered (x : Assignment) (w : World) : World :=
  { w.withCollector (w.bus.collector.enlist w.now x.query).1 with nextMessage := w.nextMessage + 1 }

/-- A step that begins registers its collection and comes to sending its request. -/
theorem advance_run (hr : r.Sound) (hx : x ∈ r.steps) (hgrounds : s.world.grounds = r.grounds)
    (hnow : s.world.now = x.time) :
    ∃ m, x.Requests m ∧ Routine.advance x.call.run s =
      Routine.advance
        (.ask (.send m none) fun _ => x.call.await (x.pending s.world.bus.collector.next))
        { s with world := registered x s.world, parking := {} } := by
  have hproviders : s.world.bus.directory.providers x.call.capability = [x.post.name] := by
    have hlayout : s.world.bus.layout = r.grounds.layout := congrArg World.Grounds.layout hgrounds
    have hdirectory : s.world.bus.directory = r.grounds.layout.directory :=
      congrArg Bus.Layout.directory hlayout
    rw [hdirectory]
    exact (hr.provides x hx).providers
  obtain ⟨⟨sender, requestId, capability, assigned, data, timeout, deadline⟩, time, post⟩ := x
  obtain rfl : assigned = none := hr.free _ hx
  obtain rfl : s.world.now = time := hnow
  let x : Assignment :=
    ⟨⟨sender, requestId, capability, none, data, timeout, deadline⟩, s.world.now, post⟩
  let here : Scene := { s with parking := {} }
  let stamp : Stamp := ⟨"m" ++ toString s.world.nextMessage, .ofMillis s.world.now⟩
  have hfirst : s.attempt (.providers capability) = (s, some [post.name]) :=
    congrArg (fun providers => (s, some providers)) hproviders
  let there : Scene := { here with
    world := s.world.withCollector (s.world.bus.collector.enlist s.world.now x.query).1 }
  have hagain : there.attempt (.providers capability) = (there, some [post.name]) :=
    congrArg (fun providers => (there, some providers)) hproviders
  have hcollect : here.attempt (x.call.collection [post.name] s.world.now) =
      (there, some (x.pending s.world.bus.collector.next)) := rfl
  refine ⟨.request stamp sender post.name capability data requestId, ⟨stamp, rfl⟩, ?_⟩
  rw [StepCall.run_eq]
  refine (Routine.advance_of_some hfirst).trans ?_
  refine (Routine.advance_of_some (o := .clock) rfl).trans ?_
  refine (Routine.advance_of_some hcollect).trans ?_
  exact (Routine.advance_of_some hagain).trans (Routine.advance_of_some (o := .stamp) rfl)

/-- A step begins. -/
theorem Covers.leaves_run (hr : r.Sound)
    (h : r.Covers n s.world (before ++ (x, .going { code := x.call.run }) :: after))
    (hnow : s.world.now = x.time) :
    r.Leaves n before x after s.belongings (Routine.advance x.call.run s) := by
  have hx : x ∈ r.steps := (h.steps _ (mem_middle.mpr (.inl rfl))).1
  have hclear := hr.clear x hx
  obtain ⟨m, hm, hturn⟩ := advance_run hr hx h.grounds hnow
  have hstanding := fun k => Collector.standing_enlist h.table s.world.now x.query k
  have hstands : x.Stands s.world.now (s.world.bus.collector.enlist s.world.now x.query).1
      s.world.bus.collector.next := by
    refine .inr ⟨?_, ?_, ?_⟩
    · rw [hstanding, if_pos rfl, hnow]
      rfl
    · exact hnow ▸ Nat.le_add_right _ _
    · exact hnow ▸ x.time_le_due
  have hothers : ∀ y ∈ r.steps, y ≠ x → ∀ {u : Prop} {b : Branch},
      y.At s.world.now s.world.bus.collector u b →
        y.At s.world.now (s.world.bus.collector.enlist s.world.now x.query).1 u b :=
    hr.others_expire hx fun handle hgiven => by
      have hlt := (Collector.standing_ne_unknown_iff h.table).mp hgiven
      rw [hstanding, if_neg (by omega)]
      rfl
  have hload := s.world.load_withCollector (Collector.pays_enlist s.world.now x.query)
    (Collector.results_register ..)
  have hcovers : r.Covers n (registered x s.world) (before ++ (x, .going
      ⟨.ask (.send m none) fun _ => x.call.await (x.pending s.world.bus.collector.next), {}⟩) ::
      after) :=
    h.update rfl rfl rfl rfl (List.append_nil _).symm nofun (Nat.le_refl 1)
      (h.table.enlist s.world.now x.query) hothers (.sending hm (fun _ => rfl) hnow hstands none) (accounts_of_none h.places rfl rfl)
      (fun _ => .inr (Nat.succ_pos 7)) (Nat.add_le_add_right hload 8)
  rw [hturn]
  exact Covers.leaves_send hr rfl hcovers hm (fun _ => rfl) hnow hstands

/-- A step of the wave has its turn: it does not break off, and goes on as far as it can. -/
theorem Covers.advance (hr : r.Sound) (h : r.Covers n s.world (before ++ (x, b) :: after)) :
    ∃ s' b', b.advance s = (s', .ok b') ∧ r.Covers n s'.world (before ++ (x, b') :: after) ∧
      b'.Blocked s'.world.bus s'.world.now ∧ s'.belongings = s.belongings := by
  have hat : x.At s.world.now s.world.bus.collector (x.Underway s.world) b :=
    (h.steps _ (mem_middle.mpr (.inl rfl))).2
  have hgoing : ∀ strand : Strand StepOutcome,
      r.Leaves n before x after s.belongings
        (Routine.advance strand.code { s with parking := strand.parking }) →
      ∃ s' b', (Branch.going strand).advance s = (s', .ok b') ∧
        r.Covers n s'.world (before ++ (x, b') :: after) ∧
        b'.Blocked s'.world.bus s'.world.now ∧ s'.belongings = s.belongings := by
    intro strand hleaves
    rw [Branch.advance]
    rcases hturn : Routine.advance strand.code { s with parking := strand.parking } with
      ⟨s', code | o | text⟩ <;> rw [hturn] at hleaves
    · exact ⟨_, _, rfl, hleaves⟩
    · exact ⟨_, _, rfl, hleaves.1, trivial, hleaves.2⟩
    · exact hleaves.elim
  cases hat with
  | fresh hnow =>
    exact hgoing _ (Covers.leaves_run (s := { s with parking := {} }) hr h hnow)
  | sending hm hnext hnow hstands ticket =>
    exact hgoing _ (Covers.leaves_send (s := { s with parking := { ticket } }) hr rfl h hm hnext
      hnow hstands)
  | @waiting _ hstands hunderway alarm halarm =>
    exact hgoing _ (Covers.leaves_await (s := { s with parking := { alarm } }) hr h hstands
      hunderway rfl halarm)
  | ended hstop => exact ⟨s, _, rfl, h, trivial, rfl⟩

/-- The steps of the wave have their turns one after another. Each of them has gone on as far as it
can, or was told something since. -/
theorem Covers.advanceAll (hr : r.Sound) (before : List (Assignment × Branch))
    {ps : List (Assignment × Branch)} (h : r.Covers n s.world (before ++ ps)) :
    ∃ s' ps', Branch.advanceAll (ps.map (·.2)) s = (s', .ok (ps'.map (·.2))) ∧
      ps'.map (·.1) = ps.map (·.1) ∧ r.Covers n s'.world (before ++ ps') ∧
      s'.belongings = s.belongings ∧ ∀ p ∈ ps', p.2.Blocked s'.world.bus s'.world.now ∨
        ∃ signal ∈ s'.world.signals, p.2.waitsFor signal = true := by
  induction ps generalizing before s with
  | nil => exact ⟨s, [], rfl, rfl, h, rfl, List.forall_mem_nil _⟩
  | cons p ps ih =>
    obtain ⟨x, b⟩ := p
    obtain ⟨s₁, b₁, hfirst, hcovers, hblocked, hkept⟩ := h.advance hr
    rw [List.append_cons] at hcovers
    obtain ⟨s₂, ps₂, hrest, hsame, hcovers₂, hkept₂, hsettled⟩ := ih _ hcovers
    have htells := Branch.stable_advanceAll (World.stable_tells s₁.world) (ps.map (·.2)) (.refl _)
    have hstage := Branch.stable_advanceAll (World.stable_stage s₁.world.stage) (ps.map (·.2)) rfl
    rw [hrest] at htells hstage
    refine ⟨s₂, (x, b₁) :: ps₂, ?_, ?_, ?_, hkept₂.trans hkept, ?_⟩
    · rw [List.map_cons, Branch.advanceAll, hfirst]
      dsimp only
      rw [hrest]
      rfl
    · rw [List.map_cons, List.map_cons, hsame]
    · rwa [List.append_cons]
    · intro p hp
      rcases List.mem_cons.mp hp with rfl | hp
      · exact hblocked.tells htells (congrArg World.Stage.now hstage)
      · exact hsettled p hp

end Turns

end Roster

end Switchboard
