import Switchboard.Proofs.Timetable.Turns

/-!
# A run keeps to the timetable

* `Timetable.Stage.userTurn` : in his turn the user goes on along the timetable;
* `Timetable.Keeps` : everybody who can go on has his turn, and the user is where he should be;
* `Keeps.dispatch`, `Keeps.turn`, `Keeps.tick` : so it stays when work is woken, when a host has its
  turn, and when time passes; `Keeps.go` : and so in a run;
* `Keeps.exists_ended` : the user has his report in the end, since each round uses up time, or
  something of what can still happen, or a turn.
-/

namespace Switchboard

/-- Nobody is lined up where the roster looks. -/
theorem Roster.Covers.lined {α : Type} {r : Roster} {n : Nat} {ps : List (Assignment × Branch)}
    {run run' : Run α} (h : r.Covers n run.world ps) (hlined : Run.Lined run run') :
    r.Covers n run'.world ps := by
  have hgrounds : run'.world.grounds = run.world.grounds := by
    rw [hlined.frame]
    rfl
  have hnext : run'.world.nextHandling = run.world.nextHandling := by rw [hlined.frame]
  have hbreaker : run'.world.breaker = run.world.breaker := by
    rw [hlined.frame]
    rfl
  refine h.congr hgrounds hlined.now hlined.bus hlined.handlings hnext hbreaker ?_
  rw [hlined.signals]

namespace Timetable

variable {t : Timetable} {r : Roster} {bound : Nat} {w v : World}
  {ps : List (Assignment × Branch)} {done later : List Slot} {u : UserState RunReport}
  {run run' : Run RunReport} {host : Host} {rest : List Host}

/-! ## What does not concern the user -/

theorem Spans.imp (h : t.Spans r bound w ps done later) (ht : t.Holds r)
    (hr : { r with steps := [] }.Sound)
    (hcovers : ∀ ys k, { r with steps := ys }.Sound → { r with steps := ys }.Covers k w ps →
      { r with steps := ys }.Covers k v ps) : t.Spans r bound v ps done later := by
  obtain ⟨ys, k, hys, hsound, hold, hbound⟩ := h.exists_roster ht hr
  exact ⟨h.split, ys, k, hys, hcovers ys k hsound hold, hbound⟩

theorem Within.imp {n time : Nat} {wave : List String} {waves : List (List String)} {p : Progress}
    (h : t.Within r bound w n time wave waves p ps done) (hnow : v.now = w.now) {k : Nat}
    (hspans : ∀ ps done later, t.Spans r bound w ps done later → t.Spans r k v ps done later) :
    t.Within r k v n time wave waves p ps done where
  spans := hspans _ _ _ h.spans
  records := h.records
  finish := h.finish
  names := h.names
  steps := h.steps
  begun := h.begun
  since := hnow ▸ h.since
  last := hnow ▸ h.last

/-- The user is still where he was. -/
theorem Stage.imp (h : t.Stage r bound w u) (hnow : v.now = w.now) {k : Nat}
    (hspans : ∀ ps done later, t.Spans r bound w ps done later → t.Spans r k v ps done later) :
    t.Stage r k v u := by
  cases h with
  | begins hold hstart => exact .begins (hspans _ _ _ hold) (hnow.trans hstart)
  | waits h hgoing parking hb => exact .waits (h.imp hnow hspans) hgoing parking hb
  | ended hold hrecords hend => exact .ended (hspans _ _ _ hold) hrecords (hnow.trans hend)

theorem Stage.exists_spans (h : t.Stage r bound w u) :
    ∃ ps done later, t.Spans r bound w ps done later := by
  cases h with
  | begins hspans => exact ⟨_, _, _, hspans⟩
  | waits h => exact ⟨_, _, _, h.spans⟩
  | ended hspans => exact ⟨_, _, _, hspans⟩

/-- While the user has no report it is not later than the deadline. -/
theorem Stage.now_le {th : Thread RunReport} (h : t.Stage r bound w (.going th)) :
    w.now ≤ t.deadline := by
  cases h with
  | begins hspans hnow => exact hnow ▸ Nat.le_add_right _ _
  | waits h =>
    refine Nat.le_trans h.last (next_le_iff.mpr ⟨Nat.le_of_lt h.begun, fun c _ => ?_⟩)
    exact stop_le_deadline (Nat.le_of_lt h.begun) c

/-! ## Turns of the user -/

/-- Nobody notices that the user gives back what he has. -/
theorem Spans.of_still (h : t.Spans r bound w ps done later) (hstill : World.Still w v) :
    t.Spans r bound v ps done later := by
  obtain ⟨hsplit, ys, k, hys, hcovers, hbound⟩ := h
  refine ⟨hsplit, ys, k, hys, hcovers.congr hstill.grounds ?_ hstill.bus ?_ ?_ ?_ ?_, hbound⟩
  · exact congrArg World.Stage.now hstill.stage
  · exact congrArg World.Stage.handlings hstill.stage
  · exact congrArg World.Stage.nextHandling hstill.stage
  · funext agent capability
    exact hstill.breakers agent capability id
  · rw [hstill.signals]

theorem Stage.owned (h : t.Stage r bound w u) (ht : t.Holds r)
    (hr : { r with steps := [] }.Sound) : w.owned = true := by
  obtain ⟨ps, done, later, hspans⟩ := h.exists_spans
  obtain ⟨ys, k, -, -, hcovers, -⟩ := hspans.exists_roster ht hr
  exact (congrArg World.Grounds.owned hcovers.grounds).trans hr.owned

/-- The user has his turn, and goes on as far as he can. -/
theorem Stage.userTurn (run : Run RunReport) (h : t.Stage r bound run.world run.user)
    (ht : t.Holds r) (hr : { r with steps := [] }.Sound) (hlimit : t.deadline < run.limit) :
    t.Stage r bound run.userTurn.world run.userTurn.user ∧ run.userTurn.limit = run.limit ∧
      World.Tells run.world run.userTurn.world ∧
      ∀ th, run.userTurn.user = .going th → run.userTurn.Settled th := by
  cases huser : run.user with
  | going th =>
    rw [huser] at h
    have hleaves := h.leaves ht hr
    have htells := th.tells_advance run.world
    have hadvance := th.advance_eq run.world
    unfold Run.userTurn
    rw [huser]
    dsimp only
    rcases hturn : Program.advance th.code th.wave ⟨run.world, th.parking, th.belongings⟩ with
      ⟨s, ⟨code, wave⟩ | report | text⟩
    · rw [hturn] at hleaves hadvance
      obtain ⟨hstage, hsettled⟩ := hleaves
      have hnow := hstage.now_le
      rw [hadvance] at htells ⊢
      dsimp only [Thread.left]
      rw [if_neg (by omega)]
      refine ⟨hstage, rfl, htells, fun th' heq => ?_⟩
      obtain rfl := UserState.going.inj heq
      exact hsettled
    · rw [hturn] at hleaves hadvance
      obtain ⟨hstage, hpermits⟩ := hleaves
      have hstill : World.Still s.world (s.world.takeBack s.belongings) :=
        .takeBack (hstage.owned ht hr) (hpermits ▸ nofun)
      rw [hadvance] at htells ⊢
      refine ⟨hstage.imp (congrArg World.Stage.now hstill.stage) fun _ _ _ h => h.of_still hstill,
        rfl, htells, nofun⟩
    · rw [hturn] at hleaves
      exact hleaves.elim
  | ended report =>
    have hsame : run.userTurn = run := by
      unfold Run.userTurn
      rw [huser]
    rw [hsame]
    refine ⟨h, rfl, .refl _, fun th hth => ?_⟩
    rw [huser] at hth
    cases hth
  | crashed text =>
    rw [huser] at h
    cases h
  | stuck =>
    rw [huser] at h
    cases h

/-! ## Rounds -/

/-- Everybody who can go on has his turn, and the user is where the timetable has him. -/
structure Keeps (t : Timetable) (r : Roster) (bound : Nat) (run : Run RunReport) : Prop where
  alert : run.Alert
  limit : t.deadline < run.limit
  stage : t.Stage r bound run.world run.user

/-- The requests in the queue have been seen. -/
def Seen (r : Roster) (w : World) : Prop :=
  ∀ m ∈ w.bus.queue, ∀ x : Assignment, x.Requests m → w.now = x.time → r.seen x

theorem Spans.signals_le (h : t.Spans r bound w ps done later) : w.signals.length ≤ bound := by
  obtain ⟨-, ys, k, -, hcovers, hbound⟩ := h
  have hload := hcovers.load
  unfold World.load at hload
  omega

theorem Spans.dispatch (h : t.Spans r bound run.world ps done later) :
    t.Spans r (bound - run.world.signals.length) run.dispatch.world ps done later := by
  obtain ⟨hsplit, ys, k, hys, hcovers, hbound⟩ := h
  have hload := hcovers.load
  unfold World.load at hload
  have hheard :
      { r with steps := ys }.Covers (k - run.world.signals.length) run.heard.world ps := by
    refine hcovers.congr (v := run.heard.world) rfl rfl rfl rfl rfl rfl ?_
    rw [show run.heard.world.signals = [] from rfl, List.length_nil]
    omega
  exact ⟨hsplit, ys, _, hys, hheard.lined (Run.lined_dispatch run), by omega⟩

/-- Whatever was told wakes those who wait for it, and is used up. -/
theorem Keeps.dispatch (h : t.Keeps r bound run) :
    t.Keeps r (bound - run.world.signals.length) run.dispatch where
  alert := h.alert.dispatch
  limit := by
    rw [Run.limit_dispatch]
    exact h.limit
  stage := by
    rw [Run.user_dispatch]
    exact h.stage.imp (Run.now_dispatch run) fun _ _ _ hspans => hspans.dispatch

/-- The requests of the roster in the queue have been seen. -/
theorem seen_of_covers {ys : List Assignment} {k : Nat} (hseen : Seen r w)
    (hr : { r with steps := ys }.Sound) (h : { r with steps := ys }.Covers k w ps) :
    ∀ m ∈ w.bus.queue, ∀ x ∈ ys, x.Requests m → r.seen x := by
  intro m hm x hx hrequests
  refine hseen m hm x hrequests ?_
  obtain ⟨y, hy, hasks | hanswers⟩ := h.queue m hm
  · obtain rfl := hr.eq_of_id hx hy
      ((Roster.id_of_requests hrequests).symm.trans (Roster.id_of_requests hasks.1))
    exact hasks.2
  · have hcontra := hanswers.1.isReply
    rw [Roster.not_isReply_of_requests hrequests] at hcontra
    cases hcontra

theorem covers_ready {r : Roster} {k : Nat} (h : r.Covers k w ps) (ready : List Host) :
    r.Covers k { w with ready } ps :=
  h.congr (v := { w with ready }) rfl rfl rfl rfl rfl rfl (Nat.le_refl _)

/-- A host that is not the user has his turn. -/
theorem Keeps.of_covers (h : t.Keeps r bound run) (ht : t.Holds r)
    (hr : { r with steps := [] }.Sound) (halert : run'.Alert) (huser : run'.user = run.user)
    (hlimit : run'.limit = run.limit) (hnow : run'.world.now = run.world.now)
    (hcovers : ∀ ys k ps, { r with steps := ys }.Sound →
      { r with steps := ys }.Covers k run.world ps →
      { r with steps := ys }.Covers k run'.world ps) :
    t.Keeps r bound run' := by
  refine ⟨halert, hlimit ▸ h.limit, ?_⟩
  rw [huser]
  exact h.stage.imp hnow fun ps _ _ hspans => hspans.imp ht hr fun ys k => hcovers ys k ps

/-- The user has had his turn. -/
theorem Keeps.of_user (h : t.Keeps r bound run) (hready : run.world.ready = .user :: rest)
    (hstage : t.Stage r bound run'.world run'.user) (hlimit : run'.limit = run.limit)
    (htells : World.Tells run.world run'.world)
    (hstill : run'.world.stage = { run.world.stage with ready := rest })
    (hsettled : ∀ th, run'.user = .going th → run'.Settled th) : t.Keeps r bound run' := by
  have hrunnable : run'.world.runnable = run.world.runnable := congrArg World.Stage.runnable hstill
  have hhandlings : run'.world.handlings = run.world.handlings :=
    congrArg World.Stage.handlings hstill
  refine ⟨?_, hlimit ▸ h.limit, hstage⟩
  refine h.alert.turn hready (congrArg World.Stage.ready hstill) htells
    (congrArg World.Stage.now hstill) nofun nofun (fun x hx => ⟨hrunnable ▸ hx, nofun⟩)
    (fun x hx => .inl ⟨hhandlings ▸ hx, fun hmem => ?_⟩) fun th hth => .inr (hsettled th hth)
  rwa [hrunnable]

/-- A host has its turn. -/
theorem Keeps.turn (h : t.Keeps r bound run) (ht : t.Holds r)
    (hr : { r with steps := [] }.Sound) (hseen : Seen r run.world)
    (hready : run.world.ready = host :: rest) :
    t.Keeps r bound (Run.turn { run with world := { run.world with ready := rest } } host) := by
  have hnow : (Run.turn { run with world := { run.world with ready := rest } } host).world.now =
      run.world.now := Run.now_turn _ host
  have hlined : World.Tells run.world { run.world with ready := rest } :=
    run.world.tells_ready rest
  obtain ⟨ps, done, later, hspans⟩ := h.stage.exists_spans
  obtain ⟨ys, k, -, hsound, hcovers, -⟩ := hspans.exists_roster ht hr
  cases host with
  | delivery =>
    have hrunning : run.world.running = true :=
      (congrArg World.Grounds.running hcovers.grounds).trans hr.running
    refine h.of_covers ht hr (h.alert.deliver hready hrunning) rfl rfl hnow
      fun ys k ps hsound hcovers => ?_
    have hall := seen_of_covers hseen hsound hcovers
    exact (covers_ready hcovers rest).deliverAll hsound hall
  | sweep =>
    exact h.of_covers ht hr (h.alert.sweep hready) rfl rfl hnow
      fun ys k ps hsound hcovers => (covers_ready hcovers rest).sweepNow hsound
  | lane position =>
    obtain ⟨-, htells, hmail, hrunnable, hhandlings⟩ :=
      (covers_ready hcovers rest).laneTurn hsound position
    refine h.of_covers ht hr ?_ rfl rfl hnow
      fun ys k ps hsound hcovers => ((covers_ready hcovers rest).laneTurn hsound position).1
    refine h.alert.turn hready (Run.ready_turn _ _) (hlined.trans htells) hnow nofun ?_ ?_ ?_ ?_
    · intro i hi hmore
      obtain rfl := Host.lane.inj hi
      exact .inr (hmail hmore)
    · intro x hx
      obtain ⟨hold, hother⟩ := hrunnable x hx
      exact ⟨hold, fun heq => hother (Host.lane.inj heq).symm⟩
    · exact hhandlings
    · exact fun th hth => .inl ⟨hth, nofun⟩
  | user =>
    have hstage : t.Stage r bound { run.world with ready := rest } run.user :=
      h.stage.imp (v := { run.world with ready := rest }) rfl fun _ _ _ hspans =>
        hspans.imp ht hr fun _ _ _ hcovers => covers_ready hcovers rest
    obtain ⟨hstage', hlimit, htells, hsettled⟩ :=
      Stage.userTurn { run with world := { run.world with ready := rest } } hstage ht hr h.limit
    exact h.of_user hready hstage' hlimit (hlined.trans htells) (Run.stage_userTurn _) hsettled

end Timetable

/-! ## Time -/

namespace Roster

variable {r : Roster} {n : Nat} {ps : List (Assignment × Branch)} {run : Run RunReport}
  {th : Thread RunReport}

/-- Nobody can go on, the user being one who waits for these steps. -/
theorem rest_of_idle (h : run.Idle) (huser : run.user = .going th)
    (hwave : th.wave = some (ps.map (·.2))) : Rest run.world ps where
  queue := h.queue
  inbox := h.inbox
  handlings := h.handlings
  steps := fun q hq => by
    have hblocked := h.user th huser
    unfold Thread.Blocked at hblocked
    rw [hwave] at hblocked
    exact hblocked q.2 (List.mem_map_of_mem hq)

/-- A request that is being served while nobody can go on has one alarm. -/
theorem Covers.alarm_of_handling (hr : r.Sound) (h : r.Covers n run.world ps)
    (hrest : Rest run.world ps) {h₁ : Handling} (hh : h₁ ∈ run.world.handlings) :
    ∃ a, h₁.thread.parking = { alarm := some a } ∧ h₁.thread.parkings = [h₁.thread.parking] ∧
      run.world.now < a.time := by
  rcases h.handlings h₁ hh with hnoting | ⟨x, -, hserving⟩
  · exact absurd (hrest.handlings h₁ hh) (not_blocked_of_noting hnoting)
  · obtain ⟨a, hparking, hwave, hlater, -⟩ := h.serving_later hr hrest hh hserving
    refine ⟨a, hparking, ?_, hlater⟩
    unfold Thread.parkings
    rw [hwave]

theorem parkings_of_wave (hwave : th.wave = some (ps.map (·.2))) :
    th.parkings = ps.map fun q => q.2.parking := by
  unfold Thread.parkings
  rw [hwave]
  exact List.map_map

/-- All alarms that are set while nobody can go on lie ahead. -/
theorem Covers.lt_alarm (hr : r.Sound) (h : r.Covers n run.world ps) (hrest : Rest run.world ps)
    (huser : run.user = .going th) (hwave : th.wave = some (ps.map (·.2))) :
    ∀ c ∈ run.calls, run.world.now < c.1.time := by
  intro c hc
  rcases List.mem_append.mp hc with hc | hc
  · obtain ⟨h₁, hh, hc⟩ := List.mem_flatMap.mp hc
    obtain ⟨a, hparking, hparkings, hlater⟩ := h.alarm_of_handling hr hrest hh
    rw [hparkings, hparking] at hc
    obtain ⟨a', ha, rfl⟩ := List.mem_map.mp hc
    obtain rfl : a' = a := List.mem_singleton.mp ha
    exact hlater
  · rw [huser] at hc
    obtain ⟨a, ha, rfl⟩ := List.mem_map.mp hc
    obtain ⟨parking, hparking, ha⟩ := List.mem_filterMap.mp ha
    rw [parkings_of_wave hwave] at hparking
    obtain ⟨⟨x, b⟩, hq, rfl⟩ := List.mem_map.mp hparking
    cases b with
    | ended o => cases ha
    | going strand =>
      obtain ⟨handle, a', -, -, rfl, -, hlater⟩ := h.waiting_later hr hrest hq
      obtain rfl := Option.some.inj ha
      exact hlater

/-- Time passes when nobody can go on, up to the next alarm. -/
theorem Covers.runTick (hr : r.Sound) (h : r.Covers n run.world ps) (hrest : Rest run.world ps)
    (huser : run.user = .going th) (hwave : th.wave = some (ps.map (·.2)))
    (hlater : run.world.now ≤ run.nextTime) :
    r.Covers n (run.tick run.nextTime).world ps := by
  have hticked : r.Covers n (run.setClock run.nextTime).world ps := by
    refine h.tick hr hrest hlater (fun h₁ hh a ha => ?_) fun q hq a ha => ?_
    · obtain ⟨-, -, hparkings, -⟩ := h.alarm_of_handling hr hrest hh
      refine Run.nextTime_le_alarm (Run.mem_calls_handling hh ?_ ha)
      rw [hparkings]
      exact List.mem_singleton.mpr rfl
    · refine Run.nextTime_le_alarm (Run.mem_calls_user huser ?_ ha)
      rw [parkings_of_wave hwave]
      exact List.mem_map.mpr ⟨q, hq, rfl⟩
  exact hticked.lined (Run.lined_tick run run.nextTime)

end Roster

namespace Timetable

variable {t : Timetable} {r : Roster} {bound : Nat} {run : Run RunReport}
  {th : Thread RunReport}

/-- Time passes when nobody can go on. -/
theorem Keeps.tick (h : t.Keeps r bound run) (ht : t.Holds r)
    (hr : { r with steps := [] }.Sound) (hsweeper : ∀ s ∈ r.grounds.sweeper, 0 < s.interval)
    (hsignals : run.world.signals = []) (hready : run.world.ready = [])
    (huser : run.user = .going th) :
    t.Keeps r bound (run.tick run.nextTime) ∧ run.world.now < run.nextTime := by
  have hidle : run.Idle := h.alert.idle hsignals hready
  have hstage := h.stage
  have hlimit := h.limit
  rw [huser] at hstage
  have hnow := hstage.now_le
  cases hstage with
  | begins => exact (show False from hidle.user _ huser).elim
  | @waits n time wave waves p ps done hwithin hgoing parking b hb =>
    obtain ⟨hsplit, ys, k, hys, hsound, hcovers, hbound⟩ :=
      And.intro hwithin.spans.split (hwithin.spans.exists_roster ht hr)
    have hrest : Roster.Rest run.world ps := Roster.rest_of_idle hidle huser rfl
    have hsweeps : ∀ s ∈ run.world.sweeper, 0 < s.interval := by
      have hsame : run.world.sweeper = r.grounds.sweeper :=
        congrArg World.Grounds.sweeper hcovers.grounds
      rwa [hsame]
    have hlater : run.world.now < run.nextTime :=
      Run.lt_nextTime (by omega) hsweeps (hcovers.lt_alarm hsound hrest huser rfl)
    have hticked := hcovers.runTick hsound hrest huser rfl (Nat.le_of_lt hlater)
    refine ⟨⟨hidle.tick _, by rwa [Run.limit_tick], ?_⟩, hlater⟩
    rw [Run.user_tick, huser]
    obtain ⟨x, strand, hq⟩ := hgoing
    refine .waits
      { spans := ⟨hsplit, ys, k, hys, hticked, hbound⟩
        records := hwithin.records
        finish := hwithin.finish
        names := hwithin.names
        steps := hwithin.steps
        begun := hwithin.begun
        since := ?_
        last := ?_ } ⟨x, strand, hq⟩ parking hb
    · rw [Run.now_tick]
      exact Nat.le_trans hwithin.since (Nat.le_of_lt hlater)
    · have hmem : x ∈ ps.map (·.1) := List.mem_map_of_mem hq
      rw [hwithin.steps] at hmem
      obtain ⟨c, hc, rfl⟩ := List.mem_map.mp hmem
      exact Nat.le_trans (hticked.steps _ hq).2.le_stop (stop_le_next hc)

end Timetable

/-! ## Runs -/

namespace Run

variable {α : Type} {r r' : Run α}

/-- While the user has not ended there is another round. -/
theorem exists_next {th : Thread α} (h : r.user = .going th) : ∃ r', r.next = some r' := by
  unfold next
  split
  · exact ⟨_, rfl⟩
  · rw [h]
    exact ⟨_, rfl⟩

theorem dispatch_of_quiet (h : r.world.signals = []) : r.dispatch = r.heard := by
  unfold dispatch
  rw [h]
  rfl

/-- A round is the turn of a host, or else time passes. -/
theorem next_cases (h : r.next = some r') :
    (∃ host rest, r.dispatch.world.ready = host :: rest ∧
      r' = turn { r.dispatch with world := { r.dispatch.world with ready := rest } } host) ∨
    (∃ th, r.user = .going th) ∧ r.dispatch.world.ready = [] ∧
      r' = r.dispatch.tick r.dispatch.nextTime := by
  unfold next at h
  split at h
  · rename_i host rest hready
    exact .inl ⟨host, rest, hready, (Option.some.inj h).symm⟩
  · rename_i hready
    split at h
    · rename_i th huser
      exact .inr ⟨⟨th, huser⟩, hready, (Option.some.inj h).symm⟩
    · cases h

/-- Time passes only while the user does nothing. -/
theorem now_go_succ (r : Run α) (n : Nat) :
    (r.go (n + 1)).world.now = (r.go n).world.now ∨ (r.go (n + 1)).user = (r.go n).user := by
  induction n generalizing r with
  | zero =>
    rw [go_succ]
    cases hnext : r.next with
    | none => exact .inl (now_dispatch r)
    | some r' =>
      rcases next_cases hnext with ⟨host, rest, -, rfl⟩ | ⟨-, -, rfl⟩
      · exact .inl ((now_turn _ host).trans (now_dispatch r))
      · exact .inr ((user_tick _ _).trans (user_dispatch r))
  | succ n ih =>
    rw [go_succ, go_succ]
    cases r.next with
    | none => exact .inl rfl
    | some r' => exact ih r'

end Run

namespace Timetable

variable {t : Timetable} {r : Roster} {bound : Nat} {run run' : Run RunReport}

/-- The network is kept, and the capabilities are provided as the timetable has it. -/
structure Runs (t : Timetable) (r : Roster) : Prop where
  holds : t.Holds r
  sound : { r with steps := [] }.Sound
  sweeper : ∀ s ∈ r.grounds.sweeper, 0 < s.interval

/-- What is left: time, what can still happen, turns. -/
def left (t : Timetable) (bound : Nat) (run : Run RunReport) : Nat × Nat × Nat :=
  (t.deadline - run.world.now, bound, run.world.ready.length)

/-- Less is left. -/
def Less : Nat × Nat × Nat → Nat × Nat × Nat → Prop := Prod.Lex (· < ·) (Prod.Lex (· < ·) (· < ·))

/-- Each round uses up time, else something of what can still happen, else a turn. -/
theorem Keeps.next (h : t.Keeps r bound run) (ht : t.Runs r) (hseen : Seen r run.world)
    (hnext : run.next = some run') :
    ∃ bound', t.Keeps r bound' run' ∧ Less (t.left bound' run') (t.left bound run) := by
  have hdispatched := h.dispatch
  have hseen' : Seen r run.dispatch.world := by
    unfold Seen
    rw [Run.bus_dispatch, Run.now_dispatch]
    exact hseen
  rcases Run.next_cases hnext with ⟨host, rest, hready, rfl⟩ | ⟨⟨th, huser⟩, hready, rfl⟩
  · refine ⟨_, hdispatched.turn ht.holds ht.sound hseen' hready, ?_⟩
    unfold left
    rw [Run.now_turn, Run.ready_turn]
    dsimp only
    rw [Run.now_dispatch]
    by_cases hquiet : run.world.signals = []
    · rw [Run.dispatch_of_quiet hquiet] at hready
      have hready : run.world.ready = host :: rest := hready
      rw [hquiet, hready]
      exact .right _ (.right _ (Nat.lt_succ_self _))
    · obtain ⟨ps, done, later, hspans⟩ := h.stage.exists_spans
      have hle := hspans.signals_le
      have hpos := List.length_pos_of_ne_nil hquiet
      exact .right _ (.left _ _ (by omega))
  · have huser' : run.dispatch.user = .going th := (Run.user_dispatch run).trans huser
    obtain ⟨hkeeps, hlater⟩ := hdispatched.tick ht.holds ht.sound ht.sweeper
      (Run.signals_dispatch run) hready huser'
    have hstage := hkeeps.stage
    rw [Run.user_tick, huser'] at hstage
    have hnow := hstage.now_le
    rw [Run.now_tick] at hnow
    rw [Run.now_dispatch] at hlater
    refine ⟨_, hkeeps, .left _ _ ?_⟩
    rw [Run.now_tick]
    omega

/-- A run that keeps to the timetable goes on doing so. -/
theorem Keeps.go (h : t.Keeps r bound run) (ht : t.Runs r) (hseen : ∀ n, Seen r (run.go n).world)
    (n : Nat) : ∃ bound', t.Keeps r bound' (run.go n) := by
  induction n generalizing run bound with
  | zero => exact ⟨bound, h⟩
  | succ n ih =>
    have hshift := fun k => hseen (k + 1)
    rw [Run.go_succ]
    cases hnext : run.next with
    | none => exact ⟨_, h.dispatch⟩
    | some run' =>
      obtain ⟨bound', hkeeps, -⟩ := h.next ht (hseen 0) hnext
      refine ih hkeeps fun k => ?_
      have hlater := hshift k
      rwa [Run.go_succ, hnext] at hlater

/-- The user has his report in the end. -/
theorem Keeps.exists_ended {t : Timetable} {r : Roster} {bound : Nat} {run : Run RunReport}
    (h : t.Keeps r bound run) (ht : t.Runs r) (hseen : ∀ n, Seen r (run.go n).world) :
    ∃ n report, (run.go n).user = .ended report := by
  cases huser : run.user with
  | ended report => exact ⟨0, report, huser⟩
  | crashed text =>
    have hstage := h.stage
    rw [huser] at hstage
    cases hstage
  | stuck =>
    have hstage := h.stage
    rw [huser] at hstage
    cases hstage
  | going th =>
    obtain ⟨run', hnext⟩ := Run.exists_next huser
    obtain ⟨bound', hkeeps, hless⟩ := h.next ht (hseen 0) hnext
    have hshift : ∀ n, Seen r (run'.go n).world := fun n => by
      have hlater := hseen (n + 1)
      rwa [Run.go_succ, hnext] at hlater
    obtain ⟨n, report, hended⟩ := hkeeps.exists_ended ht hshift
    refine ⟨n + 1, report, ?_⟩
    rwa [Run.go_succ, hnext]
termination_by t.left bound run
decreasing_by exact hless

end Timetable

end Switchboard
