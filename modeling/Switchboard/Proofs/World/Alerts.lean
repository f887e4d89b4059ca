import Switchboard.Proofs.World.Notices
import Switchboard.Proofs.World.Rounds

/-!
# Everybody who can go on has his turn

* `Run.Alert` : whoever has something to do is lined up or about to be, and whoever is not cannot go
  on;
* `Run.Alert.dispatch`, `Run.Alert.turn`, `Run.Idle.tick` : so it stays from round to round;
* `Run.Idle`, `Run.Alert.idle` : when nobody is lined up nobody can go on.
-/

namespace Switchboard

namespace Run

variable {α : Type} {r r' : Run α} {host : Host} {rest : List Host}

/-- A host is lined up, or was told that he has something to do. -/
def Called (r : Run α) (h : Host) : Prop := h ∈ r.world.ready ∨ .wake h ∈ r.world.signals

/-- A thread was told something that it waits for, or it cannot go on. -/
def Settled {β : Type} (r : Run α) (t : Thread β) : Prop :=
  r.world.Stirs t ∨ t.Blocked r.world.bus r.world.now

end Run

namespace World

theorem tells_ready (w : World) (ready : List Host) : Tells w { w with ready } := .of_bus rfl rfl

theorem queue_deliverOne (w : World) : w.deliverOne.bus.queue = w.bus.queue.tail := by
  cases hqueue : w.bus.queue with
  | nil =>
    rw [w.deliverOne_of_nil hqueue]
    exact hqueue
  | cons m rest =>
    rw [deliverOne_eq w hqueue]
    exact Bus.queue_deliver _ m

/-- When messages are being delivered a turn leaves none. -/
theorem queue_deliverAll {w : World} (h : w.running = true) : w.deliverAll.bus.queue = [] := by
  have hfold : ∀ (ms : List Message) (w : World), ms.length = w.bus.queue.length →
      (ms.foldl (fun w _ => w.deliverOne) w).bus.queue = [] := by
    intro ms
    induction ms with
    | nil => exact fun w hlength => List.eq_nil_of_length_eq_zero hlength.symm
    | cons m ms ih =>
      intro w hlength
      refine ih _ ?_
      rw [queue_deliverOne, List.length_tail, ← hlength]
      rfl
  unfold deliverAll
  rw [if_pos h]
  exact hfold _ w rfl

end World

namespace Run

variable {α : Type} {r r' : Run α} {host : Host} {rest : List Host}

/-- Whoever has something to do is lined up, or about to be. -/
structure Alert (r : Run α) : Prop where
  queue : r.world.bus.queue ≠ [] → r.Called .delivery
  inbox : ∀ i, r.world.bus.HasMail i → r.Called (.lane i)
  runnable : ∀ x ∈ r.world.runnable, r.Called (.lane x.1)
  handlings : ∀ h ∈ r.world.handlings,
    (h.lane, h.number) ∈ r.world.runnable ∨ r.Settled h.thread
  user : ∀ t, r.user = .going t → r.Called .user ∨ r.Settled t

theorem Called.dispatch {h : Host} (hcalled : r.Called h) : r.dispatch.Called h :=
  .inl (hcalled.elim (fun hready => (lined_dispatch r).ready hready) mem_ready_dispatch)

/-- Somebody who is called stays so until his turn. -/
theorem Called.turn {h : Host} (hcalled : r.Called h) (hready : r.world.ready = host :: rest)
    (hrest : r'.world.ready = rest) (htells : World.Tells r.world r'.world) :
    h = host ∨ r'.Called h := by
  rcases hcalled with hmem | hsignal
  · rw [hready, ← hrest] at hmem
    exact (List.mem_cons.mp hmem).imp id .inl
  · exact .inr (.inr (htells.signals hsignal))

theorem Settled.turn {β : Type} {t : Thread β} (h : r.Settled t)
    (htells : World.Tells r.world r'.world) (hnow : r'.world.now = r.world.now) : r'.Settled t :=
  h.elim (fun h => .inl (h.tells htells)) fun h => h.tells htells hnow

theorem Lined.bus (h : Lined r r') : r'.world.bus = r.world.bus := by rw [h.frame]

theorem bus_dispatch (r : Run α) : r.dispatch.world.bus = r.world.bus := (lined_dispatch r).bus

namespace Alert

/-- Whatever was told wakes those who wait for it. -/
theorem dispatch (h : r.Alert) : r.dispatch.Alert where
  queue := fun hqueue => (h.queue (by rwa [bus_dispatch] at hqueue)).dispatch
  inbox := fun i hi => (h.inbox i (by rwa [bus_dispatch] at hi)).dispatch
  runnable := fun x hx =>
    ((lined_dispatch r).fresh x hx).elim (fun hx => (h.runnable x hx).dispatch) .inl
  handlings := fun x hx => by
    rw [handlings_dispatch] at hx
    rcases h.handlings x hx with hrunnable | ⟨s, hs, hwaits⟩ | hblocked
    · exact .inl ((lined_dispatch r).runnable hrunnable)
    · exact .inl (mem_runnable_dispatch hx hs hwaits)
    · exact .inr (.inr (by rwa [bus_dispatch, now_dispatch]))
  user := fun t ht => by
    rw [user_dispatch] at ht
    rcases h.user t ht with hcalled | ⟨s, hs, hwaits⟩ | hblocked
    · exact .inl hcalled.dispatch
    · exact .inl (.inl (user_mem_ready_dispatch ht hs hwaits))
    · exact .inr (.inr (by rwa [bus_dispatch, now_dispatch]))

/-- A host has its turn and tells what became possible. What it was called for is done: nothing is
left of the queue, or of what was in the lane, or the user has gone on as far as he can. -/
theorem turn (h : r.Alert) (hready : r.world.ready = host :: rest)
    (hrest : r'.world.ready = rest) (htells : World.Tells r.world r'.world)
    (hnow : r'.world.now = r.world.now)
    (hqueue : host = .delivery → r'.world.bus.queue = [])
    (hinbox : ∀ i, host = .lane i → r'.world.bus.HasMail i → r'.Called (.lane i))
    (hrunnable : ∀ x ∈ r'.world.runnable, x ∈ r.world.runnable ∧ host ≠ .lane x.1)
    (hhandlings : ∀ x ∈ r'.world.handlings,
      (x ∈ r.world.handlings ∧ ((x.lane, x.number) ∈ r.world.runnable →
        (x.lane, x.number) ∈ r'.world.runnable)) ∨ r'.Settled x.thread)
    (huser : ∀ t, r'.user = .going t → r.user = .going t ∧ host ≠ .user ∨ r'.Settled t) :
    r'.Alert where
  queue := fun hmore => by
    rcases htells.queue hmore with hold | hsignal
    · rcases (h.queue hold).turn hready hrest htells with heq | hcalled
      · exact absurd (hqueue heq.symm) hmore
      · exact hcalled
    · exact .inr hsignal
  inbox := fun i hi => by
    rcases htells.inbox i hi with hold | hsignal
    · rcases (h.inbox i hold).turn hready hrest htells with heq | hcalled
      · exact hinbox i heq.symm hi
      · exact hcalled
    · exact .inr hsignal
  runnable := fun x hx => by
    obtain ⟨hold, hother⟩ := hrunnable x hx
    exact ((h.runnable x hold).turn hready hrest htells).resolve_left fun heq => hother heq.symm
  handlings := fun x hx => by
    rcases hhandlings x hx with ⟨hold, hstays⟩ | hsettled
    · exact (h.handlings x hold).imp hstays fun hsettled => hsettled.turn htells hnow
    · exact .inr hsettled
  user := fun t ht => by
    rcases huser t ht with ⟨hold, hother⟩ | hsettled
    · rcases h.user t hold with hcalled | hsettled
      · exact .inl ((hcalled.turn hready hrest htells).resolve_left fun heq => hother heq.symm)
      · exact .inr (hsettled.turn htells hnow)
    · exact .inr hsettled

/-- A turn of a host that is neither the user nor a lane. -/
theorem turn_of_stage (h : r.Alert) (hready : r.world.ready = host :: rest) {w : World}
    (htells : World.Tells r.world w) (hstage : w.stage = { r.world.stage with ready := rest })
    (hqueue : host = .delivery → w.bus.queue = []) (hlane : ∀ i, host ≠ .lane i)
    (huser : host ≠ .user) : Alert { r with world := w } := by
  have hrunnable : w.runnable = r.world.runnable := congrArg World.Stage.runnable hstage
  have hhandlings : w.handlings = r.world.handlings := congrArg World.Stage.handlings hstage
  refine h.turn hready (congrArg World.Stage.ready hstage) htells (congrArg World.Stage.now hstage)
    hqueue (fun i hi => absurd hi (hlane i)) (fun x hx => ⟨hrunnable ▸ hx, hlane x.1⟩) ?_
    fun t ht => .inl ⟨ht, huser⟩
  refine fun x hx => .inl ⟨hhandlings ▸ hx, fun hmem => ?_⟩
  change _ ∈ w.runnable
  rwa [hrunnable]

/-- The messages of the queue are delivered. -/
theorem deliver (h : r.Alert) (hready : r.world.ready = .delivery :: rest)
    (hrunning : r.world.running = true) :
    (Run.turn { r with world := { r.world with ready := rest } } .delivery).Alert :=
  h.turn_of_stage hready
    ((World.tells_ready r.world rest).trans (World.tells_deliverAll _))
    (World.stage_deliverAll _) (fun _ => World.queue_deliverAll hrunning) nofun nofun

/-- The periodic sweep runs. -/
theorem sweep (h : r.Alert) (hready : r.world.ready = .sweep :: rest) :
    (Run.turn { r with world := { r.world with ready := rest } } .sweep).Alert :=
  h.turn_of_stage hready
    ((World.tells_ready r.world rest).trans (World.tells_sweepNow _))
    (World.stage_sweepNow _) nofun nofun nofun

end Alert

/-! ## Nobody is lined up -/

/-- When nobody is lined up nobody can go on. -/
structure Idle (r : Run α) : Prop where
  queue : r.world.bus.queue = []
  inbox : ∀ i, ¬ r.world.bus.HasMail i
  runnable : r.world.runnable = []
  handlings : ∀ h ∈ r.world.handlings, h.thread.Blocked r.world.bus r.world.now
  user : ∀ t, r.user = .going t → t.Blocked r.world.bus r.world.now

theorem Alert.idle (h : r.Alert) (hsignals : r.world.signals = []) (hready : r.world.ready = []) :
    Idle r := by
  have hnobody : ∀ host, ¬ r.Called host := by
    rintro host (hmem | hmem)
    · rw [hready] at hmem
      cases hmem
    · rw [hsignals] at hmem
      cases hmem
  have hblocked : ∀ {β : Type} {t : Thread β}, r.Settled t →
      t.Blocked r.world.bus r.world.now := by
    rintro β t (⟨s, hs, -⟩ | hblocked)
    · rw [hsignals] at hs
      cases hs
    · exact hblocked
  have hrunnable : r.world.runnable = [] :=
    List.eq_nil_iff_forall_not_mem.mpr fun x hx => hnobody _ (h.runnable x hx)
  refine ⟨?_, fun i hi => hnobody _ (h.inbox i hi), hrunnable, fun x hx => ?_, fun t ht => ?_⟩
  · exact Classical.byContradiction fun hqueue => hnobody _ (h.queue hqueue)
  · refine hblocked ((h.handlings x hx).resolve_left fun hmem => ?_)
    rw [hrunnable] at hmem
    cases hmem
  · exact hblocked ((h.user t ht).resolve_left (hnobody _))

/-- Time passes, and wakes those whose alarms are due. -/
theorem Idle.tick (h : Idle r) (time : Nat) : (r.tick time).Alert := by
  have hbus : (r.tick time).world.bus = r.world.bus := (lined_tick r time).bus
  have hhandlings : (r.tick time).world.handlings = r.world.handlings :=
    (lined_tick r time).handlings
  refine ⟨fun hqueue => ?_, fun i hi => ?_, fun x hx => ?_, fun x hx => ?_, fun t ht => ?_⟩
  · rw [hbus] at hqueue
    exact absurd h.queue hqueue
  · rw [hbus] at hi
    exact absurd hi (h.inbox i)
  · rcases (lined_tick r time).fresh x hx with hold | hready
    · rw [show (r.setClock time).world.runnable = [] from h.runnable] at hold
      cases hold
    · exact .inl hready
  · rw [hhandlings] at hx
    rcases (h.handlings x hx).later time with hblocked | ⟨p, hp, a, ha, hdue⟩
    · exact .inr (.inr (by rwa [hbus, now_tick]))
    · exact .inl (mem_runnable_tick hx hp ha hdue)
  · rw [user_tick] at ht
    rcases (h.user t ht).later time with hblocked | ⟨p, hp, a, ha, hdue⟩
    · exact .inr (.inr (by rwa [hbus, now_tick]))
    · exact .inl (.inl (user_mem_ready_tick ht hp ha hdue))

end Run

end Switchboard
