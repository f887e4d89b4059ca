import Switchboard.Proofs.Timetable.Keeping

/-!
# Requests run to their timetables

* `World.AtRest` : a network that the user keeps, on which nothing goes on;
* `Timetable.Follows` : a run goes as the timetable says, from the first wave to the report;
* `Orchestrator.follows_timetable` : so does every request on a network at rest, each of whose
  capabilities has one provider;
* `Orchestrator.workshop`, `Orchestrator.order` : an order in four waves, one of whose steps is done
  behind a breaker, one out of time, one with little time left, and one not at all.
-/

namespace Switchboard

/-- A network that the user keeps, which is running, and on which nothing goes on. -/
structure World.AtRest (w : World) : Prop where
  owned : w.owned = true
  running : w.running = true
  gone : w.gone = false
  queue : w.bus.queue = []
  inbox : ∀ lane ∈ w.bus.lanes, lane.inbox = []
  handlings : w.handlings = []
  runnable : w.runnable = []
  waiting : w.bus.gate.waiting = []
  granted : w.bus.gate.granted = []
  places : 0 < w.bus.gate.places
  table : w.bus.collector.Sound
  lanes : ∀ lane ∈ w.bus.lanes, lane.agent < w.actors.length
  sweeper : ∀ s ∈ w.sweeper, 0 < s.interval

namespace Timetable

/-- A message asks for a step, whose provider is the one of the timetable. -/
def Requests (t : Timetable) (x : Slot) (m : Message) : Prop :=
  ∃ data, (t.dispatched x data).Requests m

/-- A step of a wave that began at a time: when its time is up, and not before, it has ended as it
should. -/
def Timely (t : Timetable) (now time : Nat) (c : String) : Branch → Prop
  | .ended o => o = t.outcome time c ∧ t.stop time c ≤ now
  | .going _ => time ≤ now ∧ now ≤ t.stop time c

/-- A run goes as the timetable says. -/
structure Follows (t : Timetable) (run : Run RunReport) : Prop where
  /-- The user has his report in the end. -/
  returns : ∃ n report, (run.go n).user = .ended report
  /-- That is when the last wave ends; and the report says how each step ended. -/
  report : ∀ n report, (run.go n).user = .ended report →
    (run.go n).world.now = t.finish t.start t.graph.plan.waves ∧
      report.history = t.all.map (fun x => (t.entry x).toJson) ∧
      report.timedOut = (t.all.filter t.late).map (·.capability)
  /-- Each step of a wave that begins before the deadline sends its request when the wave begins. -/
  sends : ∀ x ∈ t.all, x.time < t.deadline →
    ∃ n, ∃ m ∈ (run.go n).world.bus.queue, t.Requests x m ∧ (run.go n).world.now = x.time
  /-- Nothing else is asked of anybody. -/
  only : ∀ n, ∀ m ∈ (run.go n).world.bus.queue, m.kind.isReply = false →
    ∃ x ∈ t.all, x.time < t.deadline ∧ t.Requests x m ∧ (run.go n).world.now = x.time
  /-- The steps that the user waits for are those of a wave, and each ends at its time. -/
  waits : ∀ n th branches, (run.go n).user = .going th → th.wave = some branches →
    ∃ k time wave, waveSlots k time wave <:+: t.all ∧ time < t.deadline ∧
      List.Forall₂ (t.Timely (run.go n).world.now time) wave branches
  /-- Time passes only while the user waits. -/
  clock : ∀ n, (run.go (n + 1)).world.now = (run.go n).world.now ∨
    (run.go (n + 1)).user = (run.go n).user

/-- In some round the request of a step is in the queue, at the time of the step. -/
def SeenIn (run : Run RunReport) (y : Assignment) : Prop :=
  ∃ n, ∃ m ∈ (run.go n).world.bus.queue, y.Requests m ∧ (run.go n).world.now = y.time

variable {t : Timetable} {r : Roster} {bound : Nat} {run : Run RunReport}

/-- The steps of a wave end at their times. -/
theorem Within.timely {w : World} {n time : Nat} {wave : List String} {waves : List (List String)}
    {p : Progress} {ps : List (Assignment × Branch)} {done : List Slot}
    (h : t.Within r bound w n time wave waves p ps done) :
    List.Forall₂ (t.Timely w.now time) wave (ps.map (·.2)) := by
  obtain ⟨-, ys, k, -, hcovers, -⟩ := h.spans
  have hsteps : List.Forall₂ (fun (q : Assignment × Branch) c =>
      q.1 = t.dispatched ⟨n, time, c⟩ (t.data p c)) ps wave := by
    have hsame : List.Forall₂ Eq (ps.map (·.1))
        (wave.map fun c => t.dispatched ⟨n, time, c⟩ (t.data p c)) := by
      rw [List.forall₂_eq_eq_eq]
      exact h.steps
    rwa [List.forall₂_map_left_iff, List.forall₂_map_right_iff] at hsame
  have hall := (List.forall₂_and_left ps wave).mpr ⟨fun q hq => (hcovers.steps q hq).2, hsteps⟩
  refine List.forall₂_map_right_iff.mpr (hall.flip.imp ?_)
  rintro c ⟨x, b⟩ ⟨hat, hx⟩
  obtain rfl : x = t.dispatched ⟨n, time, c⟩ (t.data p c) := hx
  cases b with
  | ended o =>
    have hat : (t.dispatched ⟨n, time, c⟩ (t.data p c)).At w.now w.bus.collector _ (.ended o) := hat
    cases hat with
    | ended hstop => exact ⟨outcome_dispatched h.begun _, hstop⟩
  | going strand => exact ⟨h.since, hat.le_stop⟩

/-- A run that keeps to the timetable goes as it says. -/
theorem Keeps.follows (h : t.Keeps r bound run) (ht : t.Runs r) (hseen : r.seen = SeenIn run) :
    t.Follows run := by
  have hall : ∀ n, Seen r (run.go n).world := fun n m hm y hrequests hnow => by
    rw [hseen]
    exact ⟨n, m, hm, hrequests, hnow⟩
  have hstage : ∀ n, ∃ bound', t.Stage r bound' (run.go n).world (run.go n).user := fun n =>
    (h.go ht hall n).imp fun _ hkeeps => hkeeps.stage
  have hended := h.exists_ended ht hall
  exact
    { returns := hended
      report := fun n report huser => by
        obtain ⟨bound', hstage⟩ := hstage n
        rw [huser] at hstage
        cases hstage with
        | ended hspans hrecords hnow =>
          refine ⟨hnow, ?_, hrecords.timedOut⟩
          change List.map _ _ = _
          rw [hrecords.history, List.map_map]
          rfl
      sends := fun x hx hbegins => by
        obtain ⟨n, report, huser⟩ := hended
        obtain ⟨bound', hstage⟩ := hstage n
        rw [huser] at hstage
        cases hstage with
        | ended hspans hrecords hnow =>
          obtain ⟨ys, k, hys, hsound, hcovers, -⟩ := hspans.exists_roster ht.holds ht.sound
          obtain ⟨y, hy, data, rfl⟩ :=
            hys.slots x (List.mem_filter.mpr ⟨hx, decide_eq_true hbegins⟩)
          have hmine : r.seen (t.dispatched x data) := by
            rcases hcovers.seen _ hy with hmine | ⟨m, hm, hrequests⟩ | ⟨b, hb, -⟩
            · exact hmine
            · exact seen_of_covers (hall n) hsound hcovers m hm _ hy hrequests
            · cases hb
          rw [hseen] at hmine
          obtain ⟨n, m, hm, hrequests, hnow⟩ := hmine
          exact ⟨n, m, hm, ⟨data, hrequests⟩, hnow⟩
      only := fun n m hm hreply => by
        obtain ⟨bound', hstage⟩ := hstage n
        obtain ⟨ps, done, later, hsplit, ys, k, hys, hcovers, -⟩ := hstage.exists_spans
        obtain ⟨y, hy, hasks | hanswers⟩ := hcovers.queue m hm
        · obtain ⟨x, hx, data, rfl⟩ := hys.steps y hy
          obtain ⟨hx, hbegins⟩ := List.mem_filter.mp hx
          refine ⟨x, ?_, of_decide_eq_true hbegins, ⟨data, hasks.1⟩, hasks.2⟩
          rw [← hsplit]
          exact List.mem_append_left _ hx
        · rw [hanswers.1.isReply] at hreply
          cases hreply
      waits := fun n th branches huser hwave => by
        obtain ⟨bound', hstage⟩ := hstage n
        rw [huser] at hstage
        cases hstage with
        | begins => cases hwave
        | @waits k time wave waves p ps done hwithin =>
          obtain rfl := Option.some.inj hwave
          exact ⟨k, time, wave, ⟨done, _, hwithin.spans.split⟩, hwithin.begun, hwithin.timely⟩
      clock := run.now_go_succ }

end Timetable

/-! ## Networks at rest -/

section AtRest

variable {w : World} {seen : Assignment → Prop}

/-- A network at rest, on which no step was dispatched yet. -/
def World.roster (w : World) (seen : Assignment → Prop) : Roster :=
  ⟨w.grounds, w.breaker, w.bus.gate.places, [], seen⟩

theorem World.AtRest.sound (h : w.AtRest) : (w.roster seen).Sound where
  owned := h.owned
  running := h.running
  gone := h.gone
  places := h.places
  lanes := fun a ha => by
    obtain ⟨lane, hlane, rfl⟩ := List.mem_map.mp ha
    have hlength : w.grounds.agents.length = w.actors.length := List.length_map _
    exact hlength ▸ h.lanes lane hlane
  provides := List.forall_mem_nil _
  free := List.forall_mem_nil _
  clear := List.forall_mem_nil _
  ids := List.nodup_nil
  capabilities := List.nodup_nil
  admits := List.forall_mem_nil _

theorem World.AtRest.covers (h : w.AtRest) : (w.roster seen).Covers w.load w [] where
  grounds := rfl
  queue := by
    rw [h.queue]
    exact nofun
  inbox := fun i lane hlane m hm => by
    rw [h.inbox lane (List.mem_of_getElem? hlane)] at hm
    cases hm
  handlings := by
    rw [h.handlings]
    exact nofun
  numbers := by
    rw [h.handlings]
    exact ⟨List.nodup_nil, nofun⟩
  distinct := List.nodup_nil
  steps := List.forall_mem_nil _
  table := h.table
  places := by
    have htickets : Roster.tickets w.handlings [] = [] := by
      rw [h.handlings]
      rfl
    rw [h.queue, htickets]
    refine ⟨?_, fun hne => absurd h.waiting hne, ?_, nofun⟩
    · rw [h.granted]
      rfl
    · rw [h.waiting, h.granted]
      exact .refl _
  seen := List.forall_mem_nil _
  guards := ⟨List.forall_mem_nil _, fun _ _ _ => rfl⟩
  load := Nat.le_refl _

/-- The user is about to run a program on a network at rest. -/
theorem World.AtRest.alert (h : w.AtRest) {α : Type} (p : Program α) (limit : Nat) :
    (Run.start w p limit).Alert := by
  have hlined := Run.lined_wakeHost ⟨w, .going { code := p }, limit⟩ .user
  have hbus : (Run.start w p limit).world.bus = w.bus := hlined.bus
  have hrunnable : (Run.start w p limit).world.runnable = [] :=
    (Run.runnable_wakeHost _ _).trans h.runnable
  have hhandlings : (Run.start w p limit).world.handlings = [] :=
    hlined.handlings.trans h.handlings
  refine ⟨fun hqueue => ?_, ?_, ?_, ?_, fun th hth => .inl (.inl (Run.mem_ready_wakeHost _ _))⟩
  · rw [hbus] at hqueue
    exact absurd h.queue hqueue
  · rintro i ⟨lane, hlane, hmail⟩
    rw [hbus] at hlane
    exact absurd (h.inbox lane (List.mem_of_getElem? hlane)) hmail
  · rw [hrunnable]
    exact nofun
  · rw [hhandlings]
    exact nofun

end AtRest

namespace Orchestrator

/-- The timetable of a request that is run on a network, whose capabilities are asked of these
providers. -/
def timetable (o : Orchestrator) (r : GraphRequest) (w : World) (posts : String → Post) :
    Timetable :=
  ⟨o, r, w.bus.directory.sorted, w.now, posts⟩

/-- **Requests run to their timetables.** On a network at rest each kept capability has one provider,
whose handler takes a known time and ends in a known way, given what the breaker of the capability, if
there is one, says to the call. Then a request sends its steps wave by wave, each wave when the last
step of the one before has ended; each step ends when its handler has ended, or when it is out of time;
and the report says how. -/
theorem follows_timetable {o : Orchestrator} {r : GraphRequest} (hg : CapabilityGraph.Built r.graph)
    {w : World} (hw : w.AtRest) {posts : String → Post}
    (hprovides : ∀ c ∈ (r.kept w.bus.directory.sorted).names, w.grounds.Provides c (posts c))
    (hclear : ∀ x ∈ (o.timetable r w posts).all, x.time < (o.timetable r w posts).deadline →
      (posts x.capability).delay ≠ (o.timetable r w posts).budget x.time)
    (hadmits : ∀ x ∈ (o.timetable r w posts).all, x.time < (o.timetable r w posts).deadline →
      NamedBreaker.admission (w.breaker (posts x.capability).agent x.capability) x.time =
        (posts x.capability).admission)
    {limit : Nat} (hlimit : w.now + o.requestTimeout < limit) :
    (o.timetable r w posts).Follows (Run.start w (o.execute r) limit) := by
  let t := o.timetable r w posts
  let run := Run.start w (o.execute r) limit
  have hlined := Run.lined_wakeHost ⟨w, .going { code := o.execute r }, limit⟩ .user
  have hruns : t.Runs (w.roster (Timetable.SeenIn run)) :=
    { holds :=
        ⟨rfl, CapabilityGraph.nodup_names_retain hg.nodup_names _, hprovides, hclear, hadmits⟩
      sound := hw.sound
      sweeper := hw.sweeper }
  have hnone : t.Dispatched [] [] := ⟨List.forall_mem_nil _, List.forall_mem_nil _, rfl⟩
  have hcovers : (w.roster (Timetable.SeenIn run)).Covers w.load run.world [] :=
    hw.covers.lined hlined
  have hkeeps : t.Keeps (w.roster (Timetable.SeenIn run)) (w.load + 9 * t.all.length) run :=
    { alert := hw.alert _ limit
      limit := by
        rw [show run.limit = limit from hlined.limit]
        exact hlimit
      stage := by
        rw [show run.user = .going { code := o.execute r } from hlined.user]
        refine .begins ⟨rfl, [], w.load, hnone, hcovers, Nat.le_refl _⟩ hlined.now }
  exact hkeeps.follows hruns rfl

/-- Something that takes a number of milliseconds and ends in this way, perhaps behind breakers. -/
structure Chore where
  capability : String
  delay : Nat
  verdict : Verdict
  breakers : Option BreakerPolicy
  deriving Inhabited

namespace Chore

def work (c : Chore) : Routine (Except Fault Json) :=
  .ask (.pause c.delay) fun _ => match c.verdict with
    | .ok result => .done result
    | .error text => .crash text

/-- An agent that does nothing else. -/
def worker (c : Chore) : Agent :=
  .offering c.capability [⟨⟨c.capability, ""⟩, fun _ _ => c.work⟩] "" c.breakers

/-- The agent, which has a number. -/
def post (c : Chore) (agent : Nat) : Post :=
  ⟨c.capability, agent, agent, .ok ⟨.normal, 0⟩, c.delay, c.verdict⟩

theorem takes_work (c : Chore) (agent : Nat) (capability : String) :
    c.work.Takes agent capability c.verdict c.delay := by
  obtain ⟨name, delay, verdict, breakers⟩ := c
  refine .pause (d := 0) delay ?_
  cases verdict with
  | ok result => exact .done result
  | error text => exact .crash text

theorem performs_worker (c : Chore) (agent : Nat) :
    c.worker.Performs agent c.capability (.ok ⟨.normal, 0⟩) c.delay c.verdict :=
  Agent.performs_offering (c := ⟨⟨c.capability, ""⟩, fun _ _ => c.work⟩) (by simp [Agent.find?])
    (fun _ => c.takes_work agent c.capability) fun _ => ⟨_, rfl⟩

end Chore

/-- What there is to do for an order. Gluing is done behind a breaker, and fails. -/
def chores : List Chore :=
  [⟨"cut", 30, .ok (.ok (.str "cut")), none⟩,
    ⟨"glue", 20, .ok (.error (.agent "no glue")), some ⟨3, 1000, 1⟩⟩,
    ⟨"paint", 110, .ok (.ok (.str "painted")), none⟩,
    ⟨"pack", 50, .error "no box", none⟩,
    ⟨"ship", 10, .ok (.ok (.str "shipped")), none⟩]

/-- A network with an agent for each chore. -/
def workshop : World :=
  (chores.foldl (fun w c => (w.create c.worker).1.register (w.create c.worker).2)
    (World.opened {})).start

/-- Whom a capability is asked of. -/
def helper (capability : String) : Post :=
  let number := chores.findIdx (·.capability == capability)
  (chores.getD number default).post number

/-- An order. -/
def order : GraphRequest where
  requestId := "r"
  graph := ((((({} : CapabilityGraph).add "cut" []).add "glue" []).add "paint" ["cut", "glue"]).add
    "pack" ["paint"]).add "ship" ["pack"]

theorem sorted_workshop : workshop.bus.directory.sorted =
    ["cut", "glue", "pack", "paint", "ship"].map fun c => (c, [c]) := by
  have hentries : workshop.bus.directory.entries =
      chores.map fun c => (c.capability, [c.capability]) := by decide +kernel
  rw [Directory.sorted, hentries]
  simp [chores, List.mergeSort, List.MergeSort.Internal.splitInTwo]

theorem provides_workshop :
    ∀ c ∈ chores, workshop.grounds.Provides c.capability (helper c.capability) := by
  intro c hc
  refine ⟨?_, ?_, ?_, ?_⟩
  · revert c
    decide +kernel
  · revert c
    decide +kernel
  · revert c
    decide +kernel
  · simp only [chores, List.mem_cons, List.not_mem_nil, or_false] at hc
    obtain rfl | rfl | rfl | rfl | rfl := hc <;> exact ⟨_, rfl, rfl, Chore.performs_worker _ _⟩

theorem atRest_workshop : workshop.AtRest where
  owned := rfl
  running := rfl
  gone := rfl
  queue := rfl
  inbox := by decide +kernel
  handlings := rfl
  runnable := rfl
  waiting := rfl
  granted := rfl
  places := by decide +kernel
  table := Collector.sound_empty
  lanes := by decide +kernel
  sweeper := by decide +kernel

/-- Painting takes too long, for packing there is little time left, and shipping is not begun. -/
theorem follows_timetable_workshop :
    let o : Orchestrator := ⟨"o", 100, 150⟩
    let t := o.timetable order workshop helper
    CapabilityGraph.Built order.graph ∧ workshop.AtRest ∧
      (∀ c ∈ (order.kept workshop.bus.directory.sorted).names,
        workshop.grounds.Provides c (helper c)) ∧
      (∀ x ∈ t.all, x.time < t.deadline → (helper x.capability).delay ≠ t.budget x.time) ∧
      (∀ x ∈ t.all, x.time < t.deadline →
        NamedBreaker.admission (workshop.breaker (helper x.capability).agent x.capability) x.time =
          (helper x.capability).admission) ∧
      workshop.now + o.requestTimeout < World.userPatience ∧
      t.all.map (fun x => (x.wave, x.capability, x.time, t.stop x.time x.capability, t.late x)) =
        [(0, "cut", 0, 30, false), (0, "glue", 0, 20, false), (1, "paint", 30, 130, true),
          (2, "pack", 130, 150, true), (3, "ship", 150, 150, true)] ∧
      t.Follows (Run.start workshop (o.execute order) World.userPatience) := by
  intro o t
  have hg : CapabilityGraph.Built order.graph :=
    .add (.add (.add (.add (.add .empty _ _) _ _) _ _) _ _) _ _
  have ht : t = ⟨o, order, ["cut", "glue", "pack", "paint", "ship"].map fun c => (c, [c]), 0,
      helper⟩ := by
    rw [← sorted_workshop]
    rfl
  have hnames : (order.kept workshop.bus.directory.sorted).names =
      chores.map (·.capability) := by
    rw [sorted_workshop]
    decide +kernel
  have hprovides : ∀ c ∈ (order.kept workshop.bus.directory.sorted).names,
      workshop.grounds.Provides c (helper c) := by
    rw [hnames]
    exact List.forall_mem_map.mpr provides_workshop
  have hclear : ∀ x ∈ t.all, x.time < t.deadline →
      (helper x.capability).delay ≠ t.budget x.time := by
    rw [ht]
    decide +kernel
  have hadmits : ∀ x ∈ t.all, x.time < t.deadline →
      NamedBreaker.admission (workshop.breaker (helper x.capability).agent x.capability) x.time =
        (helper x.capability).admission := by
    rw [ht]
    decide +kernel
  have hlimit : workshop.now + o.requestTimeout < World.userPatience := by decide +kernel
  refine ⟨hg, atRest_workshop, hprovides, hclear, hadmits, hlimit, ?_,
    follows_timetable hg atRest_workshop hprovides hclear hadmits hlimit⟩
  rw [ht]
  decide +kernel

end Orchestrator

end Switchboard
