import Mathlib.Data.List.Forall2
import Switchboard.Proofs.Orchestrate.Deadlines
import Switchboard.Proofs.Timetable.Pauses
import Switchboard.Proofs.Timetable.Timetables

/-!
# The user follows the timetable

* `Timetable.Holds` : the capabilities of a request are provided as the timetable has it;
* `Timetable.Spans` : the steps of some waves were dispatched, and those of the others will be;
* `Timetable.Within`, `Timetable.Stage` : a wave is under way; how far the user has come;
* `Timetable.Within.leaves` : the steps of the wave have their turns, and the next waves follow when
  all have ended; `Timetable.goes` : he goes on with waves, one after another;
* `Timetable.Stage.leaves` : the user goes on as far as he can.
-/

namespace Switchboard

namespace Roster

variable {r : Roster} {n : Nat} {w : World} {ps : List (Assignment × Branch)}
  {xs new : List Assignment}

/-- Nobody stands in line for the steps of a wave. -/
theorem tickets_of_forall_none {hs : List Handling} (h : ∀ p ∈ ps, p.2.parking.ticket = none) :
    tickets hs ps = tickets hs [] := by
  unfold tickets
  rw [List.filterMap_eq_nil_iff.mpr h]
  rfl

/-- The branches of steps that are about to begin. -/
def openings (new : List Assignment) : List (Assignment × Branch) :=
  new.map fun x => (x, .going { code := x.call.run })

theorem fst_openings (new : List Assignment) : (openings new).map (·.1) = new := by
  rw [openings, List.map_map]
  exact List.map_id new

theorem load_openings (new : List Assignment) :
    ((openings new).map (·.2.load)).sum = 9 * new.length := by
  induction new with
  | nil => rfl
  | cons x new ih =>
    rw [List.length_cons, Nat.mul_succ, ← ih, Nat.add_comm]
    rfl

/-- Each step of a wave that is about to begin has a request yet to send. -/
theorem requests_openings (x : Assignment) (w : World) (new : List Assignment) :
    x.requests w (openings new) =
      x.requests w [] + (new.map (·.call.requestId)).count x.call.requestId := by
  have hcount : ((openings new).map fun p =>
      if p.1.call.requestId = x.call.requestId then p.2.unsent else 0).sum =
        (new.map (·.call.requestId)).count x.call.requestId := by
    induction new with
    | nil => rfl
    | cons y new ih =>
      rw [openings, List.map_cons, List.map_cons, List.sum_cons, List.map_cons, List.count_cons,
        ← ih, Nat.add_comm]
      simp only [beq_iff_eq]
      rfl
  unfold Assignment.requests
  rw [hcount]
  rfl

/-- Nobody asks for a step that is not in the roster yet. -/
theorem Covers.requests_eq_zero (h : { r with steps := xs }.Covers n w [])
    (hr : { r with steps := xs ++ new }.Sound) {x : Assignment} (hx : x ∈ new) :
    x.requests w [] = 0 := by
  have hmem : x ∈ xs ++ new := List.mem_append_right _ hx
  have hold : ∀ y ∈ xs, y ≠ x ∧ y.call.requestId ≠ x.call.requestId := fun y hy => by
    have hids := hr.ids
    rw [List.map_append] at hids
    have hid := (List.nodup_append.mp hids).2.2 _ (List.mem_map_of_mem hy) _
      (List.mem_map_of_mem hx)
    exact ⟨fun heq => hid (congrArg (·.call.requestId) heq), hid⟩
  have hasks : ∀ y ∈ xs, ∀ m, y.Asks w.now m → x.asked m = 0 := fun y hy m hm =>
    Assignment.asked_of_id_ne (id_of_requests hm.1 ▸ (hold y hy).2)
  have hqueue : (w.bus.queue.map x.asked).sum = 0 := x.sum_asked_eq_zero fun m hm => by
    obtain ⟨y, hy, hm | hm⟩ := h.queue m hm
    · exact hasks y hy m hm
    · exact Assignment.asked_of_isReply hm.1.isReply
  have hlanes : mailSum x.asked w.bus.lanes = 0 := by
    refine List.sum_eq_zero_iff_forall_eq_nat.mpr (List.forall_mem_map.mpr fun lane hlane => ?_)
    obtain ⟨i, hi⟩ := List.mem_iff_getElem?.mp hlane
    refine x.sum_asked_eq_zero fun m hm => ?_
    rcases h.inbox i lane hi m hm with hreply | ⟨y, hy, hm, -⟩
    · exact Assignment.asked_of_isReply hreply
    · exact hasks y hy m hm
  have hhandlings : (w.handlings.map fun h₁ => x.served w.now h₁.thread).sum = 0 := by
    refine List.sum_eq_zero_iff_forall_eq_nat.mpr (List.forall_mem_map.mpr fun h₁ hh => ?_)
    refine Assignment.served_of_not_serving fun hserving => ?_
    obtain ⟨y, hy, hs⟩ := (h.handlings h₁ hh).resolve_left fun hnoting =>
      not_serving_of_noting hnoting hserving
    exact (hold y hy).1 (hr.eq_of_serving (List.mem_append_left _ hy) hmem hs hserving)
  unfold Assignment.requests
  rw [hqueue, hlanes, hhandlings]
  rfl

/-- The steps of a wave that is about to begin have one request each, and nobody serves it. -/
theorem Guards.begin (h : { r with steps := xs }.Covers n w [])
    (hr : { r with steps := xs ++ new }.Sound) :
    { r with steps := xs ++ new }.Guards w (openings new) := by
  have hids := hr.ids
  rw [List.map_append] at hids
  have hcount : ∀ x ∈ xs, (new.map (·.call.requestId)).count x.call.requestId = 0 := fun x hx =>
    List.count_eq_zero.mpr fun hmem =>
      (List.nodup_append.mp hids).2.2 _ (List.mem_map_of_mem hx) _ hmem rfl
  refine ⟨fun x hx => ?_, fun agent capability hall => ?_⟩
  · rw [requests_openings]
    rcases List.mem_append.mp hx with hx | hx
    · rw [hcount x hx]
      exact h.guards.once x hx
    · rw [h.requests_eq_zero hr hx, Nat.zero_add]
      exact List.nodup_iff_count_le_one.mp (List.nodup_append.mp hids).2.1 _
  · refine h.guards.breakers agent capability fun x hx hbehind => ?_
    obtain ⟨hpos, hbegun⟩ := hall x (List.mem_append_left _ hx) hbehind
    rw [requests_openings, hcount x hx] at hpos
    exact ⟨hpos, hbegun⟩

/-- The steps of a wave are about to begin. -/
theorem Covers.begin (h : { r with steps := xs }.Covers n w [])
    (hr : { r with steps := xs ++ new }.Sound) (htime : ∀ x ∈ new, w.now = x.time) :
    { r with steps := xs ++ new }.Covers (n + 9 * new.length) w (openings new) := by
  have hold : ∀ x ∈ xs, x ∈ xs ++ new := fun x hx => List.mem_append_left _ hx
  have hnew : new.Nodup := (List.nodup_append.mp (List.Nodup.of_map _ hr.ids)).2.1
  refine
    { grounds := h.grounds
      queue := fun m hm => (h.queue m hm).imp fun x hx => ⟨hold x hx.1, hx.2⟩
      inbox := fun i lane hlane m hm =>
        (h.inbox i lane hlane m hm).imp id fun ⟨x, hx, hasks⟩ => ⟨x, hold x hx, hasks⟩
      handlings := fun h₁ hh =>
        (h.handlings h₁ hh).imp id fun ⟨x, hx, hserving⟩ => ⟨x, hold x hx, hserving⟩
      numbers := h.numbers
      distinct := (fst_openings new).symm ▸ hnew
      steps := fun p hp => ?_
      table := h.table
      places := ?_
      seen := fun x hx => ?_
      guards := .begin h hr
      load := ?_ }
  · obtain ⟨x, hx, rfl⟩ := List.mem_map.mp hp
    exact ⟨List.mem_append_right _ hx, .fresh (htime x hx)⟩
  · rw [tickets_of_forall_none]
    · exact h.places
    · exact List.forall_mem_map.mpr fun x _ => rfl
  · rcases List.mem_append.mp hx with hx | hx
    · exact (h.seen x hx).imp id (Or.imp id fun ⟨b, hb, _⟩ => nomatch hb)
    · exact .inr (.inr ⟨_, List.mem_map.mpr ⟨x, hx, rfl⟩, Nat.succ_pos 8⟩)
  · have hload := h.load
    rw [load_openings]
    exact Nat.add_le_add_right hload _

/-- The steps of a wave have ended. -/
theorem Covers.close (h : r.Covers n w ps) (hended : ∀ p ∈ ps, ∃ o, p.2 = .ended o) :
    r.Covers n w [] where
  grounds := h.grounds
  queue := h.queue
  inbox := h.inbox
  handlings := h.handlings
  numbers := h.numbers
  distinct := List.nodup_nil
  steps := List.forall_mem_nil _
  table := h.table
  places := by
    have hplaces := h.places
    rwa [tickets_of_forall_none fun p hp => ?_] at hplaces
    obtain ⟨o, ho⟩ := hended p hp
    rw [ho]
    rfl
  seen := fun x hx => by
    refine (h.seen x hx).imp id (Or.imp id ?_)
    rintro ⟨b, hb, hunsent⟩
    obtain ⟨o, rfl⟩ := hended _ hb
    exact absurd hunsent (Nat.lt_irrefl 0)
  guards := h.guards.mono rfl (fun x _ => Nat.add_le_add_left (Nat.zero_le _) _)
    fun x _ h₁ hh hs => ⟨hh, hs⟩
  load := Nat.le_trans (Nat.add_le_add_left (Nat.zero_le _) _) h.load

end Roster

namespace Timetable

/-! ## Steps of the timetable -/

/-- A step that is dispatched, with whatever data. -/
def Is (t : Timetable) (x : Slot) (y : Assignment) : Prop := ∃ data, y = t.dispatched x data

/-- Exactly these steps were dispatched. -/
structure Dispatched (t : Timetable) (xs : List Slot) (ys : List Assignment) : Prop where
  slots : ∀ x ∈ xs, ∃ y ∈ ys, t.Is x y
  steps : ∀ y ∈ ys, ∃ x ∈ xs, t.Is x y
  capabilities : ys.map (·.call.capability) = xs.map (·.capability)

/-- A step is dispatched unless its wave comes after the deadline. -/
def begins (t : Timetable) (x : Slot) : Bool := decide (x.time < t.deadline)

/-- The capabilities of a request are provided as the timetable has it, no handler ends at the very
moment at which its step is out of time, and each breaker gives the answer that is expected when the
step is dispatched. -/
structure Holds (t : Timetable) (r : Roster) : Prop where
  entries : r.grounds.layout.directory.sorted = t.entries
  names : t.graph.names.Nodup
  provides : ∀ c ∈ t.graph.names, r.grounds.Provides c (t.posts c)
  clear : ∀ x ∈ t.all, x.time < t.deadline → (t.posts x.capability).delay ≠ t.budget x.time
  admits : ∀ x ∈ t.all, x.time < t.deadline → NamedBreaker.admission
    (r.breakers (t.posts x.capability).agent x.capability) x.time =
      (t.posts x.capability).admission

variable {t : Timetable} {r : Roster} {xs xs' : List Slot} {ys ys' : List Assignment}

theorem Dispatched.append (h : t.Dispatched xs ys) (h' : t.Dispatched xs' ys') :
    t.Dispatched (xs ++ xs') (ys ++ ys') where
  slots := fun x hx => (List.mem_append.mp hx).elim
    (fun hx => (h.slots x hx).imp fun y hy => ⟨List.mem_append_left _ hy.1, hy.2⟩)
    fun hx => (h'.slots x hx).imp fun y hy => ⟨List.mem_append_right _ hy.1, hy.2⟩
  steps := fun y hy => (List.mem_append.mp hy).elim
    (fun hy => (h.steps y hy).imp fun x hx => ⟨List.mem_append_left _ hx.1, hx.2⟩)
    fun hy => (h'.steps y hy).imp fun x hx => ⟨List.mem_append_right _ hx.1, hx.2⟩
  capabilities := by rw [List.map_append, List.map_append, h.capabilities, h'.capabilities]

theorem capabilities_all (t : Timetable) :
    (t.all.map (·.capability)).Perm t.graph.names := by
  rw [all, capabilities_slots]
  exact t.graph.perm_plan

/-- The steps that were dispatched make a roster. -/
theorem Holds.sound (h : t.Holds r) (hr : { r with steps := [] }.Sound)
    (hsub : xs.Sublist (t.all.filter t.begins)) (hys : t.Dispatched xs ys) :
    { r with steps := ys }.Sound := by
  have hexists : ∀ y ∈ ys, ∃ x ∈ t.all, x.time < t.deadline ∧ t.Is x y := fun y hy => by
    obtain ⟨x, hx, his⟩ := hys.steps y hy
    obtain ⟨hx, hbegins⟩ := List.mem_filter.mp (hsub.subset hx)
    exact ⟨x, hx, of_decide_eq_true hbegins, his⟩
  have hids : ys.map (·.call.requestId) =
      (ys.map (·.call.capability)).map (StepCall.subId t.request.requestId) := by
    rw [List.map_map]
    refine List.map_congr_left fun y hy => ?_
    obtain ⟨x, -, data, rfl⟩ := hys.steps y hy
    rfl
  have hnodup : (xs.map (·.capability)).Nodup :=
    (t.capabilities_all.nodup_iff.mpr h.names).sublist
      ((hsub.trans List.filter_sublist).map (·.capability))
  exact
    { owned := hr.owned
      running := hr.running
      gone := hr.gone
      places := hr.places
      lanes := hr.lanes
      provides := fun y hy => by
        obtain ⟨x, hx, -, data, rfl⟩ := hexists y hy
        exact h.provides _ (t.capabilities_all.mem_iff.mp (List.mem_map_of_mem hx))
      free := fun y hy => by
        obtain ⟨x, -, -, data, rfl⟩ := hexists y hy
        rfl
      clear := fun y hy => by
        obtain ⟨x, hx, hbegins, data, rfl⟩ := hexists y hy
        exact h.clear x hx hbegins
      ids := by
        rw [hids, hys.capabilities]
        exact hnodup.map fun c c' heq => (String.append_right_inj _).mp heq
      capabilities := hys.capabilities ▸ hnodup
      admits := fun y hy => by
        obtain ⟨x, hx, hbegins, data, rfl⟩ := hexists y hy
        exact h.admits x hx hbegins }

/-- Of the steps of the request the first ones were dispatched, unless they came after the deadline,
and the others will be. All that is under way belongs to them. -/
structure Spans (t : Timetable) (r : Roster) (bound : Nat) (w : World)
    (ps : List (Assignment × Branch)) (done later : List Slot) : Prop where
  split : done ++ later = t.all
  covers : ∃ ys k, t.Dispatched (done.filter t.begins) ys ∧
    { r with steps := ys }.Covers k w ps ∧ k + 9 * later.length ≤ bound

/-- The roster of the steps that were dispatched. -/
theorem Spans.exists_roster {bound : Nat} {w : World} {ps : List (Assignment × Branch)}
    {done later : List Slot} (h : t.Spans r bound w ps done later) (ht : t.Holds r)
    (hr : { r with steps := [] }.Sound) :
    ∃ ys k, t.Dispatched (done.filter t.begins) ys ∧ { r with steps := ys }.Sound ∧
      { r with steps := ys }.Covers k w ps ∧ k + 9 * later.length ≤ bound := by
  obtain ⟨ys, k, hys, hcovers, hbound⟩ := h.covers
  refine ⟨ys, k, hys, ht.sound hr ?_ hys, hcovers, hbound⟩
  rw [← h.split]
  exact (List.sublist_append_left _ _).filter _

/-! ## The user -/

/-- The report of these records. -/
def report (t : Timetable) (p : Progress) : RunReport :=
  Orchestrator.reportOf t.request t.entries p

/-- What is left of the request: waves, the first of which has a number. -/
def rest (t : Timetable) (n : Nat) (waves : List (List String)) (p : Progress) :
    Program RunReport :=
  (t.brief.run n (waves.map t.positions) p).bind fun p => .done (t.report p)

/-- What is left of the request while a wave is under way. -/
def within (t : Timetable) (n : Nat) (wave : List String) (waves : List (List String))
    (p : Progress) : Program RunReport :=
  .ask (.wave (t.brief.calls p (t.positions wave))) fun (outcomes : List StepOutcome) =>
    t.rest (n + 1) waves (p.recordWave t.brief.schedule n (t.positions wave) outcomes)

/-- A wave is under way, which has a number and began at a time. -/
structure Within (t : Timetable) (r : Roster) (bound : Nat) (w : World) (n time : Nat)
    (wave : List String) (waves : List (List String)) (p : Progress)
    (ps : List (Assignment × Branch)) (done : List Slot) : Prop where
  spans : t.Spans r bound w ps (done ++ waveSlots n time wave)
    (t.slots (n + 1) (t.next time wave) waves)
  records : t.Records done p
  finish : t.finish time (wave :: waves) = t.finish t.start t.graph.plan.waves
  names : ∀ wave' ∈ wave :: waves, ∀ c ∈ wave', c ∈ t.graph.names
  steps : ps.map (·.1) = wave.map fun c => t.dispatched ⟨n, time, c⟩ (t.data p c)
  begun : time < t.deadline
  since : time ≤ w.now
  last : w.now ≤ t.next time wave

/-- How far the user has come: he is about to begin, waits for the steps of a wave, or has his
report. -/
inductive Stage (t : Timetable) (r : Roster) (bound : Nat) (w : World) : UserState RunReport → Prop
  | begins (hspans : t.Spans r bound w [] [] t.all) (hnow : w.now = t.start) :
      Stage t r bound w (.going { code := t.orchestrator.execute t.request })
  | waits {n time : Nat} {wave : List String} {waves : List (List String)} {p : Progress}
      {ps : List (Assignment × Branch)} {done : List Slot}
      (h : t.Within r bound w n time wave waves p ps done)
      (hgoing : ∃ x strand, (x, .going strand) ∈ ps) (parking : Parking) {b : Belongings}
      (hb : b.permits = []) : Stage t r bound w
        (.going ⟨t.within n wave waves p, parking, some (ps.map (·.2)), b⟩)
  | ended {p : Progress} (hspans : t.Spans r bound w [] t.all []) (hrecords : t.Records t.all p)
      (hnow : w.now = t.finish t.start t.graph.plan.waves) : Stage t r bound w (.ended (t.report p))

/-- How a turn leaves the user: he waits for something, or has his report. -/
def Leaves (t : Timetable) (r : Roster) (bound : Nat) :
    Scene × Turn (Program RunReport × Option (List Branch)) RunReport → Prop
  | (s, .waits (code, wave)) =>
    t.Stage r bound s.world (.going ⟨code, s.parking, wave, s.belongings⟩) ∧
      (s.world.Stirs (⟨code, s.parking, wave, s.belongings⟩ : Thread RunReport) ∨
        Thread.Blocked (⟨code, s.parking, wave, s.belongings⟩ : Thread RunReport)
          s.world.bus s.world.now)
  | (s, .ended report) =>
    t.Stage r bound s.world (.ended report) ∧ s.belongings.permits = []
  | (_, .crashed _) => False

variable {bound n time : Nat} {wave : List String} {waves : List (List String)} {p : Progress}
  {done later : List Slot} {s : Scene} {w : World} {ps : List (Assignment × Branch)}

theorem advance_rest_cons (t : Timetable) (n : Nat) (wave : List String)
    (waves : List (List String)) (p : Progress) (s : Scene) :
    Program.advance (t.rest n (wave :: waves) p) none s =
      if t.deadline ≤ s.world.now then
        Program.advance (t.rest (n + 1) waves (p.skipWave t.brief.schedule n (t.positions wave)))
          none { s with parking := {} }
      else Program.advance (t.within n wave waves p) none { s with parking := {} } := by
  have hclock : s.attempt .clock = (s, some s.world.now) := rfl
  have hturn : Program.advance (t.rest n (wave :: waves) p) none s =
      Program.advance (Flow.bind (if t.deadline ≤ s.world.now then
          t.brief.run (n + 1) (waves.map t.positions)
            (p.skipWave t.brief.schedule n (t.positions wave))
        else .ask (.wave (t.brief.calls p (t.positions wave))) fun (outcomes : List StepOutcome) =>
          t.brief.run (n + 1) (waves.map t.positions)
            (p.recordWave t.brief.schedule n (t.positions wave) outcomes))
        fun p => .done (t.report p)) none { s with parking := {} } :=
    Program.advance_of_some (o := .clock) hclock
  rw [hturn]
  split <;> rfl

/-- When all steps of a wave have ended they have done so as they should. -/
theorem outcomes_of_ended {c : Collector} {now : Nat} {u : Assignment → Prop}
    {outcomes : List StepOutcome} (hbegun : time < t.deadline)
    (hsteps : ps.map (·.1) = wave.map fun c => t.dispatched ⟨n, time, c⟩ (t.data p c))
    (hat : ∀ q ∈ ps, q.1.At now c (u q.1) q.2)
    (houtcomes : Branch.outcomes? (ps.map (·.2)) = some outcomes) :
    outcomes = wave.map (t.outcome time) ∧ (∀ c ∈ wave, t.stop time c ≤ now) ∧
      ∀ q ∈ ps, ∃ o, q.2 = .ended o := by
  have hbranches := Branch.ended_of_outcomes? houtcomes
  have hended : ∀ q ∈ ps, ∃ o, q.2 = .ended o := fun q hq => by
    have hmem : q.2 ∈ outcomes.map Branch.ended := hbranches ▸ List.mem_map_of_mem hq
    obtain ⟨o, -, ho⟩ := List.mem_map.mp hmem
    exact ⟨o, ho.symm⟩
  have hall : ∀ q ∈ ps, q.2 = .ended q.1.outcome ∧ q.1.stop ≤ now := fun q hq => by
    obtain ⟨o, ho⟩ := hended q hq
    have hq := hat q hq
    rw [ho] at hq ⊢
    cases hq with
    | ended hstop => exact ⟨rfl, hstop⟩
  refine ⟨?_, fun c hc => ?_, hended⟩
  · have hsame : outcomes.map Branch.ended = (wave.map (t.outcome time)).map Branch.ended := by
      calc outcomes.map Branch.ended = ps.map (·.2) := hbranches.symm
        _ = ps.map fun q => .ended q.1.outcome := List.map_congr_left fun q hq => (hall q hq).1
        _ = (ps.map (·.1)).map fun x => .ended x.outcome := by rw [List.map_map]; rfl
        _ = (wave.map (t.outcome time)).map Branch.ended := by
          rw [hsteps, List.map_map, List.map_map]
          exact List.map_congr_left fun c _ =>
            congrArg Branch.ended (outcome_dispatched (x := ⟨n, time, c⟩) hbegun _)
    exact List.map_injective_iff.mpr (fun _ _ => Branch.ended.inj) hsame
  · have hmem : t.dispatched ⟨n, time, c⟩ (t.data p c) ∈ ps.map (·.1) := by
      rw [hsteps]
      exact List.mem_map.mpr ⟨c, hc, rfl⟩
    obtain ⟨q, hq, hx⟩ := List.mem_map.mp hmem
    have hstop := (hall q hq).2
    rw [hx] at hstop
    exact hstop

/-- Whether a thread that waits for steps was told something or cannot go on is so for each of
them. -/
theorem settled_of_steps {parking : Parking} {b : Belongings} {code : Program RunReport}
    (h : ∀ q ∈ ps, q.2.Blocked w.bus w.now ∨ ∃ signal ∈ w.signals, q.2.waitsFor signal = true) :
    w.Stirs (⟨code, parking, some (ps.map (·.2)), b⟩ : Thread RunReport) ∨
      Thread.Blocked (⟨code, parking, some (ps.map (·.2)), b⟩ : Thread RunReport) w.bus w.now := by
  by_cases hall : ∀ q ∈ ps, q.2.Blocked w.bus w.now
  · refine .inr fun branch hbranch => ?_
    obtain ⟨q, hq, rfl⟩ := List.mem_map.mp hbranch
    exact hall q hq
  · obtain ⟨q, hq, hfree⟩ : ∃ q ∈ ps, ¬ q.2.Blocked w.bus w.now := by simpa using hall
    obtain ⟨signal, hsignal, hwaits⟩ := (h q hq).resolve_left hfree
    exact .inl ⟨signal, hsignal, List.any_eq_true.mpr ⟨q.2, List.mem_map_of_mem hq, hwaits⟩⟩

/-- What happens to the user with his next waves. -/
def Goes (t : Timetable) (r : Roster) (bound n : Nat) (waves : List (List String)) : Prop :=
  ∀ (s : Scene) (p : Progress) (done : List Slot), s.belongings.permits = [] →
    t.Spans r bound s.world [] done (t.slots n s.world.now waves) → t.Records done p →
    t.finish s.world.now waves = t.finish t.start t.graph.plan.waves →
    (∀ wave ∈ waves, ∀ c ∈ wave, c ∈ t.graph.names) →
    t.Leaves r bound (Program.advance (t.rest n waves p) none s)

/-- The steps of a wave have their turns. When all have ended the next waves follow. -/
theorem Within.leaves (ht : t.Holds r) (hr : { r with steps := [] }.Sound)
    (h : t.Within r bound s.world n time wave waves p ps done)
    (hpermits : s.belongings.permits = []) (hgoes : t.Goes r bound (n + 1) waves) {opened : Option (List Branch)}
    (hopened : Branch.opening (t.brief.calls p (t.positions wave)) opened = ps.map (·.2)) :
    t.Leaves r bound (Program.advance (t.within n wave waves p) opened s) := by
  obtain ⟨ys, k, hys, hsound, hcovers, hbound⟩ := h.spans.exists_roster ht hr
  obtain ⟨s', ps', hturn, hsame, hcovers', hkept, hsettled⟩ :=
    Roster.Covers.advanceAll hsound [] hcovers
  have hnone : s'.belongings.permits = [] := hkept ▸ hpermits
  have hstage := Branch.stable_advanceAll (World.stable_stage s.world.stage) (ps.map (·.2)) rfl
  rw [hturn] at hstage
  have hnow : s'.world.now = s.world.now := congrArg World.Stage.now hstage
  have hspans : t.Spans r bound s'.world ps' (done ++ waveSlots n time wave)
      (t.slots (n + 1) (t.next time wave) waves) := ⟨h.spans.split, ys, k, hys, hcovers', hbound⟩
  rw [← hopened] at hturn
  cases houtcomes : Branch.outcomes? (ps'.map (·.2)) with
  | none =>
    have hwaits : Program.advance (t.within n wave waves p) opened s =
        (s', .waits (t.within n wave waves p, some (ps'.map (·.2)))) :=
      Program.advance_of_open hturn houtcomes
    obtain ⟨strand, hstrand⟩ := Branch.exists_going houtcomes
    obtain ⟨⟨x, b⟩, hq, rfl⟩ := List.mem_map.mp hstrand
    rw [hwaits]
    refine ⟨.waits ⟨hspans, h.records, h.finish, h.names, hsame.trans h.steps, h.begun, ?_, ?_⟩
      ⟨x, strand, hq⟩ _ hnone, settled_of_steps hsettled⟩
    · exact hnow ▸ h.since
    · exact hnow ▸ h.last
  | some outcomes =>
    have hgoeson : Program.advance (t.within n wave waves p) opened s =
        Program.advance (t.rest (n + 1) waves
          (p.recordWave t.brief.schedule n (t.positions wave) outcomes)) none
          { s' with parking := {} } :=
      Program.advance_of_outcomes hturn houtcomes
    obtain ⟨rfl, hstops, hended⟩ := outcomes_of_ended (u := fun x => x.Underway s'.world) h.begun
      (hsame.trans h.steps) (fun q hq => (hcovers'.steps q hq).2) houtcomes
    have hnext : t.next time wave = s'.world.now :=
      Nat.le_antisymm (next_le_iff.mpr ⟨hnow ▸ h.since, hstops⟩) (hnow ▸ h.last)
    rw [hgoeson]
    refine hgoes { s' with parking := {} } _ (done ++ waveSlots n time wave) hnone ?_
      (h.records.record (h.names wave List.mem_cons_self)) ?_
      fun wave' hwave => h.names wave' (List.mem_cons_of_mem _ hwave)
    · exact hnext ▸ ⟨h.spans.split, ys, k, hys, hcovers'.close hended, hbound⟩
    · exact hnext ▸ h.finish

theorem filter_begins_of_late (h : t.deadline ≤ time) :
    (waveSlots n time wave).filter t.begins = [] := by
  refine List.filter_eq_nil_iff.mpr fun x hx => ?_
  obtain ⟨c, -, rfl⟩ := List.mem_map.mp hx
  simpa [begins] using h

theorem filter_begins_of_begun (h : time < t.deadline) :
    (waveSlots n time wave).filter t.begins = waveSlots n time wave := by
  refine List.filter_eq_self.mpr fun x hx => ?_
  obtain ⟨c, -, rfl⟩ := List.mem_map.mp hx
  exact decide_eq_true h

theorem dispatched_waveSlots (t : Timetable) (n time : Nat) (wave : List String)
    (data : String → Json) :
    t.Dispatched (waveSlots n time wave)
      (wave.map fun c => t.dispatched ⟨n, time, c⟩ (data c)) where
  slots := fun x hx => by
    obtain ⟨c, hc, rfl⟩ := List.mem_map.mp hx
    exact ⟨_, List.mem_map.mpr ⟨c, hc, rfl⟩, data c, rfl⟩
  steps := fun y hy => by
    obtain ⟨c, hc, rfl⟩ := List.mem_map.mp hy
    exact ⟨_, List.mem_map.mpr ⟨c, hc, rfl⟩, data c, rfl⟩
  capabilities := by
    rw [waveSlots, List.map_map, List.map_map]
    rfl

/-- A wave that comes after the deadline is skipped. -/
theorem Spans.skip (h : t.Spans r bound w [] done (t.slots n w.now (wave :: waves)))
    (hlate : t.deadline ≤ w.now) :
    t.Spans r bound w [] (done ++ waveSlots n w.now wave) (t.slots (n + 1) w.now waves) := by
  obtain ⟨hsplit, ys, k, hys, hcovers, hbound⟩ := h
  rw [slots, next_of_late hlate] at hsplit hbound
  refine ⟨by rw [List.append_assoc, hsplit], ys, k, ?_, hcovers, ?_⟩
  · rwa [List.filter_append, filter_begins_of_late hlate, List.append_nil]
  · rw [List.length_append] at hbound
    omega

/-- The steps of a wave are about to begin. -/
theorem Spans.begin (h : t.Spans r bound w [] done (t.slots n w.now (wave :: waves)))
    (ht : t.Holds r) (hr : { r with steps := [] }.Sound) (hbegun : w.now < t.deadline)
    (data : String → Json) :
    t.Spans r bound w
      (Roster.openings (wave.map fun c => t.dispatched ⟨n, w.now, c⟩ (data c)))
      (done ++ waveSlots n w.now wave) (t.slots (n + 1) (t.next w.now wave) waves) := by
  obtain ⟨hsplit, ys, k, hys, hcovers, hbound⟩ := h
  have hnew := t.dispatched_waveSlots n w.now wave data
  have hsteps : t.Dispatched ((done ++ waveSlots n w.now wave).filter t.begins)
      (ys ++ wave.map fun c => t.dispatched ⟨n, w.now, c⟩ (data c)) := by
    rw [List.filter_append, filter_begins_of_begun hbegun]
    exact hys.append hnew
  have hsound := ht.sound hr (by
    rw [← hsplit, slots, ← List.append_assoc]
    exact (List.sublist_append_left _ _).filter _) hsteps
  refine ⟨by rw [List.append_assoc]; exact hsplit, _, _, hsteps, hcovers.begin hsound ?_, ?_⟩
  · exact List.forall_mem_map.mpr fun c _ => rfl
  · rw [slots, List.length_append, waveSlots, List.length_map] at hbound
    rw [List.length_map]
    omega

/-- The user goes on with the next waves. -/
theorem goes (ht : t.Holds r) (hr : { r with steps := [] }.Sound) (bound n : Nat)
    (waves : List (List String)) : t.Goes r bound n waves := by
  induction waves generalizing n with
  | nil =>
    intro s p done hpermits hspans hrecords hfinish _
    have hdone : done = t.all := (List.append_nil done).symm.trans hspans.split
    subst hdone
    exact ⟨.ended hspans hrecords hfinish, hpermits⟩
  | cons wave waves ih =>
    intro s p done hpermits hspans hrecords hfinish hnames
    rw [advance_rest_cons]
    split
    · rename_i hlate
      rw [finish, next_of_late hlate] at hfinish
      exact ih (n + 1) { s with parking := {} } _ _ hpermits (hspans.skip hlate)
        (hrecords.skip (hnames wave List.mem_cons_self) hlate) hfinish
        fun wave' hwave => hnames wave' (List.mem_cons_of_mem _ hwave)
    · rename_i hbegun
      have hbegun : s.world.now < t.deadline := Nat.not_le.mp hbegun
      have hcalls := calls_eq (hnames wave List.mem_cons_self) p n s.world.now
      have hwithin : t.Within r bound s.world n s.world.now wave waves p
          (Roster.openings (wave.map fun c => t.dispatched ⟨n, s.world.now, c⟩ (t.data p c)))
          done :=
        { spans := hspans.begin ht hr hbegun (t.data p)
          records := hrecords
          finish := hfinish
          names := hnames
          steps := Roster.fst_openings _
          begun := hbegun
          since := Nat.le_refl _
          last := t.le_next _ _ }
      refine Within.leaves (s := { s with parking := {} }) ht hr hwithin hpermits (ih (n + 1)) ?_
      rw [hcalls]
      unfold Branch.opening Roster.openings
      rw [Option.getD_none, List.map_map, List.map_map, List.map_map]
      rfl

namespace Stage

variable {u : UserState RunReport} {th : Thread RunReport} {w' : World} {bound' : Nat}

/-- The user goes on as far as he can. -/
theorem leaves (h : t.Stage r bound w (.going th)) (ht : t.Holds r)
    (hr : { r with steps := [] }.Sound) :
    t.Leaves r bound (Program.advance th.code th.wave ⟨w, th.parking, th.belongings⟩) := by
  cases h with
  | begins hspans hnow =>
    obtain ⟨-, ys, k, -, hcovers, -⟩ := id hspans
    have hentries : w.bus.directory.sorted = t.entries := by
      have hlayout : w.bus.layout = r.grounds.layout := hcovers.layout
      rw [← ht.entries, ← hlayout]
      rfl
    have hwaves : t.brief.schedule.waves = t.graph.plan.waves.map t.positions :=
      Schedule.waves_ofGraph t.request t.graph
    have hdirectory : (⟨w, {}, {}⟩ : Scene).attempt .directory = (⟨w, {}, {}⟩, some t.entries) :=
      congrArg (fun entries => (_, some entries)) hentries
    have hclock : (⟨w, {}, {}⟩ : Scene).attempt .clock = (⟨w, {}, {}⟩, some t.start) :=
      congrArg (fun now => (_, some now)) hnow
    have hturn : Program.advance (t.orchestrator.execute t.request) none ⟨w, {}, {}⟩ =
        Program.advance (t.rest 0 t.graph.plan.waves (.start t.brief.schedule)) none
          ⟨w, {}, {}⟩ := by
      rw [Orchestrator.execute_eq, rest, ← hwaves]
      refine (Program.advance_of_some (o := .directory) hdirectory).trans ?_
      exact Program.advance_of_some (o := .clock) hclock
    rw [hturn]
    refine goes ht hr bound 0 t.graph.plan.waves ⟨w, {}, {}⟩ _ [] rfl ?_ t.records_start ?_
      fun wave hwave c hc => t.graph.perm_plan.mem_iff.mp (List.mem_flatten.mpr ⟨wave, hwave, hc⟩)
    · exact hnow ▸ hspans
    · exact hnow ▸ rfl
  | waits h hgoing parking hb => exact h.leaves ht hr hb (goes ht hr _ _ _) rfl

end Stage

end Timetable

end Switchboard
