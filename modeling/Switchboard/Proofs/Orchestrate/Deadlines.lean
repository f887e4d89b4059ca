import Switchboard.Agent.Scripted
import Switchboard.Proofs.Orchestrate.Steps
import Switchboard.Proofs.World.Frames
import Switchboard.Proofs.World.Rounds

/-!
# How long a request takes

A step waits for two things only: for a place in the queue, as long as it takes, and for the answer
of its collection, which is due by the deadline of the whole request.

* `Routine.Sends`, `Branch.Held` : a step under way, and what it waits for;
* `Program.Paced`, `Program.Opens` : a program whose steps all keep to one deadline;
* `Thread.InLine` : a step of a thread stands in line for a place in the queue;
* `Run.Keeps`, `Run.InTime` : the user is held up by steps only, or has ended in time.
-/

namespace Switchboard

/-! ## Steps -/

/-- A step under way sends its requests and then waits for an answer that is due by a time. -/
inductive Routine.Sends (due : Nat) : Routine StepOutcome → Prop
  | stamp {next : Operation.stamp.Answer → Routine StepOutcome}
      (h : ∀ stamp, Sends due (next stamp)) : Sends due (.ask .stamp next)
  | send (m : Message) {next : (Operation.send m none).Answer → Routine StepOutcome}
      (h : ∀ sent, Sends due (next sent)) : Sends due (.ask (.send m none) next)
  | await (p : Pending) {next : (Operation.collected p).Answer → Routine StepOutcome}
      (hp : p.deadline ≤ due) (h : ∀ answer, ∃ o, next answer = .done o) :
      Sends due (.ask (.collected p) next)

/-- What a step of a wave may be waiting for: for a place in the queue without limit, or for its
answer up to a time. -/
inductive Branch.Held (due : Nat) : Branch → Prop
  | ended (o : StepOutcome) : Held due (.ended o)
  | inLine (m : Message) {next : (Operation.send m none).Answer → Routine StepOutcome}
      (h : ∀ sent, (next sent).Sends due) (ticket : Nat) :
      Held due (.going ⟨.ask (.send m none) next, { ticket := some ticket }⟩)
  | waiting (p : Pending) {next : (Operation.collected p).Answer → Routine StepOutcome}
      (hp : p.deadline ≤ due) (h : ∀ answer, ∃ o, next answer = .done o) (number : Nat) :
      Held due (.going ⟨.ask (.collected p) next, { alarm := some ⟨p.deadline, number⟩ }⟩)

theorem Branch.Held.sends {due : Nat} {strand : Strand StepOutcome}
    (h : Branch.Held due (.going strand)) : strand.code.Sends due := by
  cases h with
  | inLine m h => exact .send m h
  | waiting p hp h => exact .await p hp h

theorem StepCall.sends_sendRequests (call : StepCall) {p : Pending} {due : Nat}
    (h : p.deadline ≤ due) (expected : List String) :
    Routine.Sends due ((Network.sendRequests call.sender call.capability call.data call.requestId
      expected).bind fun _ => call.await p) := by
  induction expected with
  | nil => exact .await p h fun answer => ⟨_, rfl⟩
  | cons provider rest ih => exact .stamp fun stamp => .send _ fun sent => ih

namespace Scene

/-- Who has no place in the queue yet stands in line. -/
theorem inLine_of_send {s s' : Scene} {m : Message}
    (hparking : s.parking = {} ∨ ∃ ticket, s.parking = { ticket := some ticket })
    (h : s.attempt (.send m none) = (s', none)) :
    ∃ ticket, s'.parking = { ticket := some ticket } := by
  rw [attempt, send] at h
  rcases hparking with hparking | ⟨ticket, hparking⟩
  · simp only [hparking] at h
    split at h
    · cases h
    · cases h
      exact ⟨_, rfl⟩
  · simp only [hparking] at h
    split at h
    · cases h
    · split at h
      · cases h
      · cases h
        exact ⟨ticket, hparking⟩

/-- Who has no answer yet will be woken when it is due, which is later. -/
theorem waiting_of_collected {s s' : Scene} {p : Pending}
    (hparking : s.parking = {} ∨ ∃ number, s.parking = { alarm := some ⟨p.deadline, number⟩ })
    (h : s.attempt (.collected p) = (s', none)) :
    (∃ number, s'.parking = { alarm := some ⟨p.deadline, number⟩ }) ∧
      s.world.now < p.deadline := by
  rw [attempt, collected] at h
  split at h
  · cases h
  · rename_i hwait
    refine ⟨?_, ?_⟩
    · cases h
      rcases hparking with hparking | ⟨number, hparking⟩
      · exact ⟨_, by simp [wakeAt, hparking]; rfl⟩
      · exact ⟨number, by simp [wakeAt, hparking]⟩
    · unfold Collector.wait at hwait
      split at hwait
      · cases hwait
      · split at hwait
        · cases hwait
        · split at hwait
          · cases hwait
          · omega

end Scene

/-- How a turn of a step leaves it: it has ended, or waits and will be woken later. -/
def Routine.LeftBy (due : Nat) : Scene × Turn (Routine StepOutcome) StepOutcome → Prop
  | (s, .waits code) => Branch.Held due (.going ⟨code, s.parking⟩) ∧
      ∀ a, s.parking.alarm = some a → s.world.now < a.time
  | (_, .ended _) => True
  | (_, .crashed _) => False

namespace Routine

variable {due : Nat} {s : Scene}

theorem Sends.leftBy_advance {code : Routine StepOutcome} (h : code.Sends due)
    (hparking : s.parking = {} ∨ Branch.Held due (.going ⟨code, s.parking⟩)) :
    LeftBy due (Routine.advance code s) := by
  induction h generalizing s with
  | stamp h ih => exact ih _ (.inl rfl)
  | send m h ih =>
    have hticket : s.parking = {} ∨ ∃ ticket, s.parking = { ticket := some ticket } := by
      refine hparking.imp id fun hheld => ?_
      generalize s.parking = parking at hheld
      cases hheld with
      | inLine _ _ ticket => exact ⟨ticket, rfl⟩
    rcases hanswer : s.attempt (.send m none) with ⟨s', _ | sent⟩
    · rw [advance_of_none hanswer]
      obtain ⟨ticket, hline⟩ := Scene.inLine_of_send hticket hanswer
      refine ⟨hline ▸ .inLine m h ticket, fun a ha => ?_⟩
      rw [hline] at ha
      cases ha
    · rw [advance_of_some hanswer]
      exact ih sent (.inl rfl)
  | await p hp h =>
    have halarm : s.parking = {} ∨
        ∃ number, s.parking = { alarm := some ⟨p.deadline, number⟩ } := by
      refine hparking.imp id fun hheld => ?_
      generalize s.parking = parking at hheld
      cases hheld with
      | waiting _ _ _ number => exact ⟨number, rfl⟩
    rcases hanswer : s.attempt (.collected p) with ⟨s', _ | answer⟩
    · obtain ⟨⟨number, hwaits⟩, hlt⟩ := Scene.waiting_of_collected halarm hanswer
      have hstage : s'.world.stage = s.world.stage := by
        have hstage := s.stage_attempt (.collected p)
        rwa [hanswer] at hstage
      have hnow : s'.world.now = s.world.now := congrArg World.Stage.now hstage
      rw [advance_of_none hanswer]
      refine ⟨hwaits ▸ .waiting p hp h number, fun a ha => ?_⟩
      rw [hwaits] at ha
      cases ha
      rwa [hnow]
    · rw [advance_of_some hanswer]
      obtain ⟨o, ho⟩ := h answer
      rw [ho]
      trivial

/-- When a step starts it knows at once until when it will wait. -/
theorem advance_run (call : StepCall) (s : Scene) :
    ∃ s' p, Routine.advance call.run s =
        Routine.advance ((Network.sendRequests call.sender call.capability call.data
          call.requestId (call.targets (s.world.bus.directory.providers call.capability))).bind
            fun _ => call.await p) s' ∧
      s'.parking = {} ∧ p.deadline = s.world.now + call.budget s.world.now := by
  obtain ⟨sender, requestId, capability, assigned, data, timeout, deadline⟩ := call
  cases assigned with
  | some agent => exact ⟨_, _, rfl, rfl, rfl⟩
  | none => exact ⟨_, _, rfl, rfl, rfl⟩

/-- A step that starts before the deadline is due by it. -/
theorem leftBy_run (call : StepCall) (hnow : s.world.now ≤ call.deadline) :
    LeftBy call.deadline (Routine.advance call.run s) := by
  obtain ⟨s', p, hrun, hparking, hp⟩ := advance_run call s
  have hdue : p.deadline ≤ call.deadline := by
    rw [hp, StepCall.budget]
    omega
  rw [hrun]
  exact (call.sends_sendRequests hdue _).leftBy_advance (.inl hparking)

end Routine

/-! ## Waves -/

namespace Branch

variable {due : Nat}

/-- A step as a turn finds it: held up, or not started. -/
def Startable (due : Nat) (b : Branch) : Prop :=
  b.Held due ∨ ∃ call : StepCall, call.deadline = due ∧ b = .going { code := call.run }

/-- A step as a turn leaves it. -/
def Left (due now : Nat) (b : Branch) : Prop :=
  b.Held due ∧ ∀ a, b.parking.alarm = some a → now < a.time

theorem left_advance {b : Branch} (h : b.Startable due) {s : Scene} (hnow : s.world.now ≤ due ∨ b.Held due) :
    ∃ s' b', b.advance s = (s', .ok b') ∧ b'.Left due s.world.now := by
  cases b with
  | ended o => exact ⟨s, .ended o, rfl, .ended o, fun a ha => nomatch ha⟩
  | going strand =>
    have hleft : Routine.LeftBy due
        (Routine.advance strand.code { s with parking := strand.parking }) := by
      rcases h with hheld | ⟨call, rfl, hstart⟩
      · exact hheld.sends.leftBy_advance (.inr hheld)
      · obtain rfl := Branch.going.inj hstart
        rcases hnow with hnow | hheld
        · exact Routine.leftBy_run call hnow
        · exact hheld.sends.leftBy_advance (.inr hheld)
    have hstage := Routine.stable_advance (World.stable_stage s.world.stage) strand.code
      (s := { s with parking := strand.parking }) rfl
    rw [advance]
    rcases hturn : Routine.advance strand.code { s with parking := strand.parking } with
      ⟨s', code | o | text⟩
    · rw [hturn] at hleft hstage
      have hnow : s'.world.now = s.world.now := congrArg World.Stage.now hstage
      exact ⟨s', _, rfl, hleft.1, fun a ha => hnow ▸ hleft.2 a ha⟩
    · exact ⟨s', _, rfl, .ended o, fun a ha => nomatch ha⟩
    · rw [hturn] at hleft
      exact hleft.elim

theorem left_advanceAll {bs : List Branch} {s : Scene}
    (h : ∀ b ∈ bs, b.Startable due ∧ (s.world.now ≤ due ∨ b.Held due)) :
    ∃ s' bs', advanceAll bs s = (s', .ok bs') ∧ s'.world.now = s.world.now ∧
      ∀ b ∈ bs', b.Left due s.world.now := by
  induction bs generalizing s with
  | nil => exact ⟨s, [], rfl, rfl, by simp⟩
  | cons b rest ih =>
    obtain ⟨hb, hrest⟩ := List.forall_mem_cons.mp h
    obtain ⟨s₁, b', hfirst, hleft⟩ := left_advance hb.1 hb.2
    have hstage := b.stable_advance (World.stable_stage s.world.stage) (s := s) rfl
    rw [hfirst] at hstage
    have hnow : s₁.world.now = s.world.now := congrArg World.Stage.now hstage
    obtain ⟨s₂, rest', hall, hnow', hleft'⟩ := ih (s := s₁) (by rwa [hnow])
    rw [hnow] at hnow' hleft'
    exact ⟨s₂, b' :: rest', by simp only [advanceAll, hfirst, hall], hnow',
      List.forall_mem_cons.mpr ⟨hleft, hleft'⟩⟩

end Branch

/-! ## Programs -/

/-- A program that runs waves up to a deadline and reads the clock before each of them. When it has
just read it the time is given. -/
inductive Program.Paced {α : Type} (due : Nat) : Option Nat → Program α → Prop
  | done {time : Option Nat} (a : α) : Paced due time (.done a)
  | clock {time : Option Nat} {next : (Effect.plain .clock).Answer → Program α}
      (h : ∀ now : Nat, Paced due (some now) (next now)) :
      Paced due time (.ask (.plain .clock) next)
  | wave {now : Nat} {calls : List StepCall} {next : (Effect.wave calls).Answer → Program α}
      (hnow : now < due) (hcalls : ∀ c ∈ calls, c.deadline = due)
      (h : ∀ outcomes, Paced due none (next outcomes)) :
      Paced due (some now) (.ask (.wave calls) next)

/-- A program that looks around and then runs waves for a length of time. -/
inductive Program.Opens {α : Type} (timeout : Nat) : Program α → Prop
  | directory {next : (Effect.plain .directory).Answer → Program α}
      (h : ∀ entries, Opens timeout (next entries)) : Opens timeout (.ask (.plain .directory) next)
  | agentNames {next : (Effect.plain .agentNames).Answer → Program α}
      (h : ∀ names, Opens timeout (next names)) : Opens timeout (.ask (.plain .agentNames) next)
  | clock {next : (Effect.plain .clock).Answer → Program α}
      (h : ∀ now : Nat, Program.Paced (now + timeout) none (next now)) :
      Opens timeout (.ask (.plain .clock) next)

namespace Orchestrator

theorem paced_runWaves {α : Type} (o : Orchestrator) (requestId : String) (s : Schedule)
    (due : Nat) (f : Progress → α) (n : Nat) (waves : List (List Nat)) (p : Progress)
    (time : Option Nat) :
    Program.Paced due time
      ((o.runWaves requestId s due n waves p).bind fun p => .done (f p)) := by
  induction waves generalizing n p time with
  | nil => exact .done _
  | cons wave rest ih =>
    refine .clock fun now => ?_
    dsimp only
    split
    · exact ih _ _ _
    · refine .wave (by omega) (fun c hc => ?_) fun outcomes => ih _ _ _
      obtain ⟨i, -, hcall⟩ := List.mem_filterMap.mp hc
      obtain ⟨x, -, rfl⟩ := Option.map_eq_some_iff.mp hcall
      rfl

theorem opens_execute (o : Orchestrator) (r : GraphRequest) :
    (o.execute r).Opens o.requestTimeout :=
  .directory fun _ => .clock fun _ => o.paced_runWaves _ _ _ _ _ _ _ none

theorem opens_sequence (o : Orchestrator) (requestId : String) (jobs : List Job) :
    (o.sequence requestId jobs).Opens o.requestTimeout :=
  .directory fun _ => .agentNames fun _ => .clock fun _ => o.paced_runWaves _ _ _ _ _ _ _ none

end Orchestrator

/-- A program waits for the steps of a wave, all of which keep to a deadline, and one of which is
under way. -/
def Program.HeldUp {α : Type} (due : Nat) (code : Program α) (wave : Option (List Branch)) : Prop :=
  ∃ calls next bs, code = .ask (.wave calls) next ∧ wave = some bs ∧
    (∀ outcomes, Program.Paced due none (next outcomes)) ∧ (∀ b ∈ bs, b.Held due) ∧
    ∃ strand, .going strand ∈ bs

/-- How a turn of a program leaves it: it has ended, or waits for steps and will be woken later. -/
def Program.LeftBy {α : Type} (due : Nat) :
    Scene × Turn (Program α × Option (List Branch)) α → Prop
  | (s, .waits (code, wave)) => Program.HeldUp due code wave ∧
      ∀ bs, wave = some bs → ∀ b ∈ bs, ∀ a, b.parking.alarm = some a → s.world.now < a.time
  | (_, .ended _) => True
  | (_, .crashed _) => False

theorem Branch.exists_going {bs : List Branch} (h : outcomes? bs = none) :
    ∃ strand, .going strand ∈ bs := by
  induction bs with
  | nil => cases h
  | cons b rest ih =>
    cases b with
    | going strand => exact ⟨strand, List.mem_cons_self⟩
    | ended o =>
      have hrest : outcomes? rest = none := by
        cases hrest : outcomes? rest with
        | none => rfl
        | some outcomes =>
          unfold outcomes? at hrest
          simp [outcomes?, hrest] at h
      obtain ⟨strand, hmem⟩ := ih hrest
      exact ⟨strand, List.mem_cons_of_mem _ hmem⟩

namespace Program

variable {α : Type} {due : Nat} {s : Scene}

/-- The steps of a wave have their turn. -/
theorem leftBy_wave {calls : List StepCall} {next : (Effect.wave calls).Answer → Program α}
    {wave : Option (List Branch)} (hnext : ∀ outcomes, Paced due none (next outcomes))
    (ih : ∀ outcomes (s : Scene), LeftBy due (Program.advance (next outcomes) none s))
    (h : ∀ b ∈ Branch.opening calls wave,
      b.Startable due ∧ (s.world.now ≤ due ∨ b.Held due)) :
    LeftBy due (Program.advance (.ask (.wave calls) next) wave s) := by
  obtain ⟨s', bs, hadvance, hnow, hleft⟩ := Branch.left_advanceAll h
  cases houtcomes : Branch.outcomes? bs with
  | none =>
    rw [advance_of_open hadvance houtcomes]
    refine ⟨⟨calls, next, bs, rfl, rfl, hnext, fun b hb => (hleft b hb).1,
      Branch.exists_going houtcomes⟩, ?_⟩
    rintro _ ⟨⟩ b hb a ha
    rw [hnow]
    exact (hleft b hb).2 a ha
  | some outcomes =>
    rw [advance_of_outcomes hadvance houtcomes]
    exact ih outcomes _

theorem Paced.leftBy_advance {p : Program α} {time : Option Nat} (h : p.Paced due time)
    (htime : ∀ now, time = some now → now = s.world.now) :
    LeftBy due (Program.advance p none s) := by
  induction h generalizing s with
  | done a => trivial
  | clock h ih =>
    have hclock : s.attempt .clock = (s, some s.world.now) := rfl
    rw [advance_of_some hclock]
    exact ih _ fun now hnow => (Option.some.inj hnow).symm
  | @wave now calls next hnow hcalls h ih =>
    refine leftBy_wave h (fun outcomes s => ih outcomes fun now h => nomatch h) fun b hb => ?_
    obtain ⟨call, hcall, rfl⟩ := List.mem_map.mp hb
    have hle : s.world.now ≤ due := by
      have := htime now rfl
      omega
    exact ⟨.inr ⟨call, hcalls call hcall, rfl⟩, .inl hle⟩

theorem HeldUp.leftBy_advance {p : Program α} {wave : Option (List Branch)}
    (h : HeldUp due p wave) : LeftBy due (Program.advance p wave s) := by
  obtain ⟨calls, next, bs, rfl, rfl, hnext, hheld, -⟩ := h
  refine leftBy_wave hnext (fun outcomes s => (hnext outcomes).leftBy_advance fun now h => nomatch h)
    fun b hb => ⟨.inl (hheld b hb), .inr (hheld b hb)⟩

theorem Opens.leftBy_advance {p : Program α} {timeout : Nat} (h : p.Opens timeout) :
    LeftBy (s.world.now + timeout) (Program.advance p none s) := by
  induction h generalizing s with
  | directory h ih => exact ih _
  | agentNames h ih => exact ih _
  | clock h =>
    have hclock : s.attempt .clock = (s, some s.world.now) := rfl
    rw [advance_of_some hclock]
    exact (h s.world.now).leftBy_advance fun now h => nomatch h

end Program

/-! ## Threads -/

namespace Thread

variable {α : Type} {due : Nat} {t : Thread α} {w : World}

/-- A step of a thread stands in line for a place in the queue. -/
def InLine (t : Thread α) : Prop := ∃ p ∈ t.parkings, p.ticket ≠ none

instance : Decidable t.InLine := inferInstanceAs (Decidable (∃ p ∈ t.parkings, p.ticket ≠ none))

def HeldUp (due : Nat) (t : Thread α) : Prop := Program.HeldUp due t.code t.wave

/-- How a turn of a thread leaves it: it has ended, or waits for steps and will be woken later. -/
def LeftBy (due : Nat) : World × Turn (Thread α) α → Prop
  | (w, .waits t) => t.HeldUp due ∧ ∀ p ∈ t.parkings, ∀ a, p.alarm = some a → w.now < a.time
  | (_, .ended _) => True
  | (_, .crashed _) => False

theorem leftBy_advance
    (h : Program.LeftBy due (Program.advance t.code t.wave ⟨w, t.parking, t.belongings⟩)) :
    LeftBy due (t.advance w) := by
  unfold Thread.advance
  rcases hadvance : Program.advance t.code t.wave ⟨w, t.parking, t.belongings⟩ with
    ⟨s, ⟨code, wave⟩ | a | text⟩
  · rw [hadvance] at h
    obtain ⟨hheld, halarms⟩ := h
    refine ⟨hheld, ?_⟩
    obtain ⟨calls, next, bs, rfl, rfl, -⟩ := hheld
    rintro p hp a ha
    obtain ⟨b, hb, rfl⟩ := List.mem_map.mp hp
    exact halarms bs rfl b hb a ha
  · trivial
  · rw [hadvance] at h
    exact h.elim

/-- Past the deadline only steps that stand in line hold a thread up. -/
theorem HeldUp.inLine (h : t.HeldUp due)
    (halarms : ∀ p ∈ t.parkings, ∀ a, p.alarm = some a → due < a.time) : t.InLine := by
  obtain ⟨calls, next, bs, -, hwave, -, hheld, strand, hstrand⟩ := h
  have hparkings : t.parkings = bs.map Branch.parking := by
    rw [parkings, hwave]
  have hmem : strand.parking ∈ t.parkings := by
    rw [hparkings]
    exact List.mem_map_of_mem hstrand
  have hstep := hheld _ hstrand
  cases hstep with
  | inLine m h ticket => exact ⟨_, hmem, by simp⟩
  | waiting p hp h number =>
    have hlate := halarms _ hmem _ rfl
    dsimp only at hlate
    omega

end Thread

/-! ## Runs -/

namespace Run

variable {α : Type} {timeout due : Nat} {r r' : Run α}

/-- The user starts a program. -/
def start (w : World) (p : Program α) (limit : Nat) : Run α :=
  wakeHost ⟨w, .going { code := p }, limit⟩ .user

/-- It is not later than the deadline, and the user is still waiting or has his report. -/
def InTime (due : Nat) (r : Run α) : Prop :=
  r.world.now ≤ due ∧ ((∃ t, r.user = .going t) ∨ ∃ a, r.user = .ended a)

/-- The user has not had his first turn yet; or he waits for steps, and has his turn when one of
them is due; or he has ended in time. -/
def Keeps (timeout due : Nat) (r : Run α) : Prop :=
  due < r.limit ∧
    match r.user with
    | .going t =>
      (t.code.Opens timeout ∧ t.wave = none ∧ r.world.now + timeout = due ∧
        .user ∈ r.world.ready) ∨
      t.HeldUp due ∧ ∀ p ∈ t.parkings, ∀ a, p.alarm = some a →
        r.world.now < a.time ∨ r.world.now = a.time ∧ .user ∈ r.world.ready
    | .ended _ => r.world.now ≤ due
    | _ => False

/-- No step stands in line past the deadline. -/
def Unblocked (due : Nat) (r : Run α) : Prop :=
  ∀ t, r.user = .going t → t.InLine → r.world.now ≤ due

instance : Decidable (r.Unblocked due) :=
  match h : r.user with
  | .going t =>
    decidable_of_iff (t.InLine → r.world.now ≤ due)
      ⟨fun hfree t' ht' => by rwa [← UserState.going.inj (h.symm.trans ht')], fun hfree => hfree t h⟩
  | .ended _ | .crashed _ | .stuck => .isTrue fun t ht => nomatch h.symm.trans ht

theorem keeps_start {p : Program α} (hp : p.Opens timeout) {w : World} {limit : Nat}
    (hlimit : w.now + timeout < limit) : (start w p limit).Keeps timeout (w.now + timeout) := by
  have hlined := lined_wakeHost ⟨w, .going { code := p }, limit⟩ .user
  refine ⟨by rw [start, hlined.limit]; exact hlimit, ?_⟩
  rw [start, hlined.user]
  exact .inl ⟨hp, rfl, by rw [hlined.now], mem_ready_wakeHost _ _⟩

namespace Keeps

/-- Past the deadline the user is held up by a step in line, if at all. -/
theorem inTime (h : r.Keeps timeout due) (hfree : r.Unblocked due) : r.InTime due := by
  obtain ⟨-, h⟩ := h
  cases huser : r.user with
  | going t =>
    rw [huser] at h
    refine ⟨?_, .inl ⟨t, huser⟩⟩
    rcases h with ⟨-, -, hnow, -⟩ | ⟨hheld, halarms⟩
    · omega
    · by_contra hlate
      refine hlate (hfree t huser (hheld.inLine fun p hp a ha => ?_))
      have := halarms p hp a ha
      omega
  | ended a =>
    rw [huser] at h
    exact ⟨h, .inr ⟨a, huser⟩⟩
  | crashed text =>
    rw [huser] at h
    exact h.elim
  | stuck =>
    rw [huser] at h
    exact h.elim

/-- Nothing changes for the user while he does not have his turn. -/
theorem mono (h : r.Keeps timeout due) (huser : r'.user = r.user) (hlimit : r'.limit = r.limit)
    (hnow : r'.world.now = r.world.now)
    (hready : .user ∈ r.world.ready → .user ∈ r'.world.ready) : r'.Keeps timeout due := by
  obtain ⟨hlt, h⟩ := h
  refine ⟨hlimit ▸ hlt, ?_⟩
  rw [huser, hnow]
  cases hr : r.user with
  | going t =>
    rw [hr] at h
    refine h.imp (fun ⟨hopens, hwave, hdue, hmem⟩ => ⟨hopens, hwave, hdue, hready hmem⟩) ?_
    exact fun ⟨hheld, halarms⟩ => ⟨hheld, fun p hp a ha =>
      (halarms p hp a ha).imp id fun ⟨heq, hmem⟩ => ⟨heq, hready hmem⟩⟩
  | _ => rwa [hr] at h

theorem dispatch (h : r.Keeps timeout due) : r.dispatch.Keeps timeout due :=
  h.mono (user_dispatch r) (limit_dispatch r) (now_dispatch r) fun hmem =>
    (lined_dispatch r).ready hmem

/-- The user has his turn. -/
theorem userTurn (h : r.Keeps timeout due) (hfree : r.Unblocked due) (ready : List Host) :
    Run.Keeps timeout due (Run.userTurn { r with world := { r.world with ready } }) := by
  obtain ⟨hnow, -⟩ := h.inTime hfree
  obtain ⟨hlt, h⟩ := h
  unfold Run.userTurn
  dsimp only
  cases huser : r.user with
  | going t =>
    rw [huser] at h
    have hleft : Thread.LeftBy due (t.advance { r.world with ready }) := by
      refine Thread.leftBy_advance ?_
      rcases h with ⟨hopens, hwave, hdue, -⟩ | ⟨hheld, -⟩
      · rw [hwave, ← hdue]
        exact hopens.leftBy_advance
      · exact Program.HeldUp.leftBy_advance hheld
    have hsame : (t.advance { r.world with ready }).1.now = r.world.now :=
      congrArg World.Stage.now (t.stage_advance { r.world with ready })
    dsimp only
    split <;> rename_i heq <;> rw [heq] at hleft hsame <;> dsimp only at hsame
    · exact ⟨hlt, hsame ▸ hnow⟩
    · exact hleft.elim
    · split
      · rename_i hlimit
        omega
      · exact ⟨hlt, .inr ⟨hleft.1, fun p hp a ha => .inl (hleft.2 p hp a ha)⟩⟩
  | ended a =>
    rw [huser] at h
    exact ⟨hlt, by simpa [huser] using h⟩
  | _ =>
    rw [huser] at h
    exact h.elim

theorem turn {h : Host} {rest : List Host} (hkeeps : r.Keeps timeout due)
    (hfree : r.Unblocked due) (hready : r.world.ready = h :: rest) :
    (Run.turn { r with world := { r.world with ready := rest } } h).Keeps timeout due := by
  by_cases hhost : h = .user
  · subst hhost
    exact hkeeps.userTurn hfree rest
  · have huser : (Run.turn { r with world := { r.world with ready := rest } } h).user = r.user := by
      cases h with
      | user => exact absurd rfl hhost
      | _ => rfl
    have hlimit : (Run.turn { r with world := { r.world with ready := rest } } h).limit =
        r.limit := by
      cases h with
      | user => exact absurd rfl hhost
      | _ => rfl
    refine hkeeps.mono huser hlimit (now_turn _ h) fun hmem => ?_
    rw [ready_turn]
    rw [hready] at hmem
    exact (List.mem_cons.mp hmem).resolve_left (Ne.symm hhost)

/-- Time passes up to the next alarm at most, which gives the user his turn. -/
theorem tick {t : Thread α} (h : r.Keeps timeout due) (hready : r.world.ready = [])
    (huser : r.user = .going t) : (r.tick r.nextTime).Keeps timeout due := by
  obtain ⟨hlt, h⟩ := h
  refine ⟨by rwa [limit_tick], ?_⟩
  rw [user_tick, now_tick, huser]
  rw [huser] at h
  rcases h with ⟨-, -, -, hmem⟩ | ⟨hheld, halarms⟩
  · rw [hready] at hmem
    cases hmem
  · refine .inr ⟨hheld, fun p hp a ha => ?_⟩
    have hle : r.nextTime ≤ a.time := nextTime_le_alarm (mem_calls_user huser hp ha)
    rcases Nat.lt_or_eq_of_le hle with hlt | heq
    · exact .inl hlt
    · exact .inr ⟨heq, user_mem_ready_tick huser hp ha (Nat.le_of_eq heq.symm)⟩

theorem next (h : r.Keeps timeout due) (hfree : r.Unblocked due) (hnext : r.next = some r') :
    r'.Keeps timeout due := by
  have hfree' : r.dispatch.Unblocked due := by
    unfold Unblocked at *
    rwa [user_dispatch, now_dispatch]
  unfold Run.next at hnext
  split at hnext
  · rename_i host rest hready
    obtain rfl := Option.some.inj hnext
    exact h.dispatch.turn hfree' hready
  · rename_i hready
    split at hnext
    · rename_i t huser
      obtain rfl := Option.some.inj hnext
      exact h.dispatch.tick hready (by rw [user_dispatch, huser])
    · cases hnext

theorem inTime_go (h : r.Keeps timeout due) (hfree : ∀ n, (r.go n).Unblocked due) (n : Nat) :
    (r.go n).InTime due := by
  induction n generalizing r with
  | zero => exact h.inTime (hfree 0)
  | succ n ih =>
    rw [go_succ]
    cases hnext : r.next with
    | some r' =>
      refine ih (h.next (hfree 0) hnext) fun m => ?_
      have hlater := hfree (m + 1)
      rwa [go_succ, hnext] at hlater
    | none =>
      have hintime := h.inTime (hfree 0)
      unfold InTime at *
      dsimp only
      rwa [user_dispatch, now_dispatch]

end Keeps

end Run

/-- The user has his report in the end, and up to the deadline he only waits for it. -/
def Run.ReturnsBy (due : Nat) (r : Run α) : Prop :=
  (∃ n report, (r.go n).user = .ended report) ∧ ∀ n, (r.go n).InTime due

/-- The deadline passes, unless the user stops waiting before. -/
def Run.Passes (due : Nat) (r : Run α) : Prop :=
  ∃ n, due < (r.go n).world.now ∨ ∀ t, (r.go n).user ≠ .going t

namespace Orchestrator

/-- **When a request returns in time.** In whatever world and whatever else happens there, a request
never breaks off; and it returns by its deadline if and only if none of its steps stands in line
for a place in the queue past the deadline, where time does pass. -/
theorem returnsBy_iff_unblocked {o : Orchestrator} {p : Program RunReport}
    (hp : (∃ r, p = o.execute r) ∨ ∃ requestId jobs, p = o.sequence requestId jobs) {w : World}
    {limit : Nat} (hlimit : w.now + o.requestTimeout < limit) :
    (Run.start w p limit).ReturnsBy (w.now + o.requestTimeout) ↔
      (∀ n, ((Run.start w p limit).go n).Unblocked (w.now + o.requestTimeout)) ∧
        (Run.start w p limit).Passes (w.now + o.requestTimeout) := by
  have hopens : p.Opens o.requestTimeout := by
    rcases hp with ⟨r, rfl⟩ | ⟨requestId, jobs, rfl⟩
    · exact o.opens_execute r
    · exact o.opens_sequence requestId jobs
  constructor
  · rintro ⟨⟨n, report, hended⟩, hintime⟩
    refine ⟨fun n t _ _ => (hintime n).1, n, .inr fun t ht => ?_⟩
    rw [hended] at ht
    cases ht
  · rintro ⟨hfree, n, hpasses⟩
    have hintime := (Run.keeps_start hopens hlimit).inTime_go hfree
    refine ⟨⟨n, ?_⟩, hintime⟩
    obtain ⟨hnow, ⟨t, ht⟩ | hended⟩ := hintime n
    · rcases hpasses with hlate | hstopped
      · omega
      · exact absurd ht (hstopped t)
    · exact hended

/-- A network that has a place for so many messages and does not deliver them, and two agents that
provide a capability. -/
def undelivered (places : UInt64) : World :=
  let w := World.opened { network := { queueSize := places } }
  let (w, p) := w.create (.scripted "p" ["a"] [] [])
  let (w, q) := (w.register p).create (.scripted "q" ["a"] [] [])
  w.register q

/-- The user asks for the capability that both agents provide, and allows 200 milliseconds. -/
def asking (places : UInt64) : Run RunReport :=
  let r : GraphRequest := { requestId := "r", graph := ({} : CapabilityGraph).add "a" [] }
  Run.start (undelivered places) (execute ⟨"o", 100, 200⟩ r) World.userPatience

/-- With places for both messages the request returns, once its step is out of time. -/
theorem returns_undelivered :
    (undelivered 2).now + 200 < World.userPatience ∧ (asking 2).ReturnsBy 200 := by
  have hlimit : (undelivered 2).now + 200 < World.userPatience := by decide +kernel
  have hfree : ∀ n < 4, ((asking 2).go n).Unblocked 200 := by decide +kernel
  have hstopped : ∀ t, ((asking 2).go 4).user ≠ .going t := by decide +kernel
  refine ⟨hlimit, (returnsBy_iff_unblocked (o := ⟨"o", 100, 200⟩) (.inl ⟨_, rfl⟩) hlimit).mpr
    ⟨fun n => ?_, 4, .inr hstopped⟩⟩
  by_cases hn : n < 4
  · exact hfree n hn
  · intro t ht
    exact absurd ((Run.user_go_of_le hstopped (Nat.not_lt.mp hn)).symm.trans ht) (hstopped t)

/-- With one place the message to the second agent stands in line until the user gives up. -/
theorem stuck_in_line :
    (∀ n report, ((asking 1).go n).user ≠ .ended report) ∧ ¬ (asking 1).ReturnsBy 200 := by
  have hstuck : ((asking 1).go 4).user = .stuck := by
    have hkernel : (match ((asking 1).go 4).user with | .stuck => true | _ => false) = true := by
      decide +kernel
    split at hkernel
    · assumption
    · cases hkernel
  have hnever : ∀ n report, ((asking 1).go n).user ≠ .ended report := by
    intro n report hended
    rcases Nat.le_total n 4 with hle | hle
    · have hsame := Run.user_go_of_le (by rw [hended]; nofun) hle
      rw [hstuck, hended] at hsame
      cases hsame
    · have hsame := Run.user_go_of_le (by rw [hstuck]; nofun) hle
      rw [hstuck, hended] at hsame
      cases hsame
  refine ⟨hnever, fun hreturns => ?_⟩
  obtain ⟨⟨n, report, hended⟩, -⟩ := hreturns
  exact hnever n report hended

end Orchestrator

end Switchboard
