import Switchboard.World.Run

/-!
# What turns leave alone

* `World.Stage` : what only runs and lanes change; `Scene.stage_attempt` : no operation does;
* `Routine.advance_of_some`, `Program.advance_of_outcomes`, … : a turn goes on, or stops;
* `World.Stable` : what holds on however operations are answered; `Program.stable_advance` : and so
  after a turn of a program;
* `Run.stage_turn` : no turn changes the clock, or lines up hosts; only a lane has another stage.
-/

namespace Switchboard

/-- The part of a world that only runs and lanes change. -/
structure World.Stage where
  settings : Settings
  now : Nat
  handlings : List Handling
  runnable : List (Nat × Nat)
  ready : List Host
  nextHandling : Nat

namespace World

def stage (w : World) : Stage :=
  ⟨w.settings, w.now, w.handlings, w.runnable, w.ready, w.nextHandling⟩

variable (w : World)

@[simp] theorem stage_signal (s : Signal) : (w.signal s).stage = w.stage := rfl

@[simp] theorem stage_signalAll (ss : List Signal) : (w.signalAll ss).stage = w.stage := rfl

@[simp] theorem stage_modifyActor (agent : Nat) (change : Actor → Actor) :
    (w.modifyActor agent change).stage = w.stage := rfl

@[simp] theorem stage_withCollector (c : Collector) : (w.withCollector c).stage = w.stage := rfl

@[simp] theorem stage_closeIfAbandoned : w.closeIfAbandoned.stage = w.stage := by
  unfold closeIfAbandoned
  split <;> rfl

@[simp] theorem stage_leaveLine (ticket : Nat) : (Scene.leaveLine w ticket).stage = w.stage := rfl

theorem stage_foldl {β : Type} {f : World → β → World} (hf : ∀ w b, (f w b).stage = w.stage)
    (bs : List β) : (bs.foldl f w).stage = w.stage := by
  induction bs generalizing w with
  | nil => rfl
  | cons b bs ih => rw [List.foldl_cons, ih, hf]

@[simp] theorem stage_takeBack (b : Belongings) : (w.takeBack b).stage = w.stage := by
  have hpermits := stage_foldl w (f := fun w p => Scene.settleIn w p .abandoned) (fun _ _ => rfl)
    b.permits
  unfold takeBack
  rw [stage_closeIfAbandoned]
  exact hpermits

end World

namespace Scene

variable (s : Scene)

@[simp] theorem stage_wakeAt (time : Nat) : (s.wakeAt time).world.stage = s.world.stage := by
  unfold wakeAt
  split <;> rfl

theorem stage_send (m : Message) (patience : Option Nat) :
    (s.send m patience).1.world.stage = s.world.stage := by
  unfold send
  split
  · split
    · rfl
    · split
      · rfl
      · dsimp only
        split
        · rw [stage_wakeAt]
          rfl
        · rfl
  · split
    · rfl
    · split <;> rfl

/-- An operation is answered on the same stage. -/
theorem stage_attempt (o : Operation) : (s.attempt o).1.world.stage = s.world.stage := by
  cases o with
  | pause ms =>
    rw [attempt, pause]
    split
    · rfl
    · exact stage_wakeAt s _
  | hold =>
    rw [attempt, hold]
    split <;> rfl
  | release => exact World.stage_closeIfAbandoned _
  | send m patience => exact s.stage_send m patience
  | collected p =>
    rw [attempt, collected]
    split
    · rfl
    · exact stage_wakeAt s _
  | reply w timeout =>
    rw [attempt, reply]
    split
    · rfl
    · exact stage_wakeAt s _
  | enter agent capability =>
    rw [attempt, enter]
    split
    · rfl
    · dsimp only
      split <;> rfl
  | _ => rfl

end Scene

/-! ## Turns of work -/

section Turns

variable {α : Type} {s s' : Scene} {o : Operation}

theorem Routine.advance_of_none {next : o.Answer → Routine α} (h : s.attempt o = (s', none)) :
    Routine.advance (.ask o next) s = (s', .waits (.ask o next)) := by
  rw [Routine.advance, h]

theorem Routine.advance_of_some {next : o.Answer → Routine α} {answer : o.Answer}
    (h : s.attempt o = (s', some answer)) :
    Routine.advance (.ask o next) s = Routine.advance (next answer) { s' with parking := {} } := by
  rw [Routine.advance, h]

theorem Program.advance_of_none {next : (Effect.plain o).Answer → Program α} {wave : Option (List Branch)}
    (h : s.attempt o = (s', none)) :
    Program.advance (.ask (.plain o) next) wave s =
      (s', .waits (.ask (.plain o) next, none)) := by
  simp only [Program.advance, h]

theorem Program.advance_of_some {next : (Effect.plain o).Answer → Program α} {wave : Option (List Branch)}
    {answer : o.Answer} (h : s.attempt o = (s', some answer)) :
    Program.advance (.ask (.plain o) next) wave s =
      Program.advance (next answer) none { s' with parking := {} } := by
  simp only [Program.advance, h]

/-- The steps of a wave when the program comes to it. -/
def Branch.opening (calls : List StepCall) (wave : Option (List Branch)) : List Branch :=
  wave.getD (calls.map fun c => .going { code := c.run })

theorem Program.advance_of_error {calls : List StepCall}
    {next : (Effect.wave calls).Answer → Program α} {wave : Option (List Branch)} {text : String}
    (h : Branch.advanceAll (Branch.opening calls wave) s = (s', .error text)) :
    Program.advance (.ask (.wave calls) next) wave s = (s', .crashed text) := by
  unfold Branch.opening at h
  simp only [Program.advance, h]

theorem Program.advance_of_open {calls : List StepCall}
    {next : (Effect.wave calls).Answer → Program α} {wave : Option (List Branch)} {branches : List Branch}
    (h : Branch.advanceAll (Branch.opening calls wave) s = (s', .ok branches))
    (hopen : Branch.outcomes? branches = none) :
    Program.advance (.ask (.wave calls) next) wave s =
      (s', .waits (.ask (.wave calls) next, some branches)) := by
  unfold Branch.opening at h
  simp only [Program.advance, h, hopen]

theorem Program.advance_of_outcomes {calls : List StepCall}
    {next : (Effect.wave calls).Answer → Program α} {wave : Option (List Branch)} {branches : List Branch}
    {outcomes : List StepOutcome}
    (h : Branch.advanceAll (Branch.opening calls wave) s = (s', .ok branches))
    (hall : Branch.outcomes? branches = some outcomes) :
    Program.advance (.ask (.wave calls) next) wave s =
      Program.advance (next outcomes) none { s' with parking := {} } := by
  unfold Branch.opening at h
  simp only [Program.advance, h, hall]

end Turns

/-- A property of worlds that holds on however an operation is answered. -/
def World.Stable (P : World → Prop) : Prop :=
  ∀ (s : Scene) (o : Operation), P s.world → P (s.attempt o).1.world

theorem World.stable_stage (stage : Stage) : World.Stable (·.stage = stage) :=
  fun s o h => (s.stage_attempt o).trans h

section Stable

variable {α : Type} {P : World → Prop}

theorem Routine.stable_advance (hP : World.Stable P) (r : Routine α) {s : Scene}
    (h : P s.world) : P (Routine.advance r s).1.world := by
  induction r generalizing s with
  | done a => exact h
  | crash text => exact h
  | ask o next ih =>
    have hattempt := hP s o h
    rcases hanswer : s.attempt o with ⟨s', _ | answer⟩ <;> rw [hanswer] at hattempt
    · rwa [Routine.advance_of_none hanswer]
    · rw [Routine.advance_of_some hanswer]
      exact ih answer hattempt

theorem Branch.stable_advance (hP : World.Stable P) (b : Branch) {s : Scene} (h : P s.world) :
    P (b.advance s).1.world := by
  cases b with
  | ended o => exact h
  | going strand =>
    have hturn := Routine.stable_advance hP strand.code (s := { s with parking := strand.parking }) h
    rw [advance]
    split <;> rename_i heq <;> rw [heq] at hturn <;> exact hturn

theorem Branch.stable_advanceAll (hP : World.Stable P) (bs : List Branch) {s : Scene}
    (h : P s.world) : P (advanceAll bs s).1.world := by
  induction bs generalizing s with
  | nil => exact h
  | cons b rest ih =>
    have hfirst := b.stable_advance hP h
    rw [advanceAll]
    rcases hb : b.advance s with ⟨s₁, text | b₁⟩
    · rwa [hb] at hfirst
    · rw [hb] at hfirst
      have hrest := ih hfirst
      dsimp only
      rcases hall : advanceAll rest s₁ with ⟨s₂, text | rest₂⟩ <;> rwa [hall] at hrest

theorem Program.stable_advance (hP : World.Stable P) (p : Program α)
    (wave : Option (List Branch)) {s : Scene} (h : P s.world) :
    P (Program.advance p wave s).1.world := by
  induction p generalizing wave s with
  | done a => exact h
  | crash text => exact h
  | ask e next ih =>
    cases e with
    | plain o =>
      have hattempt := hP s o h
      rcases hanswer : s.attempt o with ⟨s', _ | answer⟩ <;> rw [hanswer] at hattempt
      · rwa [Program.advance_of_none hanswer]
      · rw [Program.advance_of_some hanswer]
        exact ih answer none hattempt
    | wave calls =>
      have hall := Branch.stable_advanceAll hP (Branch.opening calls wave) h
      rcases hadvance : Branch.advanceAll (Branch.opening calls wave) s with
        ⟨s', text | branches⟩ <;> rw [hadvance] at hall
      · rwa [Program.advance_of_error hadvance]
      · cases houtcomes : Branch.outcomes? branches with
        | none => rwa [Program.advance_of_open hadvance houtcomes]
        | some outcomes =>
          rw [Program.advance_of_outcomes hadvance houtcomes]
          exact ih outcomes none hall

end Stable

namespace Thread

variable {α : Type} (t : Thread α) (w : World)

theorem stage_advance : (t.advance w).1.stage = w.stage := by
  have hstage := Program.stable_advance (World.stable_stage w.stage) t.code t.wave
    (s := ⟨w, t.parking, t.belongings⟩) rfl
  unfold Thread.advance
  split <;> rename_i heq <;> rw [heq] at hstage
  · exact hstage
  · exact (World.stage_takeBack _ _).trans hstage
  · exact (World.stage_takeBack _ _).trans hstage

theorem stage_abandon : (t.abandon w).stage = w.stage := by
  unfold Thread.abandon
  rw [World.stage_takeBack]
  exact World.stage_foldl w World.stage_leaveLine _

end Thread

/-! ## Turns of hosts -/

namespace World

variable (w : World)

theorem stage_deliverOne : w.deliverOne.stage = w.stage := by
  unfold deliverOne
  split <;> rfl

theorem stage_deliverAll : w.deliverAll.stage = w.stage := by
  unfold deliverAll
  split
  · exact stage_foldl w (fun w _ => w.stage_deliverOne) _
  · rfl

theorem stage_sweepNow : w.sweepNow.stage = w.stage := by
  unfold sweepNow
  split <;> rfl

/-- The part of a stage that lanes do not change, either. -/
def Stage.quiet (s : Stage) : Settings × Nat × List Host := (s.settings, s.now, s.ready)

theorem quiet_openInbox (position : Nat) :
    (w.openInbox position).stage.quiet = w.stage.quiet := by
  unfold openInbox
  split
  · rfl
  · split <;> rfl

theorem quiet_handlingTurn (number : Nat) :
    (w.handlingTurn number).stage.quiet = w.stage.quiet := by
  unfold handlingTurn
  split
  · rfl
  · rename_i h _
    have hstage := congrArg Stage.quiet (h.thread.stage_advance w)
    split <;> rename_i heq <;> rw [heq] at hstage <;> exact hstage

theorem quiet_handlingTurns (numbers : List Nat) :
    (numbers.foldl handlingTurn w).stage.quiet = w.stage.quiet := by
  induction numbers generalizing w with
  | nil => rfl
  | cons number numbers ih => exact (ih _).trans (w.quiet_handlingTurn number)

theorem quiet_laneTurn (position : Nat) : (w.laneTurn position).stage.quiet = w.stage.quiet :=
  (quiet_handlingTurns _ _).trans (w.quiet_openInbox position)

end World

namespace Run

variable {α : Type} (r : Run α)

theorem stage_userTurn : r.userTurn.world.stage = r.world.stage := by
  unfold userTurn
  split
  · rename_i t _
    have hstage := t.stage_advance r.world
    split <;> rename_i heq <;> rw [heq] at hstage
    · exact hstage
    · exact hstage
    · split
      · exact (Thread.stage_abandon _ _).trans hstage
      · exact hstage
  · rfl

/-- In a turn no time passes and nobody is lined up. -/
theorem quiet_turn (h : Host) : (r.turn h).world.stage.quiet = r.world.stage.quiet := by
  cases h with
  | user => exact congrArg World.Stage.quiet r.stage_userTurn
  | delivery => exact congrArg World.Stage.quiet r.world.stage_deliverAll
  | sweep => exact congrArg World.Stage.quiet r.world.stage_sweepNow
  | lane position => exact r.world.quiet_laneTurn position

theorem now_turn (h : Host) : (r.turn h).world.now = r.world.now :=
  congrArg (·.2.1) (r.quiet_turn h)

theorem ready_turn (h : Host) : (r.turn h).world.ready = r.world.ready :=
  congrArg (·.2.2) (r.quiet_turn h)

end Run

end Switchboard
