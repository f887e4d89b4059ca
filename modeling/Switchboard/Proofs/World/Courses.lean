import Switchboard.Proofs.Flow.Courses
import Switchboard.Proofs.World.Rounds

/-!
# Turns are courses

In a world, work goes on by turns, between which anything may happen to the world. What it asked for
and was told up to the end of a turn is a course of its program.

* `Routine.course_advance`, `Branch.sideBySide_advanceAll` : a turn of a routine, and of the steps of a
  wave;
* `Thread.Follows` : a thread has come some way along a program; `Thread.Follows.advance` : and goes on
  in a turn in any world;
* `World.course_run` : what a program of the user ends with is the end of one of its courses.
-/

namespace Switchboard

/-- What a turn of a routine has left of it. -/
def Turn.code {α : Type} : Turn (Routine α) α → Routine α
  | waits r => r
  | ended a => .done a
  | crashed text => .crash text

/-- In a turn, a routine asks for something and is told something. -/
theorem Routine.course_advance {α : Type} (r : Routine α) (s : Scene) :
    ∃ xs, r.Course xs (Routine.advance r s).2.code := by
  induction r generalizing s with
  | done a => exact ⟨[], .stay _⟩
  | crash text => exact ⟨[], .stay _⟩
  | ask o next ih =>
    rw [Routine.advance]
    split
    · rename_i s' answer _
      obtain ⟨xs, hcourse⟩ := ih answer { s' with parking := {} }
      exact ⟨_, .go answer hcourse⟩
    · exact ⟨[], .stay _⟩

/-! ## The steps of a wave -/

namespace Branch

/-- What is left of a step. -/
def code : Branch → Routine StepOutcome
  | going strand => strand.code
  | ended o => .done o

theorem course_advance {b b' : Branch} {s s' : Scene} (h : b.advance s = (s', .ok b')) :
    ∃ xs, b.code.Course xs b'.code := by
  cases b with
  | ended o =>
    cases h
    exact ⟨[], .stay _⟩
  | going strand =>
    obtain ⟨xs, hcourse⟩ := Routine.course_advance strand.code { s with parking := strand.parking }
    refine ⟨xs, ?_⟩
    rw [advance] at h
    split at h
    · rename_i code hturn
      cases h
      rwa [hturn] at hcourse
    · rename_i o hturn
      cases h
      rwa [hturn] at hcourse
    · cases h

end Branch

theorem SideBySide.cons {β : Type} {r : Routine β} {rs rs' : List (Routine β)} {ys : List Answered}
    (h : SideBySide rs ys rs') : SideBySide (r :: rs) ys (r :: rs') := by
  induction h with
  | stay rs => exact .stay _
  | @go rs rs' xs i o next hi answer _ ih =>
    exact .go (i := i + 1) (by simpa using hi) answer (by simpa using ih)

theorem Routine.Course.sideBySide {β : Type} {r r' : Routine β} {xs : List Answered}
    (h : r.Course xs r') (rs : List (Routine β)) : SideBySide (r :: rs) xs (r' :: rs) := by
  induction h with
  | stay r => exact .stay _
  | go answer _ ih => exact .go (i := 0) rfl answer ih

namespace Branch

theorem sideBySide_advanceAll {bs bs' : List Branch} {s s' : Scene}
    (h : advanceAll bs s = (s', .ok bs')) : ∃ xs, SideBySide (bs.map code) xs (bs'.map code) := by
  induction bs generalizing s s' bs' with
  | nil =>
    cases h
    exact ⟨[], .stay _⟩
  | cons b rest ih =>
    rw [advanceAll] at h
    split at h
    · cases h
    · rename_i s₁ b₁ hfirst
      split at h
      · cases h
      · rename_i s₂ rest₂ hrest
        cases h
        obtain ⟨xs, hcourse⟩ := course_advance hfirst
        obtain ⟨ys, hside⟩ := ih hrest
        exact ⟨xs ++ ys, (hcourse.sideBySide _).append hside.cons⟩

/-- When there are the outcomes of all steps, all have ended. -/
theorem ended_of_outcomes? {bs : List Branch} {outcomes : List StepOutcome}
    (h : outcomes? bs = some outcomes) : bs = outcomes.map .ended := by
  induction bs generalizing outcomes with
  | nil =>
    cases h
    rfl
  | cons b rest ih =>
    cases b with
    | going strand => simp [outcomes?] at h
    | ended o =>
      obtain ⟨others, hrest, rfl⟩ : ∃ others, outcomes? rest = some others ∧
          o :: others = outcomes := by
        simpa [outcomes?, Option.bind_eq_some_iff] using h
      rw [List.map_cons, ← ih hrest]

theorem code_of_outcomes? {bs : List Branch} {outcomes : List StepOutcome}
    (h : outcomes? bs = some outcomes) : bs.map code = outcomes.map .done := by
  rw [ended_of_outcomes? h, List.map_map]
  rfl

end Branch

/-! ## Programs -/

/-- What is left of a program of whose wave these steps are left. -/
def Program.left {α : Type} (p : Program α) (wave : Option (List Branch)) : Program.Rest α :=
  ⟨p, wave.map (·.map Branch.code)⟩

/-- Only a wave has steps. -/
theorem Program.Course.exists_wave {α : Type} {p q : Program α} {xs : List Answered}
    {steps : List (Routine StepOutcome)} (h : Course p xs ⟨q, some steps⟩) :
    ∃ calls next, q = .ask (.wave calls) next := by
  generalize hrest : (⟨q, some steps⟩ : Program.Rest α) = rest at h
  induction h with
  | stop p => cases hrest
  | plain answer _ ih => exact ih hrest
  | within h =>
    cases hrest
    exact ⟨_, _, rfl⟩
  | wave h _ ih => exact ih hrest

/-- The course of a program that waits for an operation goes on with its answer. -/
theorem Program.Course.answered {α : Type} {p : Program α} {xs : List Answered} {o : Operation}
    {next : o.Answer → Program α} {wave : Option (List Branch)}
    (h : Course p xs (Program.left (.ask (.plain o) next) wave)) (answer : o.Answer) :
    Course p (xs ++ [⟨o, answer⟩]) (Program.left (next answer) none) := by
  cases wave with
  | none => exact h.append (.plain answer (.stop _))
  | some branches =>
    obtain ⟨calls, next', heq⟩ := h.exists_wave
    cases heq

/-- The course of a program that waits for a wave, whose steps start as their calls say. -/
theorem Program.Course.opened {α : Type} {p : Program α} {xs : List Answered}
    {calls : List StepCall} {next : List StepOutcome → Program α} {wave : Option (List Branch)}
    (h : Course p xs (Program.left (.ask (.wave calls) next) wave)) :
    Course p xs (Program.left (.ask (.wave calls) next)
      (some (wave.getD (calls.map fun c => .going { code := c.run })))) := by
  cases wave with
  | some branches => exact h
  | none =>
    have hcodes : (calls.map fun c => Branch.going { code := c.run }).map Branch.code =
        calls.map StepCall.run := by
      simp [Branch.code, Function.comp_def]
    have hopen := h.append (.within (.stay (calls.map StepCall.run)))
    rw [List.append_nil] at hopen
    rwa [left, Option.map_some, Option.getD_none, hcodes]

/-- A turn goes on with the course of a program. -/
theorem Program.course_advance {α : Type} {p q : Program α} {wave : Option (List Branch)}
    {xs : List Answered} (h : Course p xs (q.left wave)) (s : Scene) :
    match (Program.advance q wave s).2 with
    | .waits (rest, wave) => ∃ ys, Course p ys (rest.left wave)
    | .ended a => ∃ ys, Course p ys ⟨.done a, none⟩
    | .crashed _ => True := by
  induction q generalizing xs wave s with
  | done a =>
    cases wave with
    | none => exact ⟨xs, h⟩
    | some branches =>
      obtain ⟨calls, next, heq⟩ := h.exists_wave
      cases heq
  | crash text => trivial
  | ask e next ih =>
    cases e with
    | plain o =>
      rcases hanswer : s.attempt o with ⟨s', _ | answer⟩
      · cases wave with
        | none =>
          simp only [Program.advance, hanswer]
          exact ⟨xs, h⟩
        | some branches =>
          obtain ⟨calls, next', heq⟩ := h.exists_wave
          cases heq
      · simp only [Program.advance, hanswer]
        exact ih answer (h.answered answer) _
    | wave calls =>
      rcases hadvance : Branch.advanceAll
        (wave.getD (calls.map fun c => .going { code := c.run })) s with ⟨s', text | branches⟩
      · simp only [Program.advance, hadvance]
      · obtain ⟨ys, hside⟩ := Branch.sideBySide_advanceAll hadvance
        have hwithin := h.opened.append_within hside
        cases houtcomes : Branch.outcomes? branches with
        | none =>
          simp only [Program.advance, hadvance, houtcomes]
          exact ⟨_, hwithin⟩
        | some outcomes =>
          simp only [Program.advance, hadvance, houtcomes]
          rw [Branch.code_of_outcomes? houtcomes] at hwithin
          exact @ih outcomes none _ hwithin.close _

/-! ## Threads -/

namespace Thread

variable {α : Type} {p : Program α} {t : Thread α}

/-- A thread has come some way along a program. -/
def Follows (t : Thread α) (p : Program α) : Prop := ∃ xs, p.Course xs (t.code.left t.wave)

theorem follows_start (p : Program α) : Follows { code := p } p := ⟨[], .stop p⟩

/-- In a turn, in whatever world, a thread goes on along its program. -/
theorem Follows.advance (h : t.Follows p) (w : World) :
    match (t.advance w).2 with
    | .waits t' => t'.Follows p
    | .ended a => ∃ xs, p.Course xs ⟨.done a, none⟩
    | .crashed _ => True := by
  obtain ⟨xs, hcourse⟩ := h
  have hturn := Program.course_advance hcourse ⟨w, t.parking, t.belongings⟩
  unfold Thread.advance
  rcases hadvance : Program.advance t.code t.wave ⟨w, t.parking, t.belongings⟩ with
    ⟨s, ⟨code, wave⟩ | a | text⟩
  · rwa [hadvance] at hturn
  · rwa [hadvance] at hturn
  · trivial

end Thread

/-! ## Runs -/

/-- The user has come some way along a program, or to its end. -/
def UserState.Follows {α : Type} (u : UserState α) (p : Program α) : Prop :=
  match u with
  | .going t => t.Follows p
  | .ended a => ∃ xs, p.Course xs ⟨.done a, none⟩
  | _ => True

theorem Run.follows_userTurn {α : Type} {p : Program α} {r : Run α} (h : r.user.Follows p) :
    r.userTurn.user.Follows p := by
  unfold userTurn
  split
  · rename_i t ht
    rw [ht] at h
    have hturn := Thread.Follows.advance h r.world
    split
    · rename_i hadvance
      rwa [hadvance] at hturn
    · trivial
    · rename_i hadvance
      rw [hadvance] at hturn
      split
      · trivial
      · exact hturn
  · exact h

theorem Run.follows_go {α : Type} {p : Program α} {r : Run α} (h : r.user.Follows p)
    (fuel : Nat) : (r.go fuel).user.Follows p := by
  refine go_induction (P := fun r => r.user.Follows p) (fun r h => ?_) (fun r host rest h _ => ?_)
    (fun r t h _ _ => ?_) h fuel
  · rwa [user_dispatch]
  · cases host with
    | user => exact follows_userTurn (r := { r with world := { r.world with ready := rest } }) h
    | _ => exact h
  · rwa [user_tick]

/-- What a program of the user ends with is the end of one of its courses. -/
theorem World.course_run {α : Type} {w : World} {p : Program α} {a : α}
    (h : (w.run p).2 = .ended a) : ∃ xs, p.Course xs ⟨.done a, none⟩ := by
  have hstart : (Run.wakeHost ⟨w, .going { code := p }, w.now + userPatience⟩ .user).user.Follows
      p := by
    rw [(Run.lined_wakeHost _ _).user]
    exact Thread.follows_start p
  have hgo := Run.follows_go hstart turnLimit
  change (Run.go _ _).user = _ at h
  rwa [h] at hgo

end Switchboard
