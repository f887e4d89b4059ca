import Switchboard.Proofs.Bus.Collections
import Switchboard.Proofs.World.Courses
import Switchboard.Proofs.World.Passages

/-!
# What work is told is in the history

A turn of some work is a passage of the network that shows just what the work asked for and was told.
So the course of a thread can be read off the history, whatever else happens in it.

* `Routine.told`, `Branch.toldAll`, `Program.told`, `Thread.told` : the exchanges of a turn;
* `Routine.passage_advance`, `Branch.passage_advanceAll`, `Program.passage_advance` : they go on with
  the course of the work, and they are what the network shows;
* `Thread.passage_advance` : so a thread goes on in a turn;
* `Duet`, `Duet.run` : two threads of one network that take turns in any way; `Duet.Kept.run` : their
  courses are in its history.
-/

namespace Switchboard

/-! ## The exchanges of a turn -/

def Routine.told {α : Type} : Routine α → Scene → List Answered
  | .ask o next, s =>
    match s.attempt o with
    | (s, some answer) => ⟨o, answer⟩ :: told (next answer) { s with parking := {} }
    | (_, none) => []
  | _, _ => []

namespace Branch

def told (s : Scene) : Branch → List Answered
  | ended _ => []
  | going strand => Routine.told strand.code { s with parking := strand.parking }

def toldAll : List Branch → Scene → List Answered
  | [], _ => []
  | b :: rest, s =>
    b.told s ++ match b.advance s with
      | (s, .ok _) => toldAll rest s
      | (_, .error _) => []

end Branch

def Program.told {α : Type} : Program α → Option (List Branch) → Scene → List Answered
  | .ask (.plain o) next, _, s =>
    match s.attempt o with
    | (s, some answer) => ⟨o, answer⟩ :: told (next answer) none { s with parking := {} }
    | (_, none) => []
  | .ask (.wave calls) next, wave, s =>
    Branch.toldAll (Branch.opening calls wave) s ++
      match Branch.advanceAll (Branch.opening calls wave) s with
      | (s, .ok branches) =>
        match Branch.outcomes? branches with
        | some outcomes => told (next outcomes) none { s with parking := {} }
        | none => []
      | (_, .error _) => []
  | _, _, _ => []

def Thread.told {α : Type} (t : Thread α) (w : World) : List Answered :=
  Program.told t.code t.wave ⟨w, t.parking, t.belongings⟩

theorem answeredIn_map (ys : List Answered) : answeredIn (ys.map .answered) = ys := by
  induction ys with
  | nil => rfl
  | cons y ys ih => exact congrArg (y :: ·) ih

theorem Scene.passage_attempt {s s' : Scene} {o : Operation} {told : Option o.Answer}
    (h : s.attempt o = (s', told)) :
    s.world.Passage (told.map fun answer => .answered ⟨o, answer⟩).toList s'.world := by
  have hstep := World.Passage.single (.asks s o)
  rwa [answered_of_attempt h, h] at hstep

/-! ## Turns of routines and waves -/

theorem Routine.passage_advance {α : Type} (r : Routine α) (s : Scene) :
    r.Course (r.told s) (Routine.advance r s).2.code ∧
      s.world.Passage ((r.told s).map .answered) (Routine.advance r s).1.world := by
  induction r generalizing s with
  | done a => exact ⟨.stay _, .stay⟩
  | crash text => exact ⟨.stay _, .stay⟩
  | ask o next ih =>
    rw [Routine.told]
    rcases hattempt : s.attempt o with ⟨s', _ | answer⟩
    · rw [Routine.advance_of_none hattempt]
      exact ⟨.stay _, Scene.passage_attempt hattempt⟩
    · rw [Routine.advance_of_some hattempt]
      obtain ⟨hcourse, hpassage⟩ := ih answer { s' with parking := {} }
      exact ⟨.go answer hcourse, (Scene.passage_attempt hattempt).trans hpassage⟩

namespace Branch

theorem passage_advance {b b' : Branch} {s s' : Scene} (h : b.advance s = (s', .ok b')) :
    b.code.Course (b.told s) b'.code ∧ s.world.Passage ((b.told s).map .answered) s'.world := by
  cases b with
  | ended o =>
    cases h
    exact ⟨.stay _, .stay⟩
  | going strand =>
    obtain ⟨hcourse, hpassage⟩ :=
      Routine.passage_advance strand.code { s with parking := strand.parking }
    rw [advance] at h
    split at h <;> rename_i hturn <;> rw [hturn] at hcourse hpassage <;> cases h
    · exact ⟨hcourse, hpassage⟩
    · exact ⟨hcourse, hpassage⟩

theorem passage_advanceAll {bs bs' : List Branch} {s s' : Scene}
    (h : advanceAll bs s = (s', .ok bs')) :
    SideBySide (bs.map code) (toldAll bs s) (bs'.map code) ∧
      s.world.Passage ((toldAll bs s).map .answered) s'.world := by
  induction bs generalizing s s' bs' with
  | nil =>
    cases h
    exact ⟨.stay _, .stay⟩
  | cons b rest ih =>
    rw [advanceAll] at h
    split at h
    · cases h
    · rename_i s₁ b₁ hfirst
      split at h
      · cases h
      · rename_i s₂ rest₂ hrest
        cases h
        obtain ⟨hcourse, hpassage⟩ := passage_advance hfirst
        obtain ⟨hside, hpassage'⟩ := ih hrest
        rw [toldAll, hfirst, List.map_append]
        exact ⟨(hcourse.sideBySide _).append hside.cons, hpassage.trans hpassage'⟩

end Branch

/-! ## Turns of programs -/

/-- A program that is not at a wave has no steps. -/
theorem Program.Course.wave_eq_none {α : Type} {p q : Program α} {wave : Option (List Branch)}
    {xs : List Answered} (h : Course p xs (q.left wave))
    (hq : ∀ calls next, q ≠ .ask (.wave calls) next) : wave = none := by
  cases wave with
  | none => rfl
  | some branches =>
    obtain ⟨calls, next, heq⟩ := h.exists_wave
    exact absurd heq (hq calls next)

/-- What is left of a program after a turn, unless it crashed. -/
def Turn.rest? {α : Type} : Turn (Program α × Option (List Branch)) α → Option (Program.Rest α)
  | .waits (rest, wave) => some (rest.left wave)
  | .ended a => some ⟨.done a, none⟩
  | .crashed _ => none

theorem Program.passage_advance {α : Type} {p q : Program α} {wave : Option (List Branch)}
    {xs : List Answered} (h : Course p xs (q.left wave)) (s : Scene) {rest : Program.Rest α}
    (hrest : (Program.advance q wave s).2.rest? = some rest) :
    Course p (xs ++ Program.told q wave s) rest ∧
      s.world.Passage ((Program.told q wave s).map .answered)
        (Program.advance q wave s).1.world := by
  induction q generalizing xs wave s with
  | done a =>
    obtain rfl := h.wave_eq_none (by simp)
    obtain rfl := Option.some.inj hrest
    exact ⟨by simpa [told, left] using h, .stay⟩
  | crash text => cases hrest
  | ask e next ih =>
    cases e with
    | plain o =>
      obtain rfl := h.wave_eq_none (by simp)
      rw [told]
      rcases hattempt : s.attempt o with ⟨s', _ | answer⟩
      · rw [advance_of_none hattempt] at hrest ⊢
        obtain rfl := Option.some.inj hrest
        exact ⟨by simpa using h, Scene.passage_attempt hattempt⟩
      · rw [advance_of_some hattempt] at hrest ⊢
        obtain ⟨hcourse, hpassage⟩ := ih answer (h.answered answer) _ hrest
        rw [List.append_assoc] at hcourse
        exact ⟨hcourse, (Scene.passage_attempt hattempt).trans hpassage⟩
    | wave calls =>
      rw [told]
      rcases hadvance : Branch.advanceAll (Branch.opening calls wave) s with ⟨s', text | branches⟩
      · rw [advance_of_error hadvance] at hrest
        cases hrest
      · obtain ⟨hside, hpassage⟩ := Branch.passage_advanceAll hadvance
        have hwithin := h.opened.append_within hside
        cases houtcomes : Branch.outcomes? branches with
        | none =>
          rw [advance_of_open hadvance houtcomes] at hrest ⊢
          obtain rfl := Option.some.inj hrest
          simp only [List.append_nil, houtcomes]
          exact ⟨hwithin, hpassage⟩
        | some outcomes =>
          rw [advance_of_outcomes hadvance houtcomes] at hrest ⊢
          rw [Branch.code_of_outcomes? houtcomes] at hwithin
          obtain ⟨hcourse, hpassage'⟩ := @ih outcomes none _ hwithin.close _ hrest
          rw [List.append_assoc] at hcourse
          simp only [houtcomes, List.map_append]
          exact ⟨hcourse, hpassage.trans hpassage'⟩

/-! ## Threads -/

/-- What is left of the program of a thread after a turn, unless it crashed. -/
def Turn.left? {α : Type} : Turn (Thread α) α → Option (Program.Rest α)
  | .waits t => some (t.code.left t.wave)
  | .ended a => some ⟨.done a, none⟩
  | .crashed _ => none

/-- What a thread ended with. -/
def Turn.value? {α : Type} : Turn (Thread α) α → Option α
  | .ended a => some a
  | _ => none

theorem Turn.left?_of_value? {α : Type} {turn : Turn (Thread α) α} {a : α}
    (h : turn.value? = some a) : turn.left? = some ⟨.done a, none⟩ := by
  cases turn with
  | ended b =>
    obtain rfl := Option.some.inj h
    rfl
  | _ => cases h

/-- In a turn a thread goes on along its program, and what it is told the network shows. -/
theorem Thread.passage_advance {α : Type} {p : Program α} {t : Thread α} {ys : List Answered}
    (h : p.Course ys (t.code.left t.wave)) (w : World) {rest : Program.Rest α}
    (hrest : (t.advance w).2.left? = some rest) :
    p.Course (ys ++ t.told w) rest ∧
      w.Passage ((t.told w).map .answered) (t.advance w).1 := by
  have hturn := fun rest => @Program.passage_advance α p t.code t.wave ys h
    ⟨w, t.parking, t.belongings⟩ rest
  have hended : ∀ {xs : List Happening} {w' : World} (b : Belongings), w.Passage xs w' →
      w.Passage xs (w'.takeBack b) := fun b hpassage => by
    simpa using hpassage.trans (.single (.ends _ b))
  unfold advance at hrest ⊢
  rcases hadvance : Program.advance t.code t.wave ⟨w, t.parking, t.belongings⟩ with
    ⟨s, ⟨code, wave⟩ | a | text⟩ <;> rw [hadvance] at hrest hturn
  · exact hturn rest hrest
  · obtain ⟨hcourse, hpassage⟩ := hturn rest hrest
    exact ⟨hcourse, hended _ hpassage⟩
  · cases hrest

/-! ## Two threads of one network -/

/-- A thread with what it was told. -/
structure Player (α : Type) where
  turn : Turn (Thread α) α
  told : List Answered := []

/-- A player has come some way along a program, and the history shows what it was told. -/
def Player.Follows {α : Type} (q : Player α) (p : Program α) (xs : List Happening) : Prop :=
  ∀ rest, q.turn.left? = some rest → p.Course q.told rest ∧ q.told.Sublist (answeredIn xs)

namespace Player

variable {α : Type} {q : Player α} {p : Program α} {xs : List Happening}

/-- A player goes on, unless it has come to its end. -/
def play (q : Player α) (w : World) : World × Player α :=
  match q.turn with
  | .waits t => ((t.advance w).1, ⟨(t.advance w).2, q.told ++ t.told w⟩)
  | _ => (w, q)

theorem Follows.later (h : q.Follows p xs) (ys : List Happening) : q.Follows p (xs ++ ys) := by
  intro rest hrest
  obtain ⟨hcourse, hshown⟩ := h rest hrest
  rw [answeredIn_append]
  exact ⟨hcourse, hshown.trans (List.sublist_append_left _ _)⟩

theorem Follows.play (h : q.Follows p xs) (w : World) :
    ∃ ys, w.Passage ys (q.play w).1 ∧ (q.play w).2.Follows p (xs ++ ys) := by
  unfold Player.play
  split
  · rename_i t hturn
    obtain ⟨hcourse, hshown⟩ := h _ (by rw [hturn]; rfl)
    cases hrest : (t.advance w).2.left? with
    | none =>
      obtain ⟨ys, hpassage, -⟩ := t.leads_advance w
      exact ⟨ys, hpassage, fun rest hrest' => by simp [hrest] at hrest'⟩
    | some rest =>
      obtain ⟨hcourse', hpassage⟩ := Thread.passage_advance hcourse w hrest
      refine ⟨_, hpassage, fun rest' hrest' => ?_⟩
      obtain rfl := Option.some.inj (hrest.symm.trans hrest')
      rw [answeredIn_append, answeredIn_map]
      exact ⟨hcourse', hshown.append_right _⟩
  · exact ⟨[], .stay, h.later []⟩

end Player

/-- Two players on one network. -/
structure Duet (α : Type) where
  world : World
  first : Player α
  second : Player α

/-- Whose turn it is. -/
inductive Cue where
  | first
  | second
  | delivery
  | sweep
  | lane (position : Nat)
  | pass (ms : Nat)

namespace Duet

variable {α : Type} {d : Duet α} {p p' : Program α} {settings : Settings}

def start (w : World) (p p' : Program α) : Duet α :=
  ⟨w, ⟨.waits { code := p }, []⟩, ⟨.waits { code := p' }, []⟩⟩

def step (d : Duet α) : Cue → Duet α
  | .first => { d with world := (d.first.play d.world).1, first := (d.first.play d.world).2 }
  | .second => { d with world := (d.second.play d.world).1, second := (d.second.play d.world).2 }
  | .delivery => { d with world := d.world.deliverAll }
  | .sweep => { d with world := d.world.sweepNow }
  | .lane position => { d with world := d.world.laneTurn position }
  | .pass ms => { d with world := { d.world with now := d.world.now + ms } }

def run (d : Duet α) (cues : List Cue) : Duet α := cues.foldl step d

/-- The network has a history which shows what both players were told. -/
def Kept (d : Duet α) (settings : Settings) (p p' : Program α) : Prop :=
  ∃ xs, (World.opened settings).Passage xs d.world ∧ d.first.Follows p xs ∧ d.second.Follows p' xs

theorem kept_start {xs : List Happening} {w : World} (h : (World.opened settings).Passage xs w)
    (p p' : Program α) : (start w p p').Kept settings p p' := by
  have hstart : ∀ p : Program α, (⟨.waits { code := p }, []⟩ : Player α).Follows p xs := by
    intro p rest hrest
    obtain rfl := Option.some.inj hrest
    exact ⟨.stop p, List.nil_sublist _⟩
  exact ⟨xs, h, hstart p, hstart p'⟩

theorem Kept.of_leads (h : d.Kept settings p p') {w : World} (hleads : World.Leads d.world w) :
    Kept { d with world := w } settings p p' := by
  obtain ⟨xs, hpassage, hfirst, hsecond⟩ := h
  obtain ⟨ys, hstep, -⟩ := hleads
  exact ⟨xs ++ ys, hpassage.trans hstep, hfirst.later ys, hsecond.later ys⟩

theorem Kept.step (h : d.Kept settings p p') (c : Cue) : (d.step c).Kept settings p p' := by
  cases c with
  | first =>
    obtain ⟨xs, hpassage, hfirst, hsecond⟩ := h
    obtain ⟨ys, hstep, hfirst'⟩ := hfirst.play d.world
    exact ⟨xs ++ ys, hpassage.trans hstep, hfirst', hsecond.later ys⟩
  | second =>
    obtain ⟨xs, hpassage, hfirst, hsecond⟩ := h
    obtain ⟨ys, hstep, hsecond'⟩ := hsecond.play d.world
    exact ⟨xs ++ ys, hpassage.trans hstep, hfirst.later ys, hsecond'⟩
  | delivery => exact h.of_leads d.world.leads_deliverAll
  | sweep => exact h.of_leads (.of_step (.sweeps d.world) (by simp))
  | lane position => exact h.of_leads (d.world.leads_laneTurn position)
  | pass ms => exact h.of_leads (.of_same rfl rfl rfl rfl rfl)

/-- Whichever turns two programs take on a network, its history shows what they were told. -/
theorem Kept.run (h : d.Kept settings p p') (cues : List Cue) : (d.run cues).Kept settings p p' := by
  induction cues generalizing d with
  | nil => exact h
  | cons c cues ih => exact ih (h.step c)

end Duet

end Switchboard
