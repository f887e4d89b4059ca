import Switchboard.Proofs.Agent.Answers
import Switchboard.Proofs.World.Exchanges

/-!
# Turns on a network that is kept

Work that cannot break off does not break off in a turn, nor do the steps of its waves. On a network
that the user keeps, an agent that was ever registered is told so, can hold the network and has its
messages accepted: who sends without limit never gives up.

* `Operation.Patient`, `Branch.Steady`, `Program.Steady` : nothing is arranged by which a message could
  be given up, and no step can break off;
* `World.Grounds.Hosts` : the network is kept, and an agent belongs to it;
* `Routine.live_advance`, `Branch.live_advanceAll`, `Program.live_advance` : a turn on such a network;
* `Thread.live_advance` : the same for a thread.
-/

namespace Switchboard

/-! ## Patience -/

/-- What work arranged that has come to an operation: no alarm ends a wait for a place in the queue
that has no limit. -/
def Operation.Patient (o : Operation) (p : Parking) : Prop :=
  match o with
  | .send _ none => p.alarm = none
  | _ => True

theorem Operation.patient_start (o : Operation) : o.Patient {} := by
  unfold Patient
  split
  · rfl
  · trivial

/-- A routine that has come to an operation is patient with it. -/
def Routine.Patient {α : Type} (r : Routine α) (p : Parking) : Prop :=
  ∀ o next, r = .ask o next → o.Patient p

theorem Routine.patient_start {α : Type} (r : Routine α) : r.Patient {} :=
  fun o _ _ => o.patient_start

/-- A step of a wave that cannot break off, and is patient. -/
def Branch.Steady : Branch → Prop
  | .ended _ => True
  | .going strand => Flow.Unbroken strand.code ∧ Routine.Patient strand.code strand.parking

/-- What is left of a program and of the wave that it waits for is patient, and no step can break
off. -/
def Program.Steady {α : Type} (code : Program α) (wave : Option (List Branch)) (p : Parking) :
    Prop :=
  (∀ o next, code = .ask (.plain o) next → o.Patient p) ∧
    ∀ branches, wave = some branches → ∀ b ∈ branches, b.Steady

theorem Program.steady_plain {α : Type} {o : Operation} {p : Parking}
    {next : o.Answer → Program α} (h : o.Patient p) : Program.Steady (.ask (.plain o) next) none p := by
  refine ⟨fun o' next' heq => ?_, fun branches hwave => ?_⟩
  · cases heq
    exact h
  · cases hwave

theorem Program.steady_wave {α : Type} {calls : List StepCall} {branches : List Branch}
    {next : (Effect.wave calls).Answer → Program α} {p : Parking} (h : ∀ b ∈ branches, b.Steady) :
    Program.Steady (.ask (.wave calls) next) (some branches) p := by
  refine ⟨fun o next' heq => ?_, fun bs hwave => ?_⟩
  · cases heq
  · cases hwave
    exact h

theorem Program.steady_start {α : Type} (code : Program α) : code.Steady none {} :=
  ⟨fun o _ _ => o.patient_start, fun branches hwave => by cases hwave⟩

theorem Branch.steady_opening {calls : List StepCall} {wave : Option (List Branch)}
    (h : ∀ branches, wave = some branches → ∀ b ∈ branches, b.Steady) :
    ∀ b ∈ opening calls wave, b.Steady := by
  cases wave with
  | some branches => exact h branches rfl
  | none =>
    intro b hb
    obtain ⟨call, -, rfl⟩ := List.mem_map.mp hb
    exact ⟨call.unbroken_run, Routine.patient_start _⟩

/-! ## Operations -/

/-- The user keeps the network, and the agent belongs to it. -/
structure World.Grounds.Hosts (g : World.Grounds) (agent : Nat) : Prop where
  owned : g.owned = true
  present : g.gone = false
  attached : ∃ a, g.agents[agent]? = some (a, true)

section Turns

variable {g : World.Grounds} {agent : Nat} {s s' : Scene} {o : Operation}

/-- Who waits for a place without limit goes on waiting, or his message is accepted. -/
theorem Scene.patient_send (hp : s.parking.alarm = none) (m : Message) :
    (∃ s', s.send m none = (s', none) ∧ s'.parking.alarm = none) ∨
    ∃ s', s.send m none = (s', some true) := by
  unfold send
  split
  · split
    · exact .inr ⟨_, rfl⟩
    · exact .inl ⟨_, rfl, hp⟩
  · split
    · exact .inr ⟨_, rfl⟩
    · have hup : s.timeIsUp = false := by
        unfold timeIsUp
        rw [hp]
      rw [hup]
      exact .inl ⟨_, rfl, hp⟩

theorem Scene.patient_attempt (hp : o.Patient s.parking) (h : s.attempt o = (s', none)) :
    o.Patient s'.parking := by
  unfold Operation.Patient
  split
  · rename_i m
    rcases Scene.patient_send hp m with ⟨s₁, hsend, halarm⟩ | ⟨s₁, hsend⟩
    · have heq : (s₁, none) = (s', none) := hsend.symm.trans h
      cases heq
      exact halarm
    · have heq : (s₁, some true) = (s', none) := hsend.symm.trans h
      cases heq
  · trivial

/-- An agent that belongs to a network is told what it can rely on. -/
theorem Scene.live_attempt (hg : g.Hosts agent) (hs : s.world.grounds = g)
    (hp : o.Patient s.parking) {answer : o.Answer} (h : s.attempt o = (s', some answer)) :
    Answered.Live agent ⟨o, answer⟩ := by
  cases o with
  | hold =>
    have hpresent : s.world.gone = false := (congrArg World.Grounds.gone hs).trans hg.present
    obtain ⟨s₁, hhold, -⟩ := s.hold_of_present hpresent
    have heq : (s₁, some true) = (s', some answer) := hhold.symm.trans h
    cases heq
    rfl
  | attached other =>
    rintro rfl
    obtain ⟨a, ha⟩ := hg.attached
    have hagents : (s.world.actors.map fun actor => (actor.agent, actor.attached))[other]? =
        some (a, true) := by
      rw [← ha, ← hs]
      rfl
    rw [List.getElem?_map] at hagents
    obtain ⟨actor, hactor, hboth⟩ := Option.map_eq_some_iff.mp hagents
    have heq : (s, some (((s.world.actors[other]?).map (·.attached)).getD false)) =
        (s', some answer) := h
    obtain rfl := Option.some.inj (Prod.mk.inj heq).2
    rw [hactor]
    exact (Prod.mk.inj hboth).2
  | send m patience =>
    cases patience with
    | some ms => trivial
    | none =>
      rcases Scene.patient_send hp m with ⟨s₁, hsend, -⟩ | ⟨s₁, hsend⟩
      · have heq : (s₁, none) = (s', some answer) := hsend.symm.trans h
        cases heq
      · have heq : (s₁, some true) = (s', some answer) := hsend.symm.trans h
        cases heq
        rfl
  | _ => trivial

/-! ## Turns of routines and waves -/

/-- In a turn a routine is told what it can rely on, and it is patient afterwards. -/
theorem Routine.live_advance {α : Type} (hg : g.Hosts agent) (r : Routine α) {s : Scene}
    (hs : s.world.grounds = g) (hp : r.Patient s.parking) :
    (∀ x ∈ r.told s, x.Live agent) ∧
      ∀ rest, (Routine.advance r s).2 = .waits rest →
        rest.Patient (Routine.advance r s).1.parking := by
  induction r generalizing s with
  | done a => exact ⟨by simp [told], fun rest hrest => by cases hrest⟩
  | crash text => exact ⟨by simp [told], fun rest hrest => by cases hrest⟩
  | ask o next ih =>
    have hpatient := hp o next rfl
    have hgrounds := World.stable_grounds hg.owned s o hs
    rw [told]
    rcases hattempt : s.attempt o with ⟨s', _ | answer⟩ <;> rw [hattempt] at hgrounds
    · rw [advance_of_none hattempt]
      refine ⟨by simp, fun rest hrest => ?_⟩
      cases hrest
      intro o' next' heq
      cases heq
      exact Scene.patient_attempt hpatient hattempt
    · rw [advance_of_some hattempt]
      obtain ⟨hlive, hrest⟩ := ih answer (s := { s' with parking := {} }) hgrounds
        (Routine.patient_start _)
      exact ⟨List.forall_mem_cons.mpr ⟨Scene.live_attempt hg hs hpatient hattempt, hlive⟩, hrest⟩

namespace Branch

/-- In a turn a step does not break off. -/
theorem live_advance (hg : g.Hosts agent) (hs : s.world.grounds = g) {b : Branch}
    (hb : b.Steady) :
    (∀ x ∈ b.told s, x.Live agent) ∧ ∃ s' b', b.advance s = (s', .ok b') ∧ b'.Steady := by
  cases b with
  | ended o => exact ⟨by simp [told], s, _, rfl, trivial⟩
  | going strand =>
    obtain ⟨hunbroken, hpatient⟩ := hb
    obtain ⟨hlive, hrest⟩ := Routine.live_advance hg strand.code
      (s := { s with parking := strand.parking }) hs hpatient
    obtain ⟨hcourse, -⟩ :=
      Routine.passage_advance strand.code { s with parking := strand.parking }
    have hleft := hcourse.unbroken hunbroken
    refine ⟨hlive, ?_⟩
    rw [advance]
    rcases hturn : Routine.advance strand.code { s with parking := strand.parking } with
      ⟨s', code | o | text⟩ <;> rw [hturn] at hleft hrest
    · exact ⟨s', _, rfl, hleft, hrest code rfl⟩
    · exact ⟨s', _, rfl, trivial⟩
    · cases hleft

theorem live_advanceAll (hg : g.Hosts agent) {bs : List Branch} {s : Scene}
    (hs : s.world.grounds = g) (hbs : ∀ b ∈ bs, b.Steady) :
    (∀ x ∈ toldAll bs s, x.Live agent) ∧
      ∃ s' bs', advanceAll bs s = (s', .ok bs') ∧ ∀ b ∈ bs', b.Steady := by
  induction bs generalizing s with
  | nil => exact ⟨by simp [toldAll], s, [], rfl, by simp⟩
  | cons b rest ih =>
    obtain ⟨hb, hrest⟩ := List.forall_mem_cons.mp hbs
    obtain ⟨hlive, s₁, b₁, hfirst, hb₁⟩ := live_advance hg hs hb
    have hgrounds := b.stable_advance (World.stable_grounds hg.owned) hs
    rw [hfirst] at hgrounds
    obtain ⟨hlive', s₂, rest₂, hall, hrest₂⟩ := ih hgrounds hrest
    refine ⟨?_, s₂, b₁ :: rest₂, ?_, List.forall_mem_cons.mpr ⟨hb₁, hrest₂⟩⟩
    · rw [toldAll, hfirst]
      exact List.forall_mem_append.mpr ⟨hlive, hlive'⟩
    · simp only [advanceAll, hfirst, hall]

end Branch

/-! ## Turns of programs -/

/-- In a turn a program that cannot break off does not break off, and is told what it can rely on. -/
theorem Program.live_advance {α : Type} (hg : g.Hosts agent) (p : Program α)
    (hp : Flow.Unbroken p) (wave : Option (List Branch)) {s : Scene} (hs : s.world.grounds = g)
    (hsteady : p.Steady wave s.parking) :
    (∀ x ∈ p.told wave s, x.Live agent) ∧
      ((∃ a, (p.advance wave s).2 = .ended a) ∨
        ∃ rest wave', (p.advance wave s).2 = .waits (rest, wave') ∧
          rest.Steady wave' (p.advance wave s).1.parking) := by
  induction hp generalizing wave s with
  | done a => exact ⟨by simp [told], .inl ⟨a, rfl⟩⟩
  | @ask e next hnext ih =>
    obtain ⟨hpatient, hbranches⟩ := hsteady
    cases e with
    | plain o =>
      have hwait := hpatient o next rfl
      have hgrounds := World.stable_grounds hg.owned s o hs
      rw [told]
      rcases hattempt : s.attempt o with ⟨s', _ | answer⟩ <;> rw [hattempt] at hgrounds
      · rw [advance_of_none hattempt]
        exact ⟨by simp, .inr ⟨_, _, rfl, steady_plain (Scene.patient_attempt hwait hattempt)⟩⟩
      · rw [advance_of_some hattempt]
        obtain ⟨hlive, hend⟩ := ih answer none (s := { s' with parking := {} }) hgrounds
          (steady_start _)
        exact ⟨List.forall_mem_cons.mpr ⟨Scene.live_attempt hg hs hwait hattempt, hlive⟩, hend⟩
    | wave calls =>
      have hopening : ∀ b ∈ Branch.opening calls wave, b.Steady :=
        Branch.steady_opening hbranches
      obtain ⟨hlive, s', branches, hadvance, hleft⟩ := Branch.live_advanceAll hg hs hopening
      have hgrounds := Branch.stable_advanceAll (World.stable_grounds hg.owned)
        (Branch.opening calls wave) hs
      rw [hadvance] at hgrounds
      rw [told, hadvance]
      cases houtcomes : Branch.outcomes? branches with
      | none =>
        rw [advance_of_open hadvance houtcomes]
        simp only [houtcomes, List.append_nil]
        exact ⟨hlive, .inr ⟨_, _, rfl, steady_wave hleft⟩⟩
      | some outcomes =>
        rw [advance_of_outcomes hadvance houtcomes]
        simp only [houtcomes]
        obtain ⟨hlive', hend⟩ := ih outcomes none (s := { s' with parking := {} }) hgrounds
          (steady_start _)
        exact ⟨List.forall_mem_append.mpr ⟨hlive, hlive'⟩, hend⟩

end Turns

/-- In a turn a thread whose program cannot break off does not break off; it goes on with its course,
and is told what it can rely on. -/
theorem Thread.live_advance {α : Type} {w : World} {agent : Nat} (hg : w.grounds.Hosts agent)
    {p : Program α} (hp : Flow.Unbroken p) {t : Thread α} {ys : List Answered}
    (hcourse : p.Course ys (t.code.left t.wave)) (hsteady : t.code.Steady t.wave t.parking) :
    (∀ x ∈ t.told w, x.Live agent) ∧
      ((∃ a, (t.advance w).2 = .ended a ∧ p.Course (ys ++ t.told w) ⟨.done a, none⟩) ∨
        ∃ t', (t.advance w).2 = .waits t' ∧ p.Course (ys ++ t.told w) (t'.code.left t'.wave) ∧
          t'.code.Steady t'.wave t'.parking) := by
  obtain ⟨hlive, hend⟩ := Program.live_advance hg t.code (hcourse.unbroken hp) t.wave
    (s := ⟨w, t.parking, t.belongings⟩) rfl hsteady
  refine ⟨hlive, ?_⟩
  have hadvance := t.advance_eq w
  rcases hturn : t.code.advance t.wave ⟨w, t.parking, t.belongings⟩ with ⟨s, turn⟩
  rw [hturn] at hend hadvance
  rcases hend with ⟨a, rfl⟩ | ⟨rest, wave, rfl, hrest⟩
  · have hended : (t.advance w).2 = .ended a := by rw [hadvance, left]
    have hleft : (t.advance w).2.left? = some ⟨.done a, none⟩ := by rw [hended]; rfl
    obtain ⟨hgoes, -⟩ := Thread.passage_advance hcourse w hleft
    exact .inl ⟨a, hended, hgoes⟩
  · have hwaits : (t.advance w).2 = .waits ⟨rest, s.parking, wave, s.belongings⟩ := by
      rw [hadvance, left]
    have hleft : (t.advance w).2.left? = some (rest.left wave) := by rw [hwaits]; rfl
    obtain ⟨hgoes, -⟩ := Thread.passage_advance hcourse w hleft
    exact .inr ⟨_, hwaits, hgoes, hrest⟩

/-- Whatever an agent does with a message, the handling of it does not break off. -/
theorem Agent.unbroken_serve (a : Agent) (agent : Nat) (m : Message) :
    (a.serve agent m).Unbroken := by
  rw [Program.serve_eq]
  refine (Flow.unbroken_attempt _).bind fun result => ?_
  unfold Program.afterwards
  split
  · refine .ask fun (live : Bool) => ?_
    cases live with
    | false => exact .done ()
    | true => exact .ask fun _ => .ask fun _ => .ask fun _ => .done ()
  · exact .done ()

end Switchboard
