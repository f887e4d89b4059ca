import Switchboard.Proofs.Timetable.Errands

/-!
# Handlings of the roster have their turn

* `Scene.still_of_quiet` : a quiet operation is answered at once, and nobody notices;
* `Program.Closing.endsCalmly`, `Program.Starts.comes` : work that nobody notices ends at once, and
  whoever serves a request comes to a length of time to wait, or to sending the reply;
* `Roster.Covers.serve` : one handling goes on while the roster covers all that is under way;
* `Roster.Covers.carries`, `Roster.Covers.handlingTurn` : a turn of a handling.
-/

namespace Switchboard

namespace Scene

variable {s : Scene}

/-- Nobody notices what an agent remembers, if it is not about its breakers. -/
theorem still_remember (s : Scene) (agent : Nat) {change : Actor → Actor}
    (h : ∀ a, (change a).agent = a.agent ∧ (change a).attached = a.attached)
    (hbreakers : ∀ a, (change a).breakers = a.breakers) :
    World.Still s.world (s.remember agent change).1.world :=
  .of_breaker rfl rfl rfl (World.grounds_modifyActor _ _ h)
    (World.breaker_modifyActor _ _ hbreakers)

/-- A quiet operation is answered at once, and nobody else notices. -/
theorem still_of_quiet {o : Operation} (ho : o.Quiet) :
    ∃ s' answer, s.attempt o = (s', some answer) ∧ World.Still s.world s'.world ∧
      s'.belongings = s.belongings := by
  cases o with
  | clock | attached agent | providers capability | directory | agentNames =>
    exact ⟨s, _, rfl, .refl _, rfl⟩
  | stamp => exact ⟨_, _, rfl, .of_breaker rfl rfl rfl rfl rfl, rfl⟩
  | turn agent | note agent | untrack agent =>
    exact ⟨_, _, rfl, s.still_remember agent (fun _ => ⟨rfl, rfl⟩) fun _ => rfl, rfl⟩
  | track agent requestId capability providers data =>
    let clock := s.world.recordClock + 1
    have hclock : World.Still s.world { s.world with recordClock := clock } :=
      .of_breaker rfl rfl rfl rfl rfl
    refine ⟨_, _, rfl, hclock.trans (Scene.still_remember
      { s with world := { s.world with recordClock := clock } } agent (fun _ => ⟨rfl, rfl⟩)
      fun _ => rfl), rfl⟩
  | _ => exact ho.elim

theorem pause_waits {ms : Nat} (hms : ms ≠ 0) (halarm : s.parking.alarm = none) :
    s.pause ms = (s.wakeAt (s.world.now + ms), none) := by
  rw [pause, if_neg]
  simp [hms, timeIsUp, halarm]

theorem pause_due {alarm : Alarm} (halarm : s.parking.alarm = some alarm)
    (hdue : alarm.time ≤ s.world.now) (ms : Nat) : s.pause ms = (s, some ()) := by
  rw [pause, if_pos]
  simp [timeIsUp, halarm, hdue]

theorem pause_still {ms : Nat} (hms : ms ≠ 0) {alarm : Alarm}
    (halarm : s.parking.alarm = some alarm) (hdue : s.world.now < alarm.time) :
    s.pause ms = (s, none) := by
  rw [pause, if_neg, wakeAt_of_some halarm]
  simp [hms, timeIsUp, halarm, hdue]

theorem hold_of_present (h : s.world.gone = false) :
    ∃ s', s.hold = (s', some true) ∧ World.Still s.world s'.world ∧
      s'.belongings.permits = s.belongings.permits := by
  rw [hold, h]
  exact ⟨_, rfl, .of_breaker rfl rfl rfl rfl rfl, rfl⟩

end Scene

/-- What is left of a thread after a turn of its program. -/
def Thread.left {α : Type} :
    Scene × Turn (Program α × Option (List Branch)) α → World × Turn (Thread α) α
  | (s, .waits (code, wave)) => (s.world, .waits ⟨code, s.parking, wave, s.belongings⟩)
  | (s, .ended a) => (s.world.takeBack s.belongings, .ended a)
  | (s, .crashed text) => (s.world.takeBack s.belongings, .crashed text)

theorem Thread.advance_eq {α : Type} (t : Thread α) (w : World) :
    t.advance w = left (Program.advance t.code t.wave ⟨w, t.parking, t.belongings⟩) := by
  unfold Thread.advance left
  rcases Program.advance t.code t.wave ⟨w, t.parking, t.belongings⟩ with
    ⟨s, ⟨code, wave⟩ | a | text⟩ <;> rfl

namespace Program

variable {s : Scene} {code : Program Unit} {wave : Option (List Branch)} {x : Assignment}
  {r : Roster} {d : Nat}

/-- Work ends at once, and nobody else notices. -/
def EndsCalmly (code : Program Unit) (wave : Option (List Branch)) (s : Scene) : Prop :=
  ∃ s' u, Program.advance code wave s = (s', .ended u) ∧ World.Still s.world s'.world ∧
    s'.belongings.permits = s.belongings.permits

theorem EndsCalmly.ask {o : Operation} {next : (Effect.plain o).Answer → Program Unit}
    {s₁ : Scene} {answer : o.Answer} (hattempt : s.attempt o = (s₁, some answer))
    (hstill : World.Still s.world s₁.world)
    (hpermits : s₁.belongings.permits = s.belongings.permits)
    (h : EndsCalmly (next answer) none { s₁ with parking := {} }) :
    EndsCalmly (.ask (.plain o) next) wave s := by
  obtain ⟨s', u, hturn, hstill', hpermits'⟩ := h
  exact ⟨s', u, (advance_of_some hattempt).trans hturn, hstill.trans hstill',
    hpermits'.trans hpermits⟩

/-- Work that nobody notices ends at once. -/
theorem Closing.endsCalmly (h : code.Closing) (wave : Option (List Branch)) (s : Scene)
    (howned : s.world.owned = true) : EndsCalmly code wave s := by
  induction h generalizing wave s with
  | done u => exact ⟨s, u, rfl, .refl _, rfl⟩
  | release h ih =>
    have hstill : World.Still s.world s.release.1.world := by
      rw [Scene.release, World.closeIfAbandoned_of_owned (by exact howned)]
      exact .of_breaker rfl rfl rfl rfl rfl
    exact .ask (o := .release) rfl hstill rfl (ih () _ _ (hstill.owned howned))
  | @note agent m _ h ih =>
    have hstill : World.Still s.world (s.attempt (.note agent m)).1.world :=
      s.still_remember agent (fun _ => ⟨rfl, rfl⟩) fun _ => rfl
    exact .ask (o := .note agent m) rfl hstill rfl (ih () _ _ (hstill.owned howned))
  | @noteReply agent m _ h ih =>
    have hstill : World.Still s.world (s.attempt (.noteReply agent m)).1.world :=
      s.still_remember agent (fun _ => ⟨rfl, rfl⟩) fun _ => rfl
    exact .ask (o := .noteReply agent m) rfl hstill rfl (ih () _ _ (hstill.owned howned))

/-- What is left to do of a request: a length of time to wait, or the reply to send. -/
inductive Comes (x : Assignment) (due : Nat) (w : World) :
    Scene × Turn (Program Unit × Option (List Branch)) Unit → Prop
  | pausing {ms e : Nat} {next : (Effect.plain (.pause ms)).Answer → Program Unit}
      (h : (next ()).Serves x e) (hms : ms ≠ 0) (hdue : w.now + ms + e = due) {s' : Scene}
      (hcalm : World.Calm x.Behind w s'.world) (hpermits : x.Permits s'.belongings)
      (hparking : s'.parking = {}) :
      Comes x due w (s'.wakeAt (w.now + ms), .waits (.ask (.plain (.pause ms)) next, none))
  | sending {m : Message} {next : (Effect.plain (.send m none)).Answer → Program Unit}
      (hm : x.Replies m) (h : ∀ sent, (next sent).Closing) (hdue : w.now = due) {s' : Scene}
      (hcalm : World.Calm x.Behind w s'.world) (hpermits : x.Permits s'.belongings)
      (hparking : s'.parking = {}) :
      Comes x due w (Program.advance (.ask (.plain (.send m none)) next) none s')

theorem Comes.of_calm {due : Nat} {w w₁ : World} (hcalm : World.Calm x.Behind w w₁)
    {turn : Scene × Turn (Program Unit × Option (List Branch)) Unit}
    (h : Comes x due w₁ turn) : Comes x due w turn := by
  have hnow : w₁.now = w.now := congrArg World.Stage.now hcalm.stage
  cases h with
  | pausing h hms hdue hcalm' hpermits hparking =>
    rw [hnow] at hdue ⊢
    exact .pausing h hms hdue (hcalm.trans hcalm') hpermits hparking
  | sending hm h hdue hcalm' hpermits hparking =>
    exact .sending hm h (hnow.symm.trans hdue) (hcalm.trans hcalm') hpermits hparking

/-- The agent that a step asks is there. -/
theorem attached_of_provides {g : World.Grounds} {w : World}
    (h : g.Provides x.call.capability x.post) (hgrounds : w.grounds = g) :
    ∃ actor, w.actors[x.post.agent]? = some actor ∧ actor.attached = true ∧
      actor.agent.name = x.post.name ∧
      actor.agent.Performs x.post.agent x.call.capability x.post.admission x.post.delay
        x.post.verdict := by
  obtain ⟨a, ha, hname, hperforms⟩ := h.agent
  have hagents : w.actors.map (fun a => (a.agent, a.attached)) = g.agents :=
    congrArg World.Grounds.agents hgrounds
  rw [← hagents, List.getElem?_map] at ha
  obtain ⟨actor, hactor, heq⟩ := Option.map_eq_some_iff.mp ha
  obtain ⟨rfl, hattached⟩ := Prod.mk.inj heq
  exact ⟨actor, hactor, hattached, hname, hperforms⟩

/-- Whoever serves a request comes to a length of time to wait, or to sending the reply. -/
theorem Serves.comes (h : code.Serves x d) (hr : r.Sound) (hx : x ∈ r.steps)
    (hgrounds : s.world.grounds = r.grounds) (hpermits : x.Permits s.belongings)
    (hparking : s.parking = {}) :
    Comes x (s.world.now + d) s.world (Program.advance code none s) := by
  induction h generalizing s with
  | @pause e ms next h ih =>
    by_cases hms : ms = 0
    · subst hms
      have hpause : s.attempt (.pause 0) = (s, some ()) := by
        rw [Scene.attempt, Scene.pause, if_pos (.inl rfl)]
      rw [advance_of_some hpause, Nat.zero_add]
      exact ih (s := { s with parking := {} }) hgrounds hpermits rfl
    · have halarm : s.parking.alarm = none := by rw [hparking]
      rw [advance_of_none (o := .pause ms) (s.pause_waits hms halarm)]
      exact .pausing h hms (by omega) (.refl _) hpermits hparking
  | @quiet e o next ho h ih =>
    obtain ⟨s₁, answer, hattempt, hstill, hsame⟩ := s.still_of_quiet ho
    have hnow : s₁.world.now = s.world.now := congrArg World.Stage.now hstill.stage
    rw [advance_of_some hattempt, ← hnow]
    exact (ih answer (s := { s₁ with parking := {} }) (hstill.grounds.trans hgrounds)
      (hsame ▸ hpermits) rfl).of_calm hstill.calm
  | @attached e agent ha next h ih =>
    subst ha
    obtain ⟨actor, hactor, hattached, -⟩ := attached_of_provides (hr.provides x hx) hgrounds
    have hanswer : ((s.world.actors[x.post.agent]?).map (·.attached)).getD false = true := by
      rw [hactor]
      exact hattached
    have hattempt : s.attempt (.attached x.post.agent) = (s, some true) :=
      congrArg (fun attached => (s, some attached)) hanswer
    rw [advance_of_some hattempt]
    exact ih (s := { s with parking := {} }) hgrounds hpermits rfl
  | @settle e agent capability permit how hbehind next h ih =>
    let s₁ : Scene := (s.settle ⟨agent, capability, permit⟩ how).1
    have hcalm : World.Calm x.Behind s.world s₁.world :=
      .settleIn s.world (p := ⟨agent, capability, permit⟩) how hbehind
    have hkept : x.Permits s₁.belongings := fun p hp => hpermits p (List.mem_of_mem_erase hp)
    have hattempt : s.attempt (.settle agent capability permit how) = (s₁, some ()) := rfl
    rw [advance_of_some hattempt]
    exact (ih (s := { s₁ with parking := {} }) (hcalm.grounds.trans hgrounds) hkept rfl).of_calm
      hcalm
  | @hold e next h ih =>
    have hgone : s.world.gone = false := (congrArg World.Grounds.gone hgrounds).trans hr.gone
    obtain ⟨s₁, hattempt, hstill, hsame⟩ := s.hold_of_present hgone
    have hnow : s₁.world.now = s.world.now := congrArg World.Stage.now hstill.stage
    have hkept : x.Permits s₁.belongings := fun p hp => hpermits p (hsame ▸ hp)
    rw [advance_of_some (o := .hold) hattempt, ← hnow]
    exact (ih (s := { s₁ with parking := {} }) (hstill.grounds.trans hgrounds) hkept rfl).of_calm
      hstill.calm
  | send hm h => exact .sending hm h rfl (.refl _) hpermits hparking

/-- Whoever begins to serve a request comes so far, if the breaker of the step gives the answer that is
expected. -/
theorem Starts.comes (h : code.Starts x) (hr : r.Sound) (hx : x ∈ r.steps)
    (hgrounds : s.world.grounds = r.grounds) (hpermits : x.Permits s.belongings)
    (hparking : s.parking = {})
    (hadmits : NamedBreaker.admission (s.world.breaker x.post.agent x.call.capability)
      s.world.now = x.post.admission) :
    Comes x (s.world.now + x.post.delay) s.world (Program.advance code none s) := by
  induction h generalizing s with
  | serves h => exact h.comes hr hx hgrounds hpermits hparking
  | @quiet o next ho h ih =>
    obtain ⟨s₁, answer, hattempt, hstill, hsame⟩ := s.still_of_quiet ho
    have hnow : s₁.world.now = s.world.now := congrArg World.Stage.now hstill.stage
    have hbreaker := hstill.breakers x.post.agent x.call.capability id
    rw [advance_of_some hattempt, ← hnow]
    refine (ih answer (s := { s₁ with parking := {} }) (hstill.grounds.trans hgrounds)
      (hsame ▸ hpermits) rfl ?_).of_calm hstill.calm
    rwa [hbreaker, hnow]
  | @enter agent capability hbehind next h =>
    obtain ⟨rfl, rfl⟩ := hbehind
    obtain ⟨s₁, hattempt, hcalm, hkept⟩ :=
      s.calm_enter x.post.agent x.call.capability
    rw [hadmits] at hattempt
    have hnow : s₁.world.now = s.world.now := congrArg World.Stage.now hcalm.stage
    rw [advance_of_some (o := .enter x.post.agent x.call.capability) hattempt, ← hnow]
    refine (h.comes (s := { s₁ with parking := {} }) hr hx (hcalm.grounds.trans hgrounds)
      (fun p hp => ?_) rfl).of_calm hcalm
    exact (hkept p hp).elim (hpermits p) fun ⟨hagent, hcapability⟩ =>
      ⟨hagent.symm, hcapability.symm⟩

end Program

namespace Roster

variable {r : Roster} {n : Nat} {w w' : World} {ps : List (Assignment × Branch)}
  {before after : List Handling} {h₀ : Handling}

/-- A handling that goes on, or ends and may send replies, is counted with what is left of it. -/
theorem requests_serve (hold : w.handlings = before ++ h₀ :: after) {rest : Option Handling}
    (hnew : w'.handlings = before ++ (rest.toList ++ after)) (hnow : w'.now = w.now)
    (hlanes : w'.bus.lanes = w.bus.lanes) {more : List Message}
    (hqueue : w'.bus.queue = w.bus.queue ++ more) (hmore : ∀ m ∈ more, m.kind.isReply = true)
    (x : Assignment) (ps : List (Assignment × Branch)) :
    x.requests w' ps + x.served w.now h₀.thread =
      x.requests w ps + (rest.toList.map fun h₁ => x.served w.now h₁.thread).sum := by
  have hreplies := x.sum_asked_eq_zero fun m hm => Assignment.asked_of_isReply (hmore m hm)
  unfold Assignment.requests
  rw [hqueue, hlanes, hnow, hold, hnew]
  simp only [List.map_append, List.map_cons, List.sum_append, List.sum_cons]
  omega

/-- Who goes on with the request of a step waits for something then. So until somebody begins to serve
the request of a step its breaker is left alone. -/
theorem Guards.serve (h : r.Guards w ps) (hold : w.handlings = before ++ h₀ :: after)
    {rest : Option Handling} (hnew : w'.handlings = before ++ (rest.toList ++ after))
    (hparked : ∀ h₁ ∈ rest, h₁.thread.parking ≠ {})
    (hsame : ∀ x ∈ r.steps, ∀ h₁ ∈ rest, x.Serving w.now h₁.thread → x.Serving w.now h₀.thread)
    (hbreakers : ∀ agent capability,
      (∀ x ∈ r.steps, x.Serving w.now h₀.thread → ¬ x.Behind agent capability) →
        w'.breaker agent capability = w.breaker agent capability)
    (hnow : w'.now = w.now) (hlanes : w'.bus.lanes = w.bus.lanes) {more : List Message}
    (hqueue : w'.bus.queue = w.bus.queue ++ more) (hmore : ∀ m ∈ more, m.kind.isReply = true) :
    r.Guards w' ps := by
  have hcount := fun x : Assignment => requests_serve hold hnew hnow hlanes hqueue hmore x ps
  have hle : ∀ x ∈ r.steps, x.requests w' ps ≤ x.requests w ps := fun x hx => by
    have hx' := hcount x
    cases rest with
    | none =>
      rw [Option.toList_none, List.map_nil, List.sum_nil] at hx'
      omega
    | some h₁ =>
      have hrest : x.served w.now h₁.thread ≤ x.served w.now h₀.thread :=
        Assignment.served_le fun hs => Nat.le_of_eq
          (Assignment.served_of_serving (hsame x hx h₁ rfl hs)).symm
      rw [Option.toList_some, List.map_singleton, List.sum_singleton] at hx'
      omega
  -- The only request of a step that was being served waits for something now, if it is still there.
  have hother : ∀ x ∈ r.steps, x.Unserved w' ps → ¬ x.Serving w.now h₀.thread := by
    intro x hx hunserved hserving
    have hx' := hcount x
    have honce := h.once x hx
    have hpos := hunserved.requests
    rw [Assignment.served_of_serving hserving] at hx'
    cases rest with
    | none =>
      rw [Option.toList_none, List.map_nil, List.sum_nil] at hx'
      omega
    | some h₁ =>
      rw [Option.toList_some, List.map_singleton, List.sum_singleton] at hx'
      have hs : x.Serving w.now h₁.thread := Assignment.serving_of_served (by omega)
      have hmem : h₁ ∈ w'.handlings := by simp [hnew]
      exact hparked h₁ rfl (hunserved.begun h₁ hmem (hnow ▸ hs))
  refine ⟨fun x hx => Nat.le_trans (hle x hx) (h.once x hx), fun agent capability hall => ?_⟩
  rw [hbreakers agent capability fun x hx hs hbehind => hother x hx (hall x hx hbehind) hs]
  refine h.breakers agent capability fun x hx hbehind => ?_
  have hunserved := hall x hx hbehind
  refine ⟨Nat.lt_of_lt_of_le hunserved.requests (hle x hx), fun h₁ hh hs => ?_⟩
  rw [hold] at hh
  rcases mem_middle.mp hh with rfl | hh
  · exact absurd hs (hother x hx hunserved)
  · refine hunserved.begun h₁ ?_ (hnow ▸ hs)
    rw [hnew, List.mem_append, List.mem_append]
    exact (List.mem_append.mp hh).imp id .inr

/-- One handling goes on, or ends: it may send a reply. -/
theorem Covers.serve (h : r.Covers n w ps) (hold : w.handlings = before ++ h₀ :: after)
    (rest : Option Handling) (hnew : w'.handlings = before ++ (rest.toList ++ after))
    (hnumber : ∀ h₁ ∈ rest, h₁.number = h₀.number)
    (hrest : ∀ h₁ ∈ rest, h₁.thread.Noting ∨ ∃ x ∈ r.steps, x.Serving w.now h₁.thread)
    (hparked : ∀ h₁ ∈ rest, h₁.thread.parking ≠ {})
    (hsame : ∀ x ∈ r.steps, ∀ h₁ ∈ rest, x.Serving w.now h₁.thread → x.Serving w.now h₀.thread)
    (hbreakers : ∀ agent capability,
      (∀ x ∈ r.steps, x.Serving w.now h₀.thread → ¬ x.Behind agent capability) →
        w'.breaker agent capability = w.breaker agent capability)
    (hgrounds : w'.grounds = w.grounds) (hnow : w'.now = w.now)
    (hnext : w'.nextHandling = w.nextHandling) (hlanes : w'.bus.lanes = w.bus.lanes)
    (htable : w'.bus.collector = w.bus.collector) {more : List Message}
    (hqueue : w'.bus.queue = w.bus.queue ++ more)
    (hmore : ∀ m ∈ more, ∃ x ∈ r.steps, x.Answers w.now m)
    (hunderway : ∀ x ∈ r.steps, x.Serving w.now h₀.thread → x.Underway w')
    (hplaces : w'.bus.gate.Accounts w'.bus.queue.length r.places (tickets w'.handlings ps))
    (hload : w'.signals.length + (w'.bus.queue.map Message.load).sum +
        (rest.toList.map (·.thread.code.load)).sum ≤
      w.signals.length + (w.bus.queue.map Message.load).sum + h₀.thread.code.load) :
    r.Covers n w' ps := by
  have hsub : w.bus.queue ⊆ w'.bus.queue := hqueue ▸ List.subset_append_left _ _
  have hmem : ∀ h₁ ∈ w'.handlings, h₁ ∈ rest ∨ h₁ ∈ w.handlings := by
    intro h₁ hh
    rw [hnew, List.mem_append, List.mem_append, Option.mem_toList] at hh
    rw [hold, mem_middle, List.mem_append]
    tauto
  have hstill : ∀ x ∈ r.steps, x.Underway w → x.Underway w' := fun x hx hu =>
    hu.carry hnow hsub hlanes fun h₁ hh hserving => by
      rw [hold] at hh
      rcases mem_middle.mp hh with rfl | hh
      · exact hunderway x hx hserving
      · refine .serving (hnow ▸ hserving) ?_
        rw [hnew, List.mem_append, List.mem_append]
        exact (List.mem_append.mp hh).imp id .inr
  refine
    { grounds := hgrounds.trans h.grounds
      queue := fun m hm => ?_
      inbox := by
        rw [hlanes, hnow]
        exact h.inbox
      handlings := fun h₁ hh => ?_
      numbers := ⟨?_, fun h₁ hh => ?_⟩
      distinct := h.distinct
      steps := fun p hp => ?_
      table := htable ▸ h.table
      places := hplaces
      seen := fun y hy => ?_
      guards := h.guards.serve hold hnew hparked hsame hbreakers hnow hlanes hqueue fun m hm =>
        let ⟨_, _, hanswers⟩ := hmore m hm
        hanswers.1.isReply
      load := ?_ }
  · rw [hnow]
    rw [hqueue] at hm
    rcases List.mem_append.mp hm with hm | hm
    · exact h.queue m hm
    · obtain ⟨x, hx, hanswers⟩ := hmore m hm
      exact ⟨x, hx, .inr hanswers⟩
  · rw [hnow]
    exact (hmem h₁ hh).elim (hrest h₁) (h.handlings h₁)
  · have hnumbers := h.numbers.1
    rw [hold, List.map_append, List.map_cons] at hnumbers
    rw [hnew, List.map_append, List.map_append]
    cases rest with
    | none => exact hnumbers.sublist ((List.sublist_cons_self _ _).append_left _)
    | some h₁ => rwa [Option.toList_some, List.map_singleton, hnumber h₁ rfl]
  · rw [hnext]
    rcases hmem h₁ hh with hh | hh
    · rw [hnumber h₁ hh]
      exact h.numbers.2 h₀ (by rw [hold]; exact mem_middle.mpr (.inl rfl))
    · exact h.numbers.2 h₁ hh
  · obtain ⟨hx, hat⟩ := h.steps p hp
    rw [hnow, htable]
    exact ⟨hx, hat.imp (hstill p.1 hx)⟩
  · exact (h.seen y hy).imp id (Or.imp (fun ⟨m, hm, hrequests⟩ => ⟨m, hsub hm, hrequests⟩) id)
  · have hbound := h.load
    unfold World.load at hbound ⊢
    rw [hold] at hbound
    rw [hnew, hlanes, htable]
    simp only [List.map_append, List.map_cons, List.sum_append, List.sum_cons] at hbound ⊢
    omega

/-! ## Turns of handlings -/

theorem tickets_of_handling_none (h : h₀.thread.parking.ticket = none) :
    tickets (before ++ h₀ :: after) ps = tickets (before ++ after) ps := by
  simp [tickets, h]

theorem tickets_of_handling_some {k : Nat} (h : h₀.thread.parking.ticket = some k) :
    (tickets (before ++ h₀ :: after) ps).Perm (k :: tickets (before ++ after) ps) := by
  simp only [tickets, List.filterMap_append, List.filterMap_cons, h]
  rw [List.append_assoc, List.append_assoc, List.cons_append]
  exact List.perm_middle

/-- How a turn leaves a handling: it waits for something, or it is over. -/
def Carries (r : Roster) (n : Nat) (ps : List (Assignment × Branch)) (before : List Handling)
    (h₀ : Handling) (after : List Handling) : World × Turn (Thread Unit) Unit → Prop
  | (w, .waits t) =>
    r.Covers n { w with handlings := before ++ { h₀ with thread := t } :: after } ps ∧
      t.Blocked w.bus w.now
  | (w, _) => r.Covers n { w with handlings := before ++ after } ps

theorem load_of_quiet {o : Operation} (ho : o.Quiet)
    (next : (Effect.plain o).Answer → Program Unit) :
    Program.load (.ask (.plain o) next) = 4 := by
  cases o with
  | note agent m =>
    have hkind : m.kind.isReply = false := ho
    simp [Program.load, Message.mailLoad, hkind]
  | noteReply => exact ho.elim
  | _ => rfl

theorem load_of_serves {x : Assignment} {d : Nat} {code : Program Unit} (h : code.Serves x d) :
    code.load = 4 := by
  cases h with
  | quiet ho => exact load_of_quiet ho _
  | _ => rfl

/-- A request that is being served is not a reply that is noted. -/
theorem load_of_serving {now : Nat} {x : Assignment} {t : Thread Unit} (h : x.Serving now t) :
    t.code.load = 4 := by
  cases h with
  | begun h =>
    cases h with
    | serves h => exact load_of_serves h
    | quiet ho => exact load_of_quiet ho _
    | enter => rfl
  | _ => rfl

theorem not_serving_of_noting {t : Thread Unit} (h : t.Noting) {now : Nat} {x : Assignment} :
    ¬ x.Serving now t := fun hserving => by
  have hload := load_of_serving hserving
  rw [h.load] at hload
  cases hload

/-- The handling of a reply ends at once. -/
theorem Covers.carries_noting (hr : r.Sound) (h : r.Covers n w ps)
    (hold : w.handlings = before ++ h₀ :: after) (hnoting : h₀.thread.Noting) :
    r.Carries n ps before h₀ after (h₀.thread.advance w) := by
  have howned : w.owned = true := (congrArg World.Grounds.owned h.grounds).trans hr.owned
  obtain ⟨s, u, hturn, hstill, hpermits⟩ := hnoting.code.endsCalmly h₀.thread.wave
    ⟨w, h₀.thread.parking, h₀.thread.belongings⟩ howned
  have hnone : s.belongings.permits = [] := hpermits.trans hnoting.permits
  have hafter : World.Still w (s.world.takeBack s.belongings) :=
    hstill.trans (.takeBack (hstill.owned howned) (hnone ▸ nofun))
  rw [Thread.advance_eq, hturn]
  have hplaces := h.places
  rw [hold, tickets_of_handling_none (by rw [hnoting.parking])] at hplaces
  refine h.serve hold none rfl nofun nofun nofun (fun _ _ => nofun)
    (fun agent capability _ => hafter.breakers agent capability id) hafter.grounds
    (congrArg World.Stage.now hafter.stage) (congrArg World.Stage.nextHandling hafter.stage)
    (congrArg Bus.lanes hafter.bus) (congrArg Bus.collector hafter.bus)
    ((congrArg Bus.queue hafter.bus).trans (List.append_nil _).symm) nofun (fun x _ hserving => ?_)
    ?_ ?_
  · exact absurd hserving (not_serving_of_noting hnoting)
  · change (s.world.takeBack s.belongings).bus.gate.Accounts
      (s.world.takeBack s.belongings).bus.queue.length _ _
    rwa [hafter.bus]
  · change (s.world.takeBack s.belongings).signals.length +
      ((s.world.takeBack s.belongings).bus.queue.map Message.load).sum + 0 ≤ _
    rw [hafter.bus, hafter.signals]
    exact Nat.le_add_right _ _

section Sound

variable {x y : Assignment}

/-- Work sends the reply to one request. -/
theorem Sound.eq_of_serves (hr : r.Sound) (hx : x ∈ r.steps) (hy : y ∈ r.steps)
    {code : Program Unit} {d e : Nat} (h : code.Serves x d) (h' : code.Serves y e) : x = y := by
  induction h generalizing e with
  | pause ms h ih =>
    cases h' with
    | pause _ h' => exact ih h'
    | quiet ho => exact ho.elim
  | quiet ho h ih =>
    cases h' with
    | quiet _ h' =>
      obtain ⟨answer⟩ := ho.exists_answer
      exact ih answer (h' answer)
    | attached _ h' => exact ih true h'
    | _ => exact ho.elim
  | attached _ h ih =>
    cases h' with
    | quiet _ h' => exact ih (h' true)
    | attached _ h' => exact ih h'
  | settle _ h ih =>
    cases h' with
    | quiet ho => exact ho.elim
    | settle _ h' => exact ih h'
  | hold h ih =>
    cases h' with
    | quiet ho => exact ho.elim
    | hold h' => exact ih h'
  | send hm =>
    cases h' with
    | quiet ho => exact ho.elim
    | send hm' => exact hr.eq_of_id hx hy (hm.requestId.symm.trans hm'.requestId)

theorem Sound.eq_of_serves_of_starts (hr : r.Sound) (hx : x ∈ r.steps) (hy : y ∈ r.steps)
    {code : Program Unit} {d : Nat} (h : code.Serves x d) (h' : code.Starts y) : x = y := by
  induction h' generalizing d with
  | serves h' => exact hr.eq_of_serves hx hy h h'
  | quiet ho h' ih =>
    cases h with
    | quiet _ h =>
      obtain ⟨answer⟩ := ho.exists_answer
      exact ih answer (h answer)
    | attached _ h => exact ih true h
    | _ => exact ho.elim
  | enter =>
    cases h with
    | quiet ho => exact ho.elim

theorem Sound.eq_of_starts (hr : r.Sound) (hx : x ∈ r.steps) (hy : y ∈ r.steps)
    {code : Program Unit} (h : code.Starts x) (h' : code.Starts y) : x = y := by
  induction h with
  | serves h => exact hr.eq_of_serves_of_starts hx hy h h'
  | quiet ho h ih =>
    cases h' with
    | serves h' => exact (hr.eq_of_serves_of_starts hy hx h' (.quiet ho h)).symm
    | quiet _ h' =>
      obtain ⟨answer⟩ := ho.exists_answer
      exact ih answer (h' answer)
    | enter => exact ho.elim
  | enter hbehind h =>
    cases h' with
    | serves h' => exact (hr.eq_of_serves_of_starts hy hx h' (.enter hbehind h)).symm
    | quiet ho => exact ho.elim
    | enter hbehind' => exact hr.eq_of_behind hx hy hbehind hbehind'

/-- A thread serves the request of one step, at whatever times. -/
theorem Sound.eq_of_serving (hr : r.Sound) (hx : x ∈ r.steps) (hy : y ∈ r.steps) {now now' : Nat}
    {t : Thread Unit} (h : x.Serving now t) (h' : y.Serving now' t) : x = y := by
  cases h with
  | begun h =>
    cases h' with
    | begun h' => exact hr.eq_of_starts hx hy h h'
  | pausing h =>
    cases h' with
    | pausing h' => exact hr.eq_of_serves hx hy h h'
  | inLine hm =>
    cases h' with
    | inLine hm' => exact hr.eq_of_id hx hy (hm.requestId.symm.trans hm'.requestId)

end Sound

section Serving

variable {s : Scene} {x : Assignment}

/-- There is a place in the queue for the reply, and the handling is over. -/
theorem Covers.carries_accept (hr : r.Sound) (h : r.Covers n w ps)
    (hold : w.handlings = before ++ h₀ :: after) (hx : x ∈ r.steps)
    (hserving : x.Serving w.now h₀.thread) (hcalm : World.Calm x.Behind w s.world)
    (hpermits : x.Permits s.belongings) {m : Message}
    {next : (Effect.plain (.send m none)).Answer → Program Unit} (hm : x.Replies m)
    (hclosing : ∀ sent, (next sent).Closing) (hdue : w.now = x.due) {gate : Gate}
    (hgate : gate.Accounts (w.bus.queue.length + 1) r.places (tickets (before ++ after) ps))
    (sent : (Effect.plain (.send m none)).Answer) :
    r.Carries n ps before h₀ after
      (Thread.left (Program.advance (next sent) none { s.accept gate m with parking := {} })) := by
  have howned : s.world.owned = true :=
    hcalm.owned ((congrArg World.Grounds.owned h.grounds).trans hr.owned)
  obtain ⟨s', u, hturn, hstill, hkept⟩ := (hclosing sent).endsCalmly none
    { s.accept gate m with parking := {} } howned
  have hfinal : World.Calm x.Behind (s.accept gate m).world (s'.world.takeBack s'.belongings) :=
    hstill.calm.trans (.takeBack (hstill.owned howned) fun p hp => hpermits p (hkept ▸ hp))
  have hbus : (s'.world.takeBack s'.belongings).bus =
      { w.bus with gate := gate, queue := w.bus.queue ++ [m] } := by
    rw [hfinal.bus, ← hcalm.bus]
    rfl
  have hlanes : (s'.world.takeBack s'.belongings).bus.lanes = w.bus.lanes := by rw [hbus]
  have hcollector : (s'.world.takeBack s'.belongings).bus.collector = w.bus.collector := by
    rw [hbus]
  have hqueue : (s'.world.takeBack s'.belongings).bus.queue = w.bus.queue ++ [m] := by rw [hbus]
  have hsignals : (s'.world.takeBack s'.belongings).signals =
      w.signals ++ [.wake .delivery] := by
    rw [hfinal.signals, ← hcalm.signals]
    rfl
  have hstage : (s'.world.takeBack s'.belongings).stage = w.stage :=
    hfinal.stage.trans hcalm.stage
  have hload : m.load = 3 := by rw [Message.load, if_pos hm.isReply]
  rw [hturn]
  refine h.serve hold none rfl nofun nofun nofun (fun _ _ => nofun) ?_
    (hfinal.grounds.trans hcalm.grounds) (congrArg World.Stage.now hstage)
    (congrArg World.Stage.nextHandling hstage) hlanes hcollector hqueue ?_ ?_ ?_ ?_
  · intro agent capability hothers
    have hother := hothers x hx hserving
    exact (hfinal.breakers agent capability hother).trans (hcalm.breakers agent capability hother)
  · intro m' hm'
    obtain rfl := List.mem_singleton.mp hm'
    exact ⟨x, hx, hm, hdue⟩
  · intro y hy hserving'
    obtain rfl := hr.eq_of_serving hx hy hserving hserving'
    have hmem : m ∈ (s'.world.takeBack s'.belongings).bus.queue := by
      rw [hqueue]
      exact List.mem_append_right _ (List.mem_singleton.mpr rfl)
    exact .answering ⟨hm, (congrArg World.Stage.now hstage).trans hdue⟩ hmem
  · change (s'.world.takeBack s'.belongings).bus.gate.Accounts
      (s'.world.takeBack s'.belongings).bus.queue.length _ _
    rw [hbus]
    change gate.Accounts (w.bus.queue ++ [m]).length _ _
    rwa [List.length_append]
  · change (s'.world.takeBack s'.belongings).signals.length +
      ((s'.world.takeBack s'.belongings).bus.queue.map Message.load).sum + 0 ≤ _
    rw [hqueue, hsignals, load_of_serving hserving]
    simp only [List.length_append, List.length_singleton, List.map_append, List.map_singleton,
      List.sum_append, List.sum_singleton, hload]
    omega

/-- A handling still waits. -/
theorem Covers.wait (hr : r.Sound) (h : r.Covers n w ps)
    (hold : w.handlings = before ++ h₀ :: after) (hx : x ∈ r.steps)
    (hserving : x.Serving w.now h₀.thread) {t : Thread Unit} (ht : x.Serving w.now t)
    (hparked : t.parking ≠ {}) {w₁ : World} {gate : Gate} (hbus : w₁.bus = { w.bus with gate })
    (hsignals : w₁.signals = w.signals)
    (hstage : w₁.stage = w.stage) (hgrounds : w₁.grounds = w.grounds)
    (hbreakers : ∀ agent capability, ¬ x.Behind agent capability →
      w₁.breaker agent capability = w.breaker agent capability)
    (hgate : gate.Accounts w.bus.queue.length r.places
      (tickets (before ++ { h₀ with thread := t } :: after) ps)) :
    r.Covers n { w₁ with handlings := before ++ { h₀ with thread := t } :: after } ps := by
  have hnow : w₁.now = w.now := congrArg World.Stage.now hstage
  have hlanes : w₁.bus.lanes = w.bus.lanes := by rw [hbus]
  have hcollector : w₁.bus.collector = w.bus.collector := by rw [hbus]
  have hqueue : w₁.bus.queue = w.bus.queue := by rw [hbus]
  refine h.serve hold (some { h₀ with thread := t }) rfl ?_ ?_ ?_ ?_
    (fun agent capability hothers => hbreakers agent capability (hothers x hx hserving)) hgrounds
    hnow (congrArg World.Stage.nextHandling hstage) hlanes hcollector
    (hqueue.trans (List.append_nil _).symm) nofun ?_ ?_ ?_
  · intro h₁ hh
    obtain rfl := Option.some.inj hh
    rfl
  · intro h₁ hh
    obtain rfl := Option.some.inj hh
    exact .inr ⟨x, hx, ht⟩
  · intro h₁ hh
    obtain rfl := Option.some.inj hh
    exact hparked
  · intro y hy h₁ hh hserving'
    obtain rfl := Option.some.inj hh
    obtain rfl := hr.eq_of_serving hx hy ht hserving'
    exact hserving
  · intro y hy hserving'
    obtain rfl := hr.eq_of_serving hx hy hserving hserving'
    have hstill : x.Serving w₁.now ({ h₀ with thread := t } : Handling).thread := hnow ▸ ht
    exact .serving hstill (mem_middle.mpr (.inl rfl))
  · change w₁.bus.gate.Accounts w₁.bus.queue.length _ _
    rwa [hbus]
  · have hsame : t.code.load = h₀.thread.code.load :=
      (load_of_serving ht).trans (load_of_serving hserving).symm
    change w₁.signals.length + (w₁.bus.queue.map Message.load).sum + t.code.load ≤ _
    exact Nat.le_of_eq (by rw [hsignals, hqueue, hsame])

/-- A handling sends its reply as soon as there is a place. -/
theorem Covers.carries_send (hr : r.Sound) (h : r.Covers n w ps)
    (hold : w.handlings = before ++ h₀ :: after) (hx : x ∈ r.steps)
    (hserving : x.Serving w.now h₀.thread) (hcalm : World.Calm x.Behind w s.world)
    (hpermits : x.Permits s.belongings) {ticket : Option Nat} (hparking : s.parking = { ticket }) (hticket : h₀.thread.parking.ticket = ticket)
    {m : Message} {next : (Effect.plain (.send m none)).Answer → Program Unit}
    (hm : x.Replies m) (hclosing : ∀ sent, (next sent).Closing) (hdue : w.now = x.due) :
    r.Carries n ps before h₀ after
      (Thread.left (Program.advance (.ask (.plain (.send m none)) next) none s)) := by
  have hplaces := h.places
  rw [hold] at hplaces
  have hgate : s.world.bus.gate = w.bus.gate := by rw [hcalm.bus]
  have hown : s.parking.ticket = ticket := by rw [hparking]
  cases ticket with
  | none =>
    rw [tickets_of_handling_none hticket] at hplaces
    cases htake : s.world.bus.gate.take? with
    | some gate =>
      rw [Program.advance_of_some (o := .send m none) (s.send_free hown htake m)]
      exact h.carries_accept hr hold hx hserving hcalm hpermits hm hclosing hdue
        (hplaces.take (hgate ▸ htake)) _
    | none =>
      rw [Program.advance_of_none (o := .send m none) (s.send_full hown htake m)]
      have hlined : s.lineUp.parking = { ticket := some w.bus.gate.next } := by
        rw [Scene.lineUp, hparking, hgate]
        rfl
      have hline : s.lineUp.world.bus = { w.bus with gate := w.bus.gate.line.1 } := by
        rw [← hcalm.bus]
        rfl
      rw [Thread.left, hlined]
      refine ⟨h.wait hr hold hx hserving (.inLine hm hclosing hdue _ hpermits) (by simp) hline
        hcalm.signals hcalm.stage hcalm.grounds hcalm.breakers ?_, _, rfl, ?_⟩
      · exact (hplaces.lineUp (hgate ▸ htake)).perm (tickets_of_handling_some rfl).symm
      · rw [hline]
        exact hplaces.next_not_granted
  | some k =>
    have hline := hplaces.perm (tickets_of_handling_some hticket)
    cases hclaim : s.world.bus.gate.claim? k with
    | some gate =>
      rw [Program.advance_of_some (o := .send m none) (s.send_kept hown hclaim m)]
      exact h.carries_accept hr hold hx hserving hcalm hpermits hm hclosing hdue
        (hline.claim (hgate ▸ hclaim)) _
    | none =>
      rw [Program.advance_of_none (o := .send m none) (s.send_waits hparking hclaim m)]
      rw [Thread.left, hparking]
      refine ⟨h.wait hr hold hx hserving (.inLine hm hclosing hdue _ hpermits) (by simp) hcalm.bus
        hcalm.signals hcalm.stage hcalm.grounds hcalm.breakers ?_, _, rfl, fun hgranted => ?_⟩
      · exact hline.perm (tickets_of_handling_some rfl).symm
      · simp [Gate.claim?, hgranted] at hclaim

/-- A handling goes on until it has to wait, or is over. -/
theorem Covers.carries_comes (hr : r.Sound) (h : r.Covers n w ps)
    (hold : w.handlings = before ++ h₀ :: after) (hx : x ∈ r.steps)
    (hserving : x.Serving w.now h₀.thread) (hticket : h₀.thread.parking.ticket = none)
    {turn : Scene × Turn (Program Unit × Option (List Branch)) Unit}
    (hcomes : Program.Comes x x.due w turn) : r.Carries n ps before h₀ after (Thread.left turn) := by
  cases hcomes with
  | @pausing ms e next hnext hms hend s' hcalm hpermits hparking =>
    have hnow : s'.world.now = w.now := congrArg World.Stage.now hcalm.stage
    rw [Scene.wakeAt_of_none (by rw [hparking]), hparking, Thread.left]
    refine ⟨h.wait hr hold hx hserving (.pausing hnext hend (Nat.le_add_right _ _) hms _ hpermits)
      (by simp) hcalm.bus hcalm.signals hcalm.stage hcalm.grounds hcalm.breakers ?_, _, rfl, ?_⟩
    · have hplaces := h.places
      rw [hold, tickets_of_handling_none hticket] at hplaces
      rwa [tickets_of_handling_none rfl]
    · change s'.world.now < w.now + ms
      omega
  | sending hm hclosing hend hcalm hpermits hparking =>
    exact h.carries_send hr hold hx hserving hcalm hpermits hparking hticket hm hclosing hend

/-- The breaker of a step whose request is about to be served gives the answer that is expected. -/
theorem Covers.admits_of_begun (hr : r.Sound) (h : r.Covers n w ps) (hx : x ∈ r.steps)
    (hmem : h₀ ∈ w.handlings) (hserving : x.Serving w.now h₀.thread)
    (hparking : h₀.thread.parking = {}) (hnow : w.now = x.time) :
    NamedBreaker.admission (w.breaker x.post.agent x.call.capability) w.now =
      x.post.admission := by
  obtain ⟨before, after, hold⟩ := List.append_of_mem hmem
  have honce := h.guards.once x hx
  have hserved := Assignment.served_of_serving hserving
  unfold Assignment.requests at honce
  rw [hold] at honce
  simp only [List.map_append, List.map_cons, List.sum_append, List.sum_cons] at honce
  have hnone : ∀ h₁ ∈ before ++ after, ¬ x.Serving w.now h₁.thread := by
    intro h₁ hh hs
    have hsum : ((before ++ after).map fun h₁ => x.served w.now h₁.thread).sum = 0 := by
      rw [List.map_append, List.sum_append]
      omega
    have hzero := List.sum_eq_zero_iff_forall_eq_nat.mp hsum _ (List.mem_map.mpr ⟨h₁, hh, rfl⟩)
    rw [Assignment.served_of_serving hs] at hzero
    cases hzero
  have hunserved : x.Unserved w ps := by
    refine ⟨?_, fun h₁ hh hs => ?_⟩
    · unfold Assignment.requests
      rw [hold]
      simp only [List.map_append, List.map_cons, List.sum_append, List.sum_cons]
      omega
    · rw [hold] at hh
      rcases mem_middle.mp hh with rfl | hh
      · exact hparking
      · exact absurd hs (hnone h₁ hh)
  rw [h.guards.breakers _ _ fun y hy hbehind =>
    hr.eq_of_behind hx hy ⟨rfl, rfl⟩ hbehind ▸ hunserved, hnow]
  exact hr.admits x hx

/-- A handling has its turn. -/
theorem Covers.carries (hr : r.Sound) (h : r.Covers n w ps)
    (hold : w.handlings = before ++ h₀ :: after) :
    r.Carries n ps before h₀ after (h₀.thread.advance w) := by
  have hmem : h₀ ∈ w.handlings := by
    rw [hold]
    exact mem_middle.mpr (.inl rfl)
  rcases h.handlings h₀ hmem with hnoting | ⟨x, hx, hserving⟩
  · exact h.carries_noting hr hold hnoting
  have hplaces := h.places
  rw [hold] at hplaces
  have hadmits := h.admits_of_begun hr hx hmem hserving
  obtain ⟨number, lane, thread⟩ := h₀
  rw [Thread.advance_eq]
  dsimp only at hserving hadmits ⊢
  cases hserving' : hserving with
  | begun hcode hnow =>
    have hcomes := hcode.comes (s := ⟨w, {}, {}⟩) hr hx h.grounds nofun rfl (hadmits rfl hnow)
    have hdue : w.now + x.post.delay = x.due := by rw [hnow, Assignment.due]
    exact h.carries_comes hr hold hx hserving rfl (hdue ▸ hcomes)
  | @pausing ms d time next hnext hdue hnow hms number b hb =>
    let s : Scene := ⟨w, { alarm := some ⟨time, number⟩ }, b⟩
    rcases Nat.lt_or_ge w.now time with hearly | hlate
    · rw [Program.advance_of_none (o := .pause ms) (s.pause_still hms rfl hearly)]
      exact ⟨h.wait hr hold hx hserving hserving (by simp) rfl rfl rfl rfl (fun _ _ _ => rfl)
        hplaces, _, rfl, hearly⟩
    · rw [Program.advance_of_some (o := .pause ms) (s.pause_due rfl hlate ms)]
      have hcomes := hnext.comes (s := { s with parking := {} }) hr hx h.grounds hb rfl
      have hend : w.now + d = x.due := by omega
      exact h.carries_comes hr hold hx hserving rfl (hend ▸ hcomes)
  | inLine hm hclosing hdue ticket hb =>
    exact h.carries_send hr hold hx hserving (.refl w) hb rfl rfl hm hclosing hdue

end Serving

/-! ## Turns of lanes -/

section Numbers

variable (hn : ((before ++ h₀ :: after).map (·.number)).Nodup)

include hn

theorem ne_number : ∀ h ∈ before ++ after, h.number ≠ h₀.number := by
  intro h hh heq
  rw [List.map_append, List.map_cons, List.nodup_middle, ← List.map_append] at hn
  exact (List.nodup_cons.mp hn).1 (List.mem_map.mpr ⟨h, hh, heq⟩)

theorem map_number (t : Thread Unit) :
    (before ++ h₀ :: after).map (fun other =>
      if other.number == h₀.number then { other with thread := t } else other) =
      before ++ { h₀ with thread := t } :: after := by
  have hother : ∀ hs ⊆ before ++ after,
      hs.map (fun other => if other.number == h₀.number then { other with thread := t } else other) =
        hs := by
    intro hs hsub
    conv_rhs => rw [← List.map_id hs]
    exact List.map_congr_left fun h hh => if_neg (by simpa using ne_number hn h (hsub hh))
  rw [List.map_append, List.map_cons, hother before (List.subset_append_left _ _),
    hother after (List.subset_append_right _ _), if_pos (beq_self_eq_true _)]

theorem filter_number :
    (before ++ h₀ :: after).filter (·.number != h₀.number) = before ++ after := by
  have hother := ne_number hn
  rw [List.filter_append, List.filter_cons_of_neg (by simp), ← List.filter_append]
  exact List.filter_eq_self.mpr fun h hh => by simpa using hother h hh

end Numbers

/-- A handling has its turn, and then it waits, or it is over. The other handlings are the same. -/
theorem Covers.handlingTurn (hr : r.Sound) (h : r.Covers n w ps) (number : Nat) :
    r.Covers n (w.handlingTurn number) ps ∧ ∀ h' ∈ (w.handlingTurn number).handlings,
      h' ∈ w.handlings ∧ h'.number ≠ number ∨
        h'.thread.Blocked (w.handlingTurn number).bus (w.handlingTurn number).now := by
  unfold World.handlingTurn
  cases hfind : w.handlings.find? (·.number == number) with
  | none =>
    refine ⟨h, fun h' hh => .inl ⟨hh, ?_⟩⟩
    simpa using List.find?_eq_none.mp hfind h' hh
  | some h₀ =>
    obtain rfl : h₀.number = number := by simpa using List.find?_some hfind
    obtain ⟨before, after, hold⟩ := List.append_of_mem (List.mem_of_find?_eq_some hfind)
    have hn := h.numbers.1
    rw [hold] at hn
    have hcarries := h.carries hr hold
    have hother : ∀ h' ∈ before ++ after, h' ∈ w.handlings ∧ h'.number ≠ h₀.number := fun h' hh =>
      ⟨by rw [hold]; exact mem_middle.mpr (.inr hh), ne_number hn h' hh⟩
    have hsame : (h₀.thread.advance w).1.handlings = before ++ h₀ :: after :=
      (congrArg World.Stage.handlings (h₀.thread.stage_advance w)).trans hold
    dsimp only
    rcases hturn : h₀.thread.advance w with ⟨w₁, t | u | text⟩ <;>
      rw [hturn] at hcarries hsame <;> dsimp only at hsame ⊢ <;> rw [hsame]
    · rw [map_number hn]
      refine ⟨hcarries.1, fun h' hh => ?_⟩
      rcases mem_middle.mp hh with rfl | hh
      · exact .inr hcarries.2
      · exact .inl (hother h' hh)
    · rw [filter_number hn]
      exact ⟨hcarries, fun h' hh => .inl (hother h' hh)⟩
    · rw [filter_number hn]
      exact ⟨hcarries, fun h' hh => .inl (hother h' hh)⟩

end Roster

end Switchboard
