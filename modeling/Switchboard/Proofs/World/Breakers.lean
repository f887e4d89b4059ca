import Switchboard.Proofs.World.Grounds

/-!
# The breakers of agents

Each agent has its own breakers, if any, one for each capability. A call changes the breaker of its
capability, and no other.

* `NamedBreaker.admission` : what a breaker, if there is one, says to a call at a time;
* `BreakerRegistry.getD_enter_of_ne`, `BreakerRegistry.getD_update_of_ne` : the breakers of other names;
* `World.breaker` : the breaker of a capability of an agent; `World.breaker_settleIn` : a call ends;
* `World.Calm`, `World.Still` : nothing has happened of which anybody else notices anything, but for
  some breakers, and without exception;
* `Scene.calm_enter` : a call is let through or refused.
-/

namespace Switchboard

/-- What a breaker says to a call at a time; without a breaker each call is let through. -/
def NamedBreaker.admission (b : Option NamedBreaker) (now : Nat) : Except Fault Permit :=
  match b with
  | none => .ok ⟨.normal, 0⟩
  | some b => (b.enter now).2

namespace BreakerRegistry

variable {r : BreakerRegistry} {name other : String}

theorem getD_ensure (r : BreakerRegistry) (name other : String) :
    (r.ensure name).getD other = r.getD other := by
  unfold ensure ensureWith
  split
  · rfl
  · rename_i hnone
    have hmissing : r.get? name = none := by simpa using hnone
    unfold getD get?
    rw [List.find?_append]
    cases hfind : r.breakers.find? (·.name == other) with
    | some b => rfl
    | none =>
      rw [Option.none_or, List.find?_singleton]
      by_cases hname : name = other
      · simp [hname]
      · simp [hname]

/-- The breaker of a name has the name. -/
theorem name_getD (r : BreakerRegistry) (name : String) : (r.getD name).name = name := by
  unfold getD get?
  cases hfind : r.breakers.find? (·.name == name) with
  | none => rfl
  | some b => simpa using List.find?_some hfind

theorem getD_put_of_ne {b : NamedBreaker} (h : b.name ≠ other) :
    (r.put b).getD other = r.getD other := by
  have hname : ∀ old : NamedBreaker,
      (if old.name == b.name then b else old).name = old.name := fun old => by
    split
    · rename_i hsame
      exact (eq_of_beq hsame).symm
    · rfl
  unfold getD get? put
  rw [List.find?_map]
  simp only [Function.comp_def, hname]
  cases hfind : r.breakers.find? (·.name == other) with
  | none => rfl
  | some old =>
    have hold : old.name = other := by simpa using List.find?_some hfind
    have hne : old.name ≠ b.name := hold ▸ Ne.symm h
    simp [hne]

theorem enter_eq (r : BreakerRegistry) (name : String) (now : Nat) :
    r.enter name now = ((r.ensure name).put ((r.getD name).enter now).1,
      ((r.getD name).enter now).2) := by
  unfold enter
  dsimp only
  rw [getD_ensure]

theorem getD_enter_of_ne (h : name ≠ other) (now : Nat) :
    (r.enter name now).1.getD other = r.getD other := by
  rw [enter_eq, getD_put_of_ne, getD_ensure]
  exact fun heq => h ((r.name_getD name).symm.trans heq)

theorem getD_update_of_ne (h : name ≠ other) {change : NamedBreaker → NamedBreaker}
    (hchange : ∀ b, (change b).name = b.name) :
    (r.update name change).getD other = r.getD other := by
  unfold update
  dsimp only
  rw [getD_put_of_ne, getD_ensure]
  rw [hchange, name_getD]
  exact h

end BreakerRegistry

namespace World

/-- The breaker of a capability of an agent, if the agent has breakers. -/
def breaker (w : World) (agent : Nat) (capability : String) : Option NamedBreaker :=
  ((w.actors[agent]?).bind (·.breakers)).map (·.getD capability)

variable {w : World} {agent other : Nat} {capability : String}

theorem actor_modifyActor_of_ne (h : agent ≠ other) (change : Actor → Actor) :
    (w.modifyActor agent change).actors[other]? = w.actors[other]? :=
  List.getElem?_modify_ne _ _ h

theorem actor_modifyActor (w : World) (agent : Nat) (change : Actor → Actor) :
    (w.modifyActor agent change).actors[agent]? = (w.actors[agent]?).map change :=
  List.getElem?_modify_eq _ agent w.actors

theorem breaker_modifyActor_of_ne (h : agent ≠ other) (change : Actor → Actor) :
    (w.modifyActor agent change).breaker other capability = w.breaker other capability := by
  rw [breaker, actor_modifyActor_of_ne h, breaker]

/-- Who changes nothing of the breakers leaves them alone. -/
theorem breaker_modifyActor (w : World) (agent : Nat) {change : Actor → Actor}
    (h : ∀ a, (change a).breakers = a.breakers) :
    (w.modifyActor agent change).breaker = w.breaker := by
  funext other capability
  by_cases hagent : agent = other
  · subst hagent
    rw [breaker, actor_modifyActor, breaker]
    cases w.actors[agent]? with
    | none => rfl
    | some a => exact congrArg (Option.map _) (h a)
  · exact breaker_modifyActor_of_ne hagent change

/-- The end of a call concerns the breaker of its capability. -/
theorem breaker_settleIn (w : World) (p : HeldPermit) (how : Settlement)
    (h : ¬ (p.agent = agent ∧ p.capability = capability)) :
    (Scene.settleIn w p how).breaker agent capability = w.breaker agent capability := by
  unfold Scene.settleIn
  by_cases hagent : p.agent = agent
  · have hother : p.capability ≠ capability := fun heq => h ⟨hagent, heq⟩
    subst hagent
    rw [breaker, actor_modifyActor, breaker]
    cases w.actors[p.agent]? with
    | none => rfl
    | some a =>
      cases ha : a.breakers with
      | none => simp [ha]
      | some registry => simp [ha, BreakerRegistry.getD_update_of_ne hother, NamedBreaker.settle]
  · exact breaker_modifyActor_of_ne hagent _

end World

/-- Nothing has happened of which anybody else notices anything, but for some breakers. -/
structure World.Calm (own : Nat → String → Prop) (w w' : World) : Prop where
  bus : w'.bus = w.bus
  signals : w'.signals = w.signals
  stage : w'.stage = w.stage
  grounds : w'.grounds = w.grounds
  breakers : ∀ agent capability, ¬ own agent capability →
    w'.breaker agent capability = w.breaker agent capability

namespace World.Calm

variable {w w' w'' : World} {own own' : Nat → String → Prop}

theorem of_breaker (hbus : w'.bus = w.bus) (hsignals : w'.signals = w.signals)
    (hstage : w'.stage = w.stage) (hgrounds : w'.grounds = w.grounds)
    (hbreaker : w'.breaker = w.breaker) : Calm own w w' :=
  ⟨hbus, hsignals, hstage, hgrounds, fun _ _ _ => by rw [hbreaker]⟩

theorem refl (w : World) : Calm own w w := of_breaker rfl rfl rfl rfl rfl

theorem trans (h : Calm own w w') (h' : Calm own w' w'') : Calm own w w'' :=
  ⟨h'.bus.trans h.bus, h'.signals.trans h.signals, h'.stage.trans h.stage,
    h'.grounds.trans h.grounds, fun agent capability hother =>
      (h'.breakers agent capability hother).trans (h.breakers agent capability hother)⟩

theorem mono (h : Calm own w w') (hsub : ∀ agent capability, own agent capability →
    own' agent capability) : Calm own' w w' :=
  { h with breakers := fun _ _ hother => h.breakers _ _ (mt (hsub _ _) hother) }

theorem owned (h : Calm own w w') (howned : w.owned = true) : w'.owned = true :=
  (congrArg Grounds.owned h.grounds).trans howned

/-- The breaker of a call that ends is changed. -/
theorem settleIn (w : World) {p : HeldPermit} (how : Settlement) (hp : own p.agent p.capability) :
    Calm own w (Scene.settleIn w p how) where
  bus := rfl
  signals := rfl
  stage := rfl
  grounds := grounds_settleIn w p how
  breakers := fun _ _ hother =>
    breaker_settleIn w p how fun ⟨hagent, hcapability⟩ => hother (hagent ▸ hcapability ▸ hp)

/-- Who gives back what he has changes the breakers for which he has permits. -/
theorem takeBack (h : w.owned = true) {b : Belongings}
    (hb : ∀ p ∈ b.permits, own p.agent p.capability) : Calm own w (w.takeBack b) := by
  have hpermits : ∀ (ps : List HeldPermit) (w : World), (∀ p ∈ ps, own p.agent p.capability) →
      Calm own w (ps.foldl (fun w p => Scene.settleIn w p .abandoned) w) := by
    intro ps
    induction ps with
    | nil => exact fun w _ => .refl w
    | cons p ps ih =>
      intro w hps
      obtain ⟨hp, hps⟩ := List.forall_mem_cons.mp hps
      exact (settleIn w .abandoned hp).trans (ih _ hps)
  have hcalm := hpermits b.permits w hb
  unfold World.takeBack
  rw [closeIfAbandoned_of_owned]
  · exact hcalm.trans (.of_breaker rfl rfl rfl rfl rfl)
  · exact hcalm.owned h

end World.Calm

/-- Nothing has happened of which anybody else notices anything. -/
abbrev World.Still (w w' : World) : Prop := Calm (fun _ _ => False) w w'

theorem World.Still.calm {w w' : World} (h : Still w w') {own : Nat → String → Prop} :
    Calm own w w' := h.mono nofun

namespace Scene

variable {s : Scene} {agent : Nat} {capability : String}

/-- A call is let through or refused by the breaker of its capability, and nobody else notices. -/
theorem calm_enter (s : Scene) (agent : Nat) (capability : String) :
    ∃ s', s.attempt (.enter agent capability) =
        (s', some (NamedBreaker.admission (s.world.breaker agent capability) s.world.now)) ∧
      World.Calm (fun other name => agent = other ∧ capability = name) s.world s'.world ∧
      ∀ p ∈ s'.belongings.permits,
        p ∈ s.belongings.permits ∨ p.agent = agent ∧ p.capability = capability := by
  change ∃ s', s.enter agent capability = _ ∧ _
  unfold enter
  cases hactor : (s.world.actors[agent]?).bind (·.breakers) with
  | none =>
    have hbreaker : s.world.breaker agent capability = none := by rw [World.breaker, hactor]; rfl
    rw [hbreaker]
    exact ⟨s, rfl, .refl _, fun _ hp => .inl hp⟩
  | some registry =>
    have hbreaker : s.world.breaker agent capability = some (registry.getD capability) := by
      rw [World.breaker, hactor]
      rfl
    let entered := registry.enter capability s.world.now
    let change : Actor → Actor := fun a => { a with breakers := some entered.1 }
    have hgrounds : (s.world.modifyActor agent change).grounds = s.world.grounds :=
      World.grounds_modifyActor _ _ fun _ => ⟨rfl, rfl⟩
    have hothers : ∀ other name, ¬ (agent = other ∧ capability = name) →
        (s.world.modifyActor agent change).breaker other name = s.world.breaker other name := by
      intro other name h
      by_cases hagent : agent = other
      · subst hagent
        obtain ⟨a, ha, hregistry⟩ := Option.bind_eq_some_iff.mp hactor
        rw [World.breaker, World.actor_modifyActor, World.breaker, ha]
        simp [change, hregistry, entered, BreakerRegistry.getD_enter_of_ne fun h' => h ⟨rfl, h'⟩]
      · exact World.breaker_modifyActor_of_ne hagent change
    have hanswer : entered.2 =
        NamedBreaker.admission (s.world.breaker agent capability) s.world.now := by
      rw [hbreaker]
      exact congrArg Prod.snd (registry.enter_eq capability s.world.now)
    have hcalm : World.Calm (fun other name => agent = other ∧ capability = name) s.world
        (s.world.modifyActor agent change) := ⟨rfl, rfl, rfl, hgrounds, hothers⟩
    rw [← hanswer]
    dsimp only
    cases hentered : entered.2 with
    | error f => exact ⟨_, rfl, hcalm, fun _ hp => .inl hp⟩
    | ok permit =>
      refine ⟨_, rfl, hcalm, fun p hp => ?_⟩
      refine (List.mem_append.mp hp).imp id fun hp => ?_
      obtain rfl := List.mem_singleton.mp hp
      exact ⟨rfl, rfl⟩

end Scene

end Switchboard
