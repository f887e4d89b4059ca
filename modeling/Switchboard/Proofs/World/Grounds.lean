import Switchboard.Proofs.World.Frames

/-!
# What stays as it is

While the user keeps a network, the work that goes on there changes the traffic only: nobody joins
or leaves, and the network goes on running.

* `World.Grounds` : what a network is apart from its traffic;
* `Scene.grounds_attempt` : no operation changes it; `Run.grounds_turn` : nor does a turn.
-/

namespace Switchboard

/-- Who can be reached over a bus. -/
structure Bus.Layout where
  directory : Directory
  members : List Member
  /-- The agents of the lanes. -/
  lanes : List Nat

def Bus.layout (b : Bus) : Layout := ⟨b.directory, b.members, b.lanes.map (·.agent)⟩

/-- What a network is apart from its traffic. -/
structure World.Grounds where
  running : Bool
  owned : Bool
  gone : Bool
  sweeper : Option Sweeper
  layout : Bus.Layout
  /-- The agents, and whether they were ever registered. -/
  agents : List (Agent × Bool)

theorem map_modify_of_eq {α β : Type} {f : α → α} {g : α → β} (h : ∀ a, g (f a) = g a)
    (as : List α) (i : Nat) : (as.modify i f).map g = as.map g := by
  refine List.ext_getElem? fun j => ?_
  rw [List.getElem?_map, List.getElem?_map, List.getElem?_modify]
  cases as[j]? with
  | none => rfl
  | some a =>
    by_cases hi : i = j
    · simp [hi, h]
    · simp [hi]

namespace World

def grounds (w : World) : Grounds where
  running := w.running
  owned := w.owned
  gone := w.gone
  sweeper := w.sweeper
  layout := w.bus.layout
  agents := w.actors.map fun a => (a.agent, a.attached)

variable {w w' : World} {g : Grounds}

theorem closeIfAbandoned_of_owned (h : w.owned = true) : w.closeIfAbandoned = w := by
  rw [closeIfAbandoned, h]
  simp

theorem grounds_modifyActor (w : World) (agent : Nat) {change : Actor → Actor}
    (h : ∀ a, (change a).agent = a.agent ∧ (change a).attached = a.attached) :
    (w.modifyActor agent change).grounds = w.grounds := by
  have hagents : (w.modifyActor agent change).actors.map (fun a => (a.agent, a.attached)) =
      w.actors.map fun a => (a.agent, a.attached) :=
    map_modify_of_eq (fun a => by rw [(h a).1, (h a).2]) w.actors agent
  unfold grounds
  rw [hagents]
  rfl

theorem grounds_settleIn (w : World) (p : HeldPermit) (how : Settlement) :
    (Scene.settleIn w p how).grounds = w.grounds :=
  grounds_modifyActor w _ fun _ => ⟨rfl, rfl⟩

theorem grounds_takeBack (h : w.owned = true) (b : Belongings) :
    (w.takeBack b).grounds = w.grounds := by
  have hpermits : ∀ (ps : List HeldPermit) (w : World),
      (ps.foldl (fun w p => Scene.settleIn w p .abandoned) w).grounds = w.grounds := by
    intro ps
    induction ps with
    | nil => exact fun w => rfl
    | cons p ps ih => exact fun w => (ih _).trans (grounds_settleIn w p _)
  have hsame := hpermits b.permits w
  have howned : (b.permits.foldl (fun w p => Scene.settleIn w p .abandoned) w).owned = true :=
    (congrArg Grounds.owned hsame).trans h
  unfold takeBack
  rw [closeIfAbandoned_of_owned]
  · exact hsame
  · exact howned

end World

namespace Scene

variable {s : Scene}

theorem grounds_wakeAt (s : Scene) (time : Nat) :
    (s.wakeAt time).world.grounds = s.world.grounds := by
  unfold wakeAt
  split <;> rfl

theorem grounds_send (s : Scene) (m : Message) (patience : Option Nat) :
    (s.send m patience).1.world.grounds = s.world.grounds := by
  unfold send
  split
  · split
    · rfl
    · split
      · rfl
      · dsimp only
        split
        · rw [grounds_wakeAt]
          rfl
        · rfl
  · split
    · rfl
    · split <;> rfl

/-- However an operation is answered, a network that the user keeps is the same. -/
theorem grounds_attempt (h : s.world.owned = true) (o : Operation) :
    (s.attempt o).1.world.grounds = s.world.grounds := by
  cases o with
  | pause ms =>
    rw [attempt, pause]
    split
    · rfl
    · exact grounds_wakeAt s _
  | hold =>
    rw [attempt, hold]
    split <;> rfl
  | release =>
    have hsame : ∀ holds, ({ s.world with holds } : World).closeIfAbandoned.grounds =
        s.world.grounds := fun holds => by
      rw [World.closeIfAbandoned_of_owned (w := { s.world with holds }) h]
      rfl
    exact hsame _
  | send m patience => exact s.grounds_send m patience
  | collected p =>
    rw [attempt, collected]
    split
    · rfl
    · exact grounds_wakeAt s _
  | reply w timeout =>
    rw [attempt, reply]
    split
    · rfl
    · exact grounds_wakeAt s _
  | enter agent capability =>
    rw [attempt, enter]
    split
    · rfl
    · dsimp only
      split <;> exact World.grounds_modifyActor _ _ fun _ => ⟨rfl, rfl⟩
  | note | turn | track | untrack | noteReply | settle =>
    exact World.grounds_modifyActor _ _ fun _ => ⟨rfl, rfl⟩
  | _ => rfl

end Scene

/-- A network that the user keeps is the same after whatever operation. -/
theorem World.stable_grounds {g : World.Grounds} (h : g.owned = true) :
    World.Stable (·.grounds = g) :=
  fun s o hs => (s.grounds_attempt ((congrArg Grounds.owned hs).trans h) o).trans hs

/-! ## Turns -/

theorem Thread.grounds_advance {α : Type} (t : Thread α) {w : World} (h : w.owned = true) :
    (t.advance w).1.grounds = w.grounds := by
  have hsame := Program.stable_advance (World.stable_grounds (g := w.grounds) h) t.code t.wave
    (s := ⟨w, t.parking, t.belongings⟩) rfl
  unfold Thread.advance
  split <;> rename_i heq <;> rw [heq] at hsame
  · exact hsame
  all_goals
    exact (World.grounds_takeBack ((congrArg World.Grounds.owned hsame).trans h) _).trans hsame

namespace Bus

theorem layout_handOver (b : Bus) (lane : Nat) (m : Message) :
    (b.handOver lane m).layout = b.layout := by
  have hlanes : (b.handOver lane m).lanes.map (·.agent) = b.lanes.map (·.agent) :=
    map_modify_of_eq (f := fun l : Lane => { l with inbox := l.inbox ++ [m] }) (fun _ => rfl) _ _
  unfold layout
  rw [hlanes]
  rfl

theorem layout_deliver (b : Bus) (m : Message) : (b.deliver m).1.layout = b.layout := by
  have hfold : ∀ (lanes : List Nat) (b : Bus),
      (lanes.foldl (fun b lane => b.handOver lane m) b).layout = b.layout := by
    intro lanes
    induction lanes with
    | nil => exact fun b => rfl
    | cons lane lanes ih => exact fun b => (ih _).trans (b.layout_handOver lane m)
  have hreply : (if m.kind.isReply then b.resolveReply m else (b, {})).1.layout = b.layout := by
    split <;> rfl
  exact (hfold _ _).trans hreply

end Bus

namespace World

variable (w : World)

theorem grounds_deliverOne : w.deliverOne.grounds = w.grounds := by
  unfold deliverOne
  split
  · rfl
  · rename_i m granted bus htake
    have hbus : bus.layout = w.bus.layout := by
      unfold Bus.take? at htake
      split at htake
      · cases htake
      · cases htake
        rfl
    have hsame : ({ w with bus := (bus.deliver m).1 } : World).grounds = w.grounds := by
      unfold grounds
      dsimp only
      rw [bus.layout_deliver m, hbus]
    exact hsame

theorem grounds_deliverAll : w.deliverAll.grounds = w.grounds := by
  have hfold : ∀ (ms : List Message) (w : World),
      (ms.foldl (fun w _ => w.deliverOne) w).grounds = w.grounds := by
    intro ms
    induction ms with
    | nil => exact fun w => rfl
    | cons m ms ih => exact fun w => (ih _).trans w.grounds_deliverOne
  unfold deliverAll
  split
  · exact hfold _ w
  · rfl

theorem grounds_sweepNow : w.sweepNow.grounds = w.grounds := by
  unfold sweepNow
  split <;> rfl

theorem grounds_openInbox (position : Nat) : (w.openInbox position).grounds = w.grounds := by
  unfold openInbox
  split
  · rfl
  · split
    · rfl
    · have hlanes : (w.bus.lanes.modify position fun l => { l with inbox := [] }).map (·.agent) =
          w.bus.lanes.map (·.agent) :=
        map_modify_of_eq (f := fun l : Lane => { l with inbox := [] }) (fun _ => rfl) _ _
      unfold grounds Bus.layout
      dsimp only
      rw [hlanes]

variable {w}

theorem grounds_handlingTurn (h : w.owned = true) (number : Nat) :
    (w.handlingTurn number).grounds = w.grounds := by
  unfold handlingTurn
  split
  · rfl
  · rename_i handling _
    have hsame := handling.thread.grounds_advance h
    split <;> rename_i heq <;> rw [heq] at hsame <;> exact hsame

theorem grounds_laneTurn (h : w.owned = true) (position : Nat) :
    (w.laneTurn position).grounds = w.grounds := by
  have hfold : ∀ (numbers : List Nat) (w : World), w.owned = true →
      (numbers.foldl handlingTurn w).grounds = w.grounds := by
    intro numbers
    induction numbers with
    | nil => exact fun w _ => rfl
    | cons number numbers ih =>
      intro w h
      have hsame := grounds_handlingTurn h number
      exact (ih _ ((congrArg Grounds.owned hsame).trans h)).trans hsame
  have hopen := w.grounds_openInbox position
  unfold laneTurn
  refine (hfold _ _ ?_).trans ?_
  · exact (congrArg Grounds.owned hopen).trans h
  · exact hopen

end World

namespace Run

variable {α : Type} {r : Run α}

theorem grounds_userTurn (h : r.world.owned = true) :
    r.userTurn.world.grounds = r.world.grounds := by
  have hleave : ∀ (tickets : List Nat) (w : World),
      (tickets.foldl Scene.leaveLine w).grounds = w.grounds := by
    intro tickets
    induction tickets with
    | nil => exact fun w => rfl
    | cons ticket tickets ih => exact fun w => (ih _).trans rfl
  unfold userTurn
  split
  · rename_i t _
    have hsame := t.grounds_advance h
    split <;> rename_i heq <;> rw [heq] at hsame
    · exact hsame
    · exact hsame
    · split
      · rename_i t _
        have hleft := (hleave (t.parkings.filterMap (·.ticket)) _).trans hsame
        exact (World.grounds_takeBack ((congrArg World.Grounds.owned hleft).trans h) _).trans hleft
      · exact hsame
  · rfl

/-- In a turn a network that the user keeps changes its traffic only. -/
theorem grounds_turn (h : r.world.owned = true) (host : Host) :
    (r.turn host).world.grounds = r.world.grounds := by
  cases host with
  | user => exact grounds_userTurn h
  | delivery => exact r.world.grounds_deliverAll
  | sweep => exact r.world.grounds_sweepNow
  | lane position => exact World.grounds_laneTurn h position

end Run

end Switchboard
