import Switchboard.Proofs.Bus.Arrivals

/-!
# Runs are passages

Whatever programs and agents do, each turn of a run is made of steps of the network during which
nobody comes or goes.

* `World.Leads` : a passage that shows nothing of the user's doing;
* `Thread.leads_advance`, `World.leads_laneTurn`, `Run.leads_turn` : turns are such passages;
* `Run.leads_go`, `World.leads_run` : and so are runs.
-/

namespace Switchboard

/-- Whether the user does it, and not the network. -/
def Happening.isDeed : Happening → Bool
  | registered _ | unregistered _ | started | stopped => true
  | _ => false

namespace World

/-- A network gets somewhere while the user lets it alone. -/
def Leads (w w' : World) : Prop := ∃ xs, w.Passage xs w' ∧ ∀ x ∈ xs, x.isDeed = false

namespace Leads

variable {w w' w'' : World}

theorem refl (w : World) : Leads w w := ⟨[], .stay, by simp⟩

theorem trans (h : Leads w w') (h' : Leads w' w'') : Leads w w'' := by
  obtain ⟨xs, hxs, hquiet⟩ := h
  obtain ⟨ys, hys, hquiet'⟩ := h'
  exact ⟨xs ++ ys, hxs.trans hys, fun x hx => (List.mem_append.mp hx).elim (hquiet x) (hquiet' x)⟩

theorem of_step {xs : List Happening} (h : Step w xs w') (hquiet : ∀ x ∈ xs, x.isDeed = false) :
    Leads w w' := ⟨xs, .single h, hquiet⟩

theorem of_aside (h : Aside w w') : Leads w w' := .of_step (.aside h) (by simp)

theorem of_same (hbus : w'.bus = w.bus) (hrunning : w'.running = w.running)
    (howned : w'.owned = w.owned) (hnext : w'.nextHandling = w.nextHandling)
    (hhandlings : w'.handlings = w.handlings) : Leads w w' :=
  .of_aside ⟨hbus, hrunning, howned, hnext, fun h hh => ⟨h, hhandlings ▸ hh, rfl, rfl⟩⟩

theorem foldl {β : Type} {f : World → β → World} (hf : ∀ w b, Leads w (f w b)) (bs : List β)
    (w : World) : Leads w (bs.foldl f w) := by
  induction bs generalizing w with
  | nil => exact .refl w
  | cons b bs ih => exact (hf w b).trans (ih _)

end Leads

/-! ## Turns -/

theorem leads_attempt (s : Scene) (o : Operation) : Leads s.world (s.attempt o).1.world := by
  refine .of_step (.asks s o) fun x hx => ?_
  obtain ⟨answer, -, rfl⟩ := Option.map_eq_some_iff.mp (Option.mem_toList.mp hx)
  rfl

theorem stable_leads (w : World) : World.Stable (Leads w) :=
  fun s o h => h.trans (leads_attempt s o)

end World

theorem Thread.leads_advance {α : Type} (t : Thread α) (w : World) :
    World.Leads w (t.advance w).1 := by
  have hleads := Program.stable_advance (World.stable_leads w) t.code t.wave
    (s := ⟨w, t.parking, t.belongings⟩) (.refl w)
  unfold Thread.advance
  split <;> rename_i heq <;> rw [heq] at hleads
  · exact hleads
  all_goals exact hleads.trans (.of_step (.ends _ _) (by simp))

theorem Thread.leads_abandon {α : Type} (t : Thread α) (w : World) :
    World.Leads w (t.abandon w) :=
  (World.Leads.foldl (fun w ticket => .of_step (.leaves w ticket) (by simp)) _ w).trans
    (.of_step (.ends _ _) (by simp))

namespace World

variable (w : World)

theorem leads_deliverAll : Leads w w.deliverAll := by
  have hfold : ∀ (ms : List Message) (w : World), w.running = true →
      Leads w (ms.foldl (fun w _ => w.deliverOne) w) := by
    intro ms
    induction ms with
    | nil => exact fun w _ => .refl w
    | cons m ms ih =>
      intro w hrunning
      have hstays : w.deliverOne.running = true :=
        (congrArg Grounds.running w.grounds_deliverOne).trans hrunning
      have hfirst : Leads w w.deliverOne := by
        cases hqueue : w.bus.queue with
        | nil =>
          rw [w.deliverOne_of_nil hqueue]
          exact .refl w
        | cons m rest => exact .of_step (.delivers hrunning hqueue) (by simp [Happening.isDeed])
      exact hfirst.trans (ih _ hstays)
  unfold deliverAll
  split
  · rename_i hrunning
    exact hfold _ w hrunning
  · exact .refl w

theorem leads_openInbox (i : Nat) : Leads w (w.openInbox i) := by
  cases hlane : w.bus.lanes[i]? with
  | none =>
    rw [Roster.openInbox_of_none hlane]
    exact .refl w
  | some lane =>
    cases hactor : w.actors[lane.agent]? with
    | none =>
      have hsame : w.openInbox i = w := by
        unfold openInbox
        rw [hlane]
        dsimp only
        rw [hactor]
      rw [hsame]
      exact .refl w
    | some actor =>
      refine .of_step (.opens hlane hactor) fun x hx => ?_
      obtain ⟨m, -, rfl⟩ := List.mem_map.mp hx
      rfl

theorem leads_handlingTurn (number : Nat) : Leads w (w.handlingTurn number) := by
  unfold handlingTurn
  split
  · exact .refl w
  · rename_i h _
    have hleads := h.thread.leads_advance w
    split <;> rename_i heq <;> rw [heq] at hleads
    · refine hleads.trans (.of_aside ⟨rfl, rfl, rfl, rfl, fun h' hh => ?_⟩)
      obtain ⟨h₀, hh₀, rfl⟩ := List.mem_map.mp hh
      refine ⟨h₀, hh₀, ?_⟩
      split <;> exact ⟨rfl, rfl⟩
    · refine hleads.trans (.of_aside ⟨rfl, rfl, rfl, rfl, fun h' hh => ?_⟩)
      exact ⟨h', (List.mem_filter.mp hh).1, rfl, rfl⟩

theorem leads_laneTurn (i : Nat) : Leads w (w.laneTurn i) := by
  rw [laneTurn_eq]
  refine (w.leads_openInbox i).trans (.trans ?_ (.foldl leads_handlingTurn _ _))
  exact .of_same rfl rfl rfl rfl rfl

end World

namespace Run

variable {α : Type} (r : Run α)

theorem leads_userTurn : World.Leads r.world r.userTurn.world := by
  unfold userTurn
  split
  · rename_i t _
    have hleads := t.leads_advance r.world
    split <;> rename_i heq <;> rw [heq] at hleads
    · exact hleads
    · exact hleads
    · split
      · exact hleads.trans (Thread.leads_abandon _ _)
      · exact hleads
  · exact .refl _

theorem leads_turn (host : Host) : World.Leads r.world (r.turn host).world := by
  cases host with
  | user => exact r.leads_userTurn
  | delivery => exact r.world.leads_deliverAll
  | sweep => exact .of_step (.sweeps r.world) (by simp)
  | lane i => exact r.world.leads_laneTurn i

/-- Whoever is lined up, the network is where it was. -/
theorem Lined.leads {r r' : Run α} (h : Lined r r') : World.Leads r.world r'.world := by
  rw [h.frame]
  exact .of_same rfl rfl rfl rfl rfl

theorem leads_go (n : Nat) : World.Leads r.world (r.go n).world := by
  refine go_induction (P := fun r' => World.Leads r.world r'.world) (fun r' h => ?_)
    (fun r' host rest h _ => ?_) (fun r' t h _ _ => ?_) (.refl _) n
  · have hheard : World.Leads r'.world r'.heard.world :=
      .of_same rfl rfl rfl rfl rfl
    exact h.trans (hheard.trans (lined_dispatch r').leads)
  · have hready : World.Leads r'.world { r'.world with ready := rest } :=
      .of_same rfl rfl rfl rfl rfl
    exact h.trans (hready.trans (leads_turn { r' with world := { r'.world with ready := rest } } host))
  · have hclock : World.Leads r'.world (r'.setClock r'.nextTime).world :=
      .of_same rfl rfl rfl rfl rfl
    exact h.trans (hclock.trans (lined_tick r' r'.nextTime).leads)

end Run

theorem World.leads_run {α : Type} (w : World) (p : Program α) : Leads w (w.run p).1 := by
  let r : Run α := ⟨w, .going { code := p }, w.now + userPatience⟩
  have hwoken : Leads w (r.wakeHost .user).world := (Run.lined_wakeHost r .user).leads
  exact hwoken.trans (Run.leads_go _ _)

end Switchboard
