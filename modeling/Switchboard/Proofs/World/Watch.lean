import Switchboard.Proofs.World.Passages

/-!
# Whoever has mail is served

The delivery is called while there is something to deliver, and each lane that has mail; whoever is
called has his turn after those who were called before.

* `World.Watchful` : whoever has mail is called; `Run.watchful_go` : so it stays in a run;
* `World.Watchful.no_mail` : when nobody is called there is no mail;
* `Run.exists_turn` : whoever is lined up has his turn after those before him;
* `Run.Serves`, `Run.serves` : what is in a lane begins to be handled, and what is in the queue is
  taken off it, within as many rounds as there are hosts lined up.
-/

namespace Switchboard

namespace World

variable {w w' : World} {host : Host} {rest : List Host}

/-- A host is lined up, or was told that he has something to do. -/
def Calls (w : World) (h : Host) : Prop := h ∈ w.ready ∨ .wake h ∈ w.signals

/-- The delivery is called while there is something to deliver, and each lane that has mail. -/
structure Watchful (w : World) : Prop where
  owned : w.owned = true
  agents : ∀ lane ∈ w.bus.lanes, lane.agent < w.actors.length
  queue : w.running = true → w.bus.queue ≠ [] → w.Calls .delivery
  inbox : ∀ i, w.bus.HasMail i → w.Calls (.lane i)

theorem inboxAt_eq_nil {b : Bus} {i : Nat} (h : ¬ b.HasMail i) : inboxAt b.lanes i = [] := by
  unfold inboxAt
  cases hlane : b.lanes[i]? with
  | none => rfl
  | some lane =>
    by_contra hmail
    exact h ⟨lane, hlane, hmail⟩

namespace Watchful

theorem opened (settings : Settings) : (opened settings).Watchful where
  owned := rfl
  agents := by simp [World.opened, Bus.opened]
  queue := by simp [World.opened]
  inbox := by
    rintro i ⟨lane, hlane, -⟩
    simp [World.opened, Bus.opened] at hlane

/-- When nobody is called there is no mail. -/
theorem no_mail (h : w.Watchful) (hready : w.ready = []) (hsignals : w.signals = []) :
    (∀ i, inboxAt w.bus.lanes i = []) ∧ (w.running = true → w.bus.queue = []) := by
  have hnobody : ∀ host, ¬ w.Calls host := by
    rintro host (hmem | hmem)
    · rw [hready] at hmem
      cases hmem
    · rw [hsignals] at hmem
      cases hmem
  refine ⟨fun i => inboxAt_eq_nil fun hi => hnobody _ (h.inbox i hi), fun hrunning => ?_⟩
  by_contra hqueue
  exact hnobody _ (h.queue hrunning hqueue)

theorem agents_of_grounds (h : w.Watchful) (hgrounds : w'.grounds = w.grounds) :
    ∀ lane ∈ w'.bus.lanes, lane.agent < w'.actors.length := by
  intro lane hlane
  have hlanes : w'.bus.lanes.map (·.agent) = w.bus.lanes.map (·.agent) :=
    congrArg (fun g : Grounds => g.layout.lanes) hgrounds
  have hactors : w'.actors.length = w.actors.length := by
    simpa [grounds] using congrArg (fun g : Grounds => g.agents.length) hgrounds
  have hmem : lane.agent ∈ w.bus.lanes.map (·.agent) := hlanes ▸ List.mem_map_of_mem hlane
  obtain ⟨lane', hlane', hagent⟩ := List.mem_map.mp hmem
  rw [hactors, ← hagent]
  exact h.agents lane' hlane'

/-- A host has its turn and tells what became possible; what it was called for is done. -/
theorem turn (h : w.Watchful) (hready : w.ready = host :: rest) (hrest : w'.ready = rest)
    (htells : Tells w w') (hgrounds : w'.grounds = w.grounds)
    (hqueue : host = .delivery → w.running = true → w'.bus.queue = [])
    (hinbox : ∀ i, host = .lane i → w'.bus.HasMail i → .wake (.lane i) ∈ w'.signals) :
    w'.Watchful := by
  have hcalls : ∀ {other}, w.Calls other → other = host ∨ w'.Calls other := by
    rintro other (hmem | hsignal)
    · rw [hready, ← hrest] at hmem
      exact (List.mem_cons.mp hmem).imp id .inl
    · exact .inr (.inr (htells.signals hsignal))
  have hrunning : w'.running = w.running := congrArg Grounds.running hgrounds
  refine ⟨(congrArg Grounds.owned hgrounds).trans h.owned, h.agents_of_grounds hgrounds,
    fun hruns hmore => ?_, fun i hi => ?_⟩
  · rw [hrunning] at hruns
    rcases htells.queue hmore with hold | hsignal
    · rcases hcalls (h.queue hruns hold) with heq | hcalled
      · exact absurd (hqueue heq.symm hruns) hmore
      · exact hcalled
    · exact .inr hsignal
  · rcases htells.inbox i hi with hold | hsignal
    · rcases hcalls (h.inbox i hold) with heq | hcalled
      · exact .inr (hinbox i heq.symm hi)
      · exact hcalled
    · exact .inr hsignal

/-- Nothing changes but who is lined up, and everybody who was called still is. -/
theorem of_calls (h : w.Watchful) (hbus : w'.bus = w.bus) (howned : w'.owned = w.owned)
    (hrunning : w'.running = w.running) (hactors : w.actors.length ≤ w'.actors.length)
    (hcalls : ∀ host, w.Calls host → w'.Calls host) : w'.Watchful where
  owned := howned.trans h.owned
  agents := fun lane hlane => Nat.lt_of_lt_of_le (h.agents lane (hbus ▸ hlane)) hactors
  queue := fun hruns hqueue => hcalls _ (h.queue (hrunning ▸ hruns) (hbus ▸ hqueue))
  inbox := fun i hi => hcalls _ (h.inbox i (hbus ▸ hi))

end Watchful

theorem tells_handlingTurns (numbers : List Nat) (w : World) :
    Tells w (numbers.foldl handlingTurn w) := by
  induction numbers generalizing w with
  | nil => exact .refl w
  | cons number numbers ih => exact (w.tells_handlingTurn number).trans (ih _)

/-- A lane has its turn: it has mail again only if that was told. -/
theorem tells_laneTurn (i : Nat) (hagent : ∀ lane, w.bus.lanes[i]? = some lane →
      ∃ actor, w.actors[lane.agent]? = some actor) :
    Tells w (w.laneTurn i) ∧
      ((w.laneTurn i).bus.HasMail i → .wake (.lane i) ∈ (w.laneTurn i).signals) := by
  obtain ⟨hopens, hempty⟩ := tells_openInbox hagent
  rw [laneTurn_eq]
  have hlines : Tells (w.openInbox i) { w.openInbox i with
      runnable := (w.openInbox i).runnable.filter (!·.1 == i) } := .of_bus rfl rfl
  have hturns := hlines.trans (tells_handlingTurns
    (((w.openInbox i).runnable.filter (·.1 == i)).map (·.2)) _)
  exact ⟨hopens.trans hturns, fun hmail => (hturns.inbox i hmail).resolve_left hempty⟩

end World

namespace Run

variable {α : Type} {r : Run α} {host : Host} {rest : List Host}

theorem tells_userTurn (r : Run α) : World.Tells r.world r.userTurn.world := by
  have hleave : ∀ (tickets : List Nat) (w : World),
      World.Tells w (tickets.foldl Scene.leaveLine w) := by
    intro tickets
    induction tickets with
    | nil => exact fun w => .refl w
    | cons ticket tickets ih => exact fun w => (w.tells_leaveLine ticket).trans (ih _)
  unfold userTurn
  split
  · rename_i t _
    have htells := t.tells_advance r.world
    split <;> rename_i heq <;> rw [heq] at htells
    · exact htells
    · exact htells
    · split
      · exact (htells.trans (hleave _ _)).trans (World.tells_takeBack _ _)
      · exact htells
  · exact .refl _

theorem watchful_turn (h : r.world.Watchful) (hready : r.world.ready = host :: rest) :
    (turn { r with world := { r.world with ready := rest } } host).world.Watchful := by
  have hfirst := World.tells_ready r.world rest
  generalize hr : ({ r with world := { r.world with ready := rest } } : Run α) = r' at *
  have hworld : r'.world = { r.world with ready := rest } := by rw [← hr]
  rw [← hworld] at hfirst
  have howned : r'.world.owned = true := by
    rw [hworld]
    exact h.owned
  have hgrounds : (r'.turn host).world.grounds = r.world.grounds := by
    rw [grounds_turn howned host, hworld]
    rfl
  have hrest : (r'.turn host).world.ready = rest := by
    rw [ready_turn, hworld]
  cases host with
  | user => exact h.turn hready hrest (hfirst.trans r'.tells_userTurn) hgrounds (by simp) (by simp)
  | delivery =>
    refine h.turn hready hrest (hfirst.trans r'.world.tells_deliverAll) hgrounds (fun _ hruns => ?_)
      (by simp)
    exact World.queue_deliverAll (hworld ▸ hruns)
  | sweep =>
    exact h.turn hready hrest (hfirst.trans r'.world.tells_sweepNow) hgrounds (by simp) (by simp)
  | lane i =>
    obtain ⟨htells, hmail⟩ := World.tells_laneTurn (w := r'.world) i fun lane hlane => by
      rw [hworld] at hlane ⊢
      exact ⟨_, List.getElem?_eq_getElem (h.agents lane (List.mem_of_getElem? hlane))⟩
    refine h.turn hready hrest (hfirst.trans htells) hgrounds (by simp) fun j hj hmore => ?_
    obtain rfl : i = j := by simpa using hj
    exact hmail hmore

/-- Whoever is lined up besides, those who were called still are. -/
theorem watchful_lined {r' : Run α} (h : r.world.Watchful) (hlined : Lined r r') :
    r'.world.Watchful := by
  have hready := hlined.ready
  have hsignals := hlined.signals
  rw [hlined.frame] at hready hsignals ⊢
  refine h.of_calls rfl rfl rfl (Nat.le_refl _) fun host hcalls => ?_
  exact hcalls.imp (fun hmem => hready hmem) fun hmem => hsignals ▸ hmem

theorem watchful_dispatch (h : r.world.Watchful) : r.dispatch.world.Watchful := by
  have hcalls : ∀ host, r.world.Calls host → r.dispatch.world.Calls host :=
    fun host hcalled => Called.dispatch (r := r) hcalled
  rw [(lined_dispatch r).frame] at hcalls ⊢
  exact h.of_calls rfl rfl rfl (Nat.le_refl _) hcalls

/-- However long a run goes on, whoever has mail is called. -/
theorem watchful_go (h : r.world.Watchful) (n : Nat) : (r.go n).world.Watchful := by
  refine go_induction (P := fun r' => r'.world.Watchful) (fun r' => watchful_dispatch)
    (fun r' host rest => watchful_turn) (fun r' t h _ _ => ?_) h n
  have hclock : (r'.setClock r'.nextTime).world.Watchful :=
    h.of_calls rfl rfl rfl (Nat.le_refl _) fun _ hcalled => hcalled
  exact watchful_lined hclock (lined_tick r' r'.nextTime)

end Run

theorem World.watchful_run {α : Type} {w : World} (h : w.Watchful) (p : Program α) :
    (w.run p).1.Watchful := by
  let r : Run α := ⟨w, .going { code := p }, w.now + userPatience⟩
  have hstart : r.world.Watchful := h
  exact Run.watchful_go (Run.watchful_lined hstart (Run.lined_wakeHost r .user)) _

/-! ## Whoever is lined up has his turn -/

namespace Run

variable {α : Type} {r : Run α} {host : Host} {before after rest : List Host}

theorem prefix_wakeHost (r : Run α) (h : Host) :
    r.world.ready <+: (r.wakeHost h).world.ready := by
  unfold wakeHost
  split
  · exact List.prefix_refl _
  · exact List.prefix_append _ _

theorem prefix_wakeHandling (r : Run α) (h : Handling) :
    r.world.ready <+: (r.wakeHandling h).world.ready :=
  prefix_wakeHost (r.lineUp (h.lane, h.number)) (.lane h.lane)

theorem prefix_foldl {β : Type} {f : Run α → β → Run α}
    (hf : ∀ r b, r.world.ready <+: (f r b).world.ready) (bs : List β) (r : Run α) :
    r.world.ready <+: (bs.foldl f r).world.ready := by
  induction bs generalizing r with
  | nil => exact List.prefix_refl _
  | cons b bs ih => exact (hf r b).trans (ih _)

theorem prefix_dispatchOne (r : Run α) (s : Signal) :
    r.world.ready <+: (r.dispatchOne s).world.ready := by
  by_cases hs : ∃ h, s = .wake h
  · obtain ⟨h, rfl⟩ := hs
    exact prefix_wakeHost r h
  · have hwaiting : r.world.ready <+: (r.wakeWaiting s).world.ready :=
      prefix_foldl prefix_wakeHandling _ r
    rw [dispatchOne_eq r fun h heq => hs ⟨h, heq⟩]
    split
    · exact hwaiting.trans (prefix_wakeHost _ _)
    · exact hwaiting

/-- Whoever is woken is lined up behind the others. -/
theorem prefix_dispatch (r : Run α) : r.world.ready <+: r.dispatch.world.ready :=
  prefix_foldl prefix_dispatchOne r.world.signals r.heard

/-- Whoever is lined up has his turn after those before him. -/
theorem exists_turn (hready : r.dispatch.world.ready = before ++ host :: after) :
    ∃ rest, (r.go before.length).dispatch.world.ready = host :: rest ∧
      r.go (before.length + 1) = turn { (r.go before.length).dispatch with
        world := { (r.go before.length).dispatch.world with ready := rest } } host := by
  induction before generalizing r after with
  | nil =>
    refine ⟨after, hready, ?_⟩
    have hnext : r.next = some (turn { r.dispatch with
        world := { r.dispatch.world with ready := after } } host) := by
      unfold next
      rw [hready]
      rfl
    rw [List.length_nil, go_succ, hnext]
    rfl
  | cons first before ih =>
    let r' := turn { r.dispatch with
      world := { r.dispatch.world with ready := before ++ host :: after } } first
    have hnext : r.next = some r' := by
      unfold next
      rw [hready]
      rfl
    have hrest : r'.world.ready = before ++ host :: after := ready_turn _ first
    obtain ⟨more, hmore⟩ := prefix_dispatch r'
    have hready' : r'.dispatch.world.ready = before ++ host :: (after ++ more) := by
      rw [← hmore, hrest, List.append_assoc]
      rfl
    have hgo : ∀ n, r.go (n + 1) = r'.go n := fun n => by rw [go_succ, hnext]
    rw [List.length_cons, hgo, hgo]
    exact ih hready'

/-- Whoever is called has his turn within as many rounds as there are hosts lined up. -/
theorem exists_turn_of_calls (h : r.world.Calls host) :
    ∃ n < r.dispatch.world.ready.length, ∃ rest, (r.go n).dispatch.world.ready = host :: rest ∧
      r.go (n + 1) = turn { (r.go n).dispatch with
        world := { (r.go n).dispatch.world with ready := rest } } host := by
  have hmem : host ∈ r.dispatch.world.ready :=
    h.elim (fun hready => (lined_dispatch r).ready hready) mem_ready_dispatch
  obtain ⟨before, after, hready⟩ := List.append_of_mem hmem
  refine ⟨before.length, ?_, exists_turn hready⟩
  rw [hready, List.length_append, List.length_cons]
  omega

end Run

/-! ## What waits is taken up -/

theorem Thread.lanes_advance {α : Type} (t : Thread α) {w : World} (h : w.owned = true) :
    (t.advance w).1.bus.lanes = w.bus.lanes := by
  have hstable : World.Stable fun v => v.owned = true ∧ v.bus.lanes = w.bus.lanes := by
    rintro s o ⟨howned, hlanes⟩
    refine ⟨(congrArg World.Grounds.owned (s.grounds_attempt howned o)).trans howned, ?_⟩
    rw [← hlanes]
    exact congrArg Bus.Mail.lanes (Scene.mail_attempt howned o)
  obtain ⟨howned, hlanes⟩ := Program.stable_advance hstable t.code t.wave
    (s := ⟨w, t.parking, t.belongings⟩) ⟨h, rfl⟩
  unfold Thread.advance
  split <;> rename_i heq <;> rw [heq] at howned hlanes
  · exact hlanes
  all_goals exact (congrArg Bus.Mail.lanes (World.mail_takeBack howned _)).trans hlanes

namespace World

variable {w : World}

theorem lanes_handlingTurns (h : w.owned = true) (numbers : List Nat) :
    (numbers.foldl handlingTurn w).bus.lanes = w.bus.lanes := by
  induction numbers generalizing w with
  | nil => rfl
  | cons number numbers ih =>
    have howned : (w.handlingTurn number).owned = true :=
      (congrArg Grounds.owned (grounds_handlingTurn h number)).trans h
    refine (ih howned).trans ?_
    unfold handlingTurn
    split
    · rfl
    · rename_i handling _
      have hlanes := handling.thread.lanes_advance h
      split <;> rename_i heq <;> rw [heq] at hlanes <;> exact hlanes

/-- After its turn a lane is empty. -/
theorem inboxAt_laneTurn (h : w.owned = true)
    (hagents : ∀ lane ∈ w.bus.lanes, lane.agent < w.actors.length) (i : Nat) :
    inboxAt (w.laneTurn i).bus.lanes i = [] := by
  have hactors : ∀ lane, w.bus.lanes[i]? = some lane → ∃ actor, w.actors[lane.agent]? = some actor :=
    fun lane hlane => ⟨_, List.getElem?_eq_getElem (hagents lane (List.mem_of_getElem? hlane))⟩
  obtain ⟨-, hempty⟩ := tells_openInbox hactors
  have howned : (w.openInbox i).owned = true :=
    (congrArg Grounds.owned (w.grounds_openInbox i)).trans h
  have hlanes : (w.laneTurn i).bus.lanes = (w.openInbox i).bus.lanes := by
    rw [laneTurn_eq]
    exact lanes_handlingTurns (w := { w.openInbox i with
      runnable := (w.openInbox i).runnable.filter (!·.1 == i) }) howned _
  rw [hlanes]
  exact inboxAt_eq_nil hempty

end World

namespace Run

variable {α : Type} {r : Run α}

/-- What is in a lane begins to be handled within as many rounds as there are hosts lined up. -/
theorem empties_lane (h : r.world.Watchful) (i : Nat) :
    ∃ n ≤ r.dispatch.world.ready.length, inboxAt (r.go n).world.bus.lanes i = [] := by
  by_cases hmail : r.world.bus.HasMail i
  · obtain ⟨n, hn, rest, -, hgo⟩ := exists_turn_of_calls (h.inbox i hmail)
    have hd := watchful_dispatch (watchful_go h n)
    refine ⟨n + 1, hn, ?_⟩
    rw [hgo]
    exact World.inboxAt_laneTurn (w := { (r.go n).dispatch.world with ready := rest }) hd.owned
      hd.agents i
  · exact ⟨0, Nat.zero_le _, World.inboxAt_eq_nil hmail⟩

theorem grounds_go (h : r.world.owned = true) (n : Nat) :
    (r.go n).world.grounds = r.world.grounds := by
  refine go_induction (P := fun r' => r'.world.grounds = r.world.grounds) (fun r' hsame => ?_)
    (fun r' host rest hsame _ => ?_) (fun r' t hsame _ _ => ?_) rfl n
  · rw [(lined_dispatch r').frame]
    exact hsame
  · have howned : r'.world.owned = true := (congrArg World.Grounds.owned hsame).trans h
    have hturn := grounds_turn (r := { r' with world := { r'.world with ready := rest } }) howned host
    exact hturn.trans hsame
  · rw [(lined_tick r' r'.nextTime).frame]
    exact hsame

/-- While messages are being delivered, what is in the queue is taken off it within as many rounds as
there are hosts lined up. -/
theorem empties_queue (h : r.world.Watchful) (hruns : r.world.running = true) :
    ∃ n ≤ r.dispatch.world.ready.length, (r.go n).world.bus.queue = [] := by
  by_cases hqueue : r.world.bus.queue = []
  · exact ⟨0, Nat.zero_le _, hqueue⟩
  · obtain ⟨n, hn, rest, -, hgo⟩ := exists_turn_of_calls (h.queue hruns hqueue)
    have hstays : (r.go n).dispatch.world.running = true := by
      rw [(lined_dispatch (r.go n)).frame]
      exact (congrArg World.Grounds.running (grounds_go h.owned n)).trans hruns
    refine ⟨n + 1, hn, ?_⟩
    rw [hgo]
    exact World.queue_deliverAll (w := { (r.go n).dispatch.world with ready := rest }) hstays

/-- What waits is taken up within as many rounds as there are hosts lined up. -/
structure Serves (r : Run α) : Prop where
  lanes : ∀ i, ∃ n ≤ r.dispatch.world.ready.length, inboxAt (r.go n).world.bus.lanes i = []
  queue : r.world.running = true →
    ∃ n ≤ r.dispatch.world.ready.length, (r.go n).world.bus.queue = []

theorem serves (h : r.world.Watchful) : r.Serves := ⟨empties_lane h, empties_queue h⟩

end Run

end Switchboard
