import Switchboard.Proofs.World.Frames

/-!
# No wake-up is lost

Work that waits goes on only when a signal wakes it. So whatever becomes possible has to be told.

* `World.Tells` : what became possible from one world to another is told by its signals;
* `Scene.tells_attempt`, `Thread.tells_advance`, `World.tells_deliverAll`, `World.tells_sweepNow` :
  no operation and no turn keeps anything to itself;
* `Operation.Blocked`, `Thread.Blocked` : work cannot go on;
* `Thread.Blocked.tells`, `Thread.Blocked.later` : it cannot go on later, either, unless something
  it waits for was told or its alarm is due.
-/

namespace Switchboard

/-- There are messages in the lane at a position. -/
def Bus.HasMail (b : Bus) (position : Nat) : Prop :=
  ∃ lane, b.lanes[position]? = some lane ∧ lane.inbox ≠ []

/-- Whatever became possible is told. -/
structure World.Tells (w w' : World) : Prop where
  signals : w.signals ⊆ w'.signals
  queue : w'.bus.queue ≠ [] → w.bus.queue ≠ [] ∨ .wake .delivery ∈ w'.signals
  inbox : ∀ i, w'.bus.HasMail i → w.bus.HasMail i ∨ .wake (.lane i) ∈ w'.signals
  granted : ∀ k ∈ w'.bus.gate.granted, k ∈ w.bus.gate.granted ∨ .granted k ∈ w'.signals
  resolved : ∀ k ∈ w'.bus.collector.results.map (·.1),
    k ∈ w.bus.collector.results.map (·.1) ∨ .resolved k ∈ w'.signals

namespace World.Tells

variable {w w' w'' : World}

theorem refl (w : World) : Tells w w :=
  ⟨fun _ h => h, .inl, fun _ => .inl, fun _ => .inl, fun _ => .inl⟩

theorem trans (h : Tells w w') (h' : Tells w' w'') : Tells w w'' where
  signals := List.Subset.trans h.signals h'.signals
  queue := fun hq => (h'.queue hq).elim (fun hq => (h.queue hq).imp id (h'.signals ·)) .inr
  inbox := fun i hi => (h'.inbox i hi).elim (fun hi => (h.inbox i hi).imp id (h'.signals ·)) .inr
  granted := fun k hk =>
    (h'.granted k hk).elim (fun hk => (h.granted k hk).imp id (h'.signals ·)) .inr
  resolved := fun k hk =>
    (h'.resolved k hk).elim (fun hk => (h.resolved k hk).imp id (h'.signals ·)) .inr

/-- Where nothing happens on the bus there is nothing to tell. -/
theorem of_bus (hbus : w'.bus = w.bus) (hsignals : w'.signals = w.signals) : Tells w w' := by
  refine ⟨hsignals ▸ fun _ h => h, ?_, ?_, ?_, ?_⟩ <;> rw [hbus]
  · exact .inl
  · exact fun _ => .inl
  · exact fun _ => .inl
  · exact fun _ => .inl

end World.Tells

/-! ## Answers of collections -/

namespace Collector

variable {c : Collector}

theorem results_register (now : Nat) (requestId capability : String) (expected : List String)
    (strategy : Strategy) (timeout : Nat) :
    c.results <+: (c.register now requestId capability expected strategy timeout).1.results := by
  unfold register
  dsimp only
  split
  · exact (List.prefix_append _ _).trans (List.prefix_append _ _)
  · exact List.prefix_append _ _

theorem results_wait {now : Nat} {p : Pending} {c' : Collector} {a : Collected}
    (h : c.wait now p = some (c', a)) : c.results <+: c'.results := by
  unfold wait at h
  split at h
  · cases h
    exact List.prefix_refl _
  · split at h
    · cases h
      exact List.prefix_refl _
    · split at h
      · cases h
        exact List.prefix_append _ _
      · cases h

theorem results_add (requestId sender : String) (content : Json) (isError : Bool) :
    c.results <+: (c.add requestId sender content isError).1.results := by
  unfold add
  split
  · exact List.prefix_refl _
  · split
    · exact List.prefix_refl _
    · dsimp only
      split
      · exact List.prefix_append _ _
      · exact List.prefix_refl _

theorem results_sweep (now : Nat) : c.results <+: (c.sweep now).1.results :=
  List.prefix_append _ _

end Collector

/-- Handles that were given answers. -/
theorem mem_results_cases {old new : List (Nat × Collected)} (h : old <+: new) {k : Nat}
    (hk : k ∈ new.map (·.1)) : k ∈ old.map (·.1) ∨ k ∈ (new.drop old.length).map (·.1) := by
  obtain ⟨more, rfl⟩ := h
  rw [List.map_append] at hk
  simpa using List.mem_append.mp hk

theorem World.tells_withCollector {w : World} {c : Collector}
    (h : w.bus.collector.results <+: c.results) : World.Tells w (w.withCollector c) where
  signals := List.subset_append_left _ _
  queue := .inl
  inbox := fun _ => .inl
  granted := fun _ => .inl
  resolved := fun k hk => (mem_results_cases h hk).imp id fun hk => by
    obtain ⟨a, ha, rfl⟩ := List.mem_map.mp hk
    exact List.mem_append_right _ (List.mem_map_of_mem ha)

/-! ## Operations -/

namespace Gate

theorem granted_take? {g g' : Gate} (h : g.take? = some g') : g'.granted = g.granted := by
  unfold take? at h
  split at h
  · cases h
  · cases h
    rfl

theorem granted_claim? {g g' : Gate} {ticket : Nat} (h : g.claim? ticket = some g') :
    g'.granted = g.granted.erase ticket := by
  unfold claim? at h
  split at h
  · cases h
    rfl
  · cases h

/-- The place that becomes free is told to whom it is kept for. -/
theorem granted_release (g : Gate) :
    g.release.1.granted = g.granted ++ g.release.2.toList := by
  unfold release
  split <;> simp

theorem mem_granted_leave {g : Gate} {ticket k : Nat} (hk : k ∈ (g.leave ticket).1.granted) :
    k ∈ g.granted ∨ (g.leave ticket).2 = some k := by
  unfold leave at hk ⊢
  split at hk
  · rename_i g' hclaim
    rw [granted_release, granted_claim? hclaim] at hk
    rcases List.mem_append.mp hk with hk | hk
    · exact .inl (List.mem_of_mem_erase hk)
    · exact .inr (Option.mem_toList.mp hk)
  · exact .inl hk

end Gate

namespace World

variable (w : World)

theorem tells_leaveLine (ticket : Nat) : Tells w (Scene.leaveLine w ticket) where
  signals := List.subset_append_left _ _
  queue := .inl
  inbox := fun _ => .inl
  granted := fun _ hk => (Gate.mem_granted_leave hk).imp id fun hk =>
    List.mem_append_right _ (Option.mem_toList.mpr (congrArg (Option.map Signal.granted) hk))
  resolved := fun _ => .inl

theorem tells_closeIfAbandoned : Tells w w.closeIfAbandoned := by
  unfold closeIfAbandoned
  split
  · exact .refl w
  · refine ⟨List.subset_append_left _ _, fun h => absurd rfl h, fun _ => .inl, ?_, fun _ => .inl⟩
    intro k hk
    cases hk

theorem tells_takeBack (b : Belongings) : Tells w (w.takeBack b) := by
  have hpermits : ∀ (ps : List HeldPermit) (w : World),
      Tells w (ps.foldl (fun w p => Scene.settleIn w p .abandoned) w) := by
    intro ps
    induction ps with
    | nil => exact fun w => .refl w
    | cons p ps ih =>
      intro w
      have hfirst : Tells w (Scene.settleIn w p .abandoned) := .of_bus rfl rfl
      exact hfirst.trans (ih _)
  have hholds : ∀ w : World, Tells w ({ w with holds := w.holds - b.holds } : World) :=
    fun w => .of_bus rfl rfl
  exact ((hpermits b.permits w).trans (hholds _)).trans (tells_closeIfAbandoned _)

end World

namespace Scene

variable (s : Scene)

theorem tells_wakeAt (time : Nat) : World.Tells s.world (s.wakeAt time).world := by
  unfold wakeAt
  split
  · exact .refl _
  · exact .of_bus rfl rfl

theorem tells_accept {gate : Gate} (h : gate.granted ⊆ s.world.bus.gate.granted) (m : Message) :
    World.Tells s.world (s.accept gate m).world where
  signals := List.subset_append_left _ _
  queue := fun _ => .inr (List.mem_append_right _ (List.mem_singleton.mpr rfl))
  inbox := fun _ => .inl
  granted := fun _ hk => .inl (h hk)
  resolved := fun _ => .inl

/-- Work waits in line for a place. -/
def lineUp : Scene :=
  { s with
    parking := { s.parking with ticket := some s.world.bus.gate.line.2 }
    world := { s.world with bus := { s.world.bus with gate := s.world.bus.gate.line.1 } } }

theorem tells_lineUp : World.Tells s.world s.lineUp.world :=
  ⟨fun _ h => h, .inl, fun _ => .inl, fun _ => .inl, fun _ => .inl⟩

section Places

variable {s : Scene}

theorem send_free (h : s.parking.ticket = none) {gate : Gate}
    (htake : s.world.bus.gate.take? = some gate) (m : Message) :
    s.send m none = (s.accept gate m, some true) := by
  simp only [send, h, htake]

theorem send_full (h : s.parking.ticket = none) (htake : s.world.bus.gate.take? = none)
    (m : Message) : s.send m none = (s.lineUp, none) := by
  simp only [send, h, htake, reduceCtorEq, if_false]
  rfl

theorem send_kept {k : Nat} (h : s.parking.ticket = some k) {gate : Gate}
    (hclaim : s.world.bus.gate.claim? k = some gate) (m : Message) :
    s.send m none = (s.accept gate m, some true) := by
  simp only [send, h, hclaim]

theorem send_waits {k : Nat} (h : s.parking = { ticket := some k })
    (hclaim : s.world.bus.gate.claim? k = none) (m : Message) : s.send m none = (s, none) := by
  simp only [send, h, hclaim, timeIsUp, Bool.false_eq_true, if_false]

end Places

theorem tells_send (m : Message) (patience : Option Nat) :
    World.Tells s.world (s.send m patience).1.world := by
  unfold send
  split
  · split
    · rename_i gate htake
      exact s.tells_accept (by rw [Gate.granted_take? htake]; exact fun _ h => h) m
    · split
      · exact .refl _
      · dsimp only
        split
        · exact s.tells_lineUp.trans (s.lineUp.tells_wakeAt _)
        · exact s.tells_lineUp
  · split
    · rename_i gate hclaim
      refine s.tells_accept ?_ m
      rw [Gate.granted_claim? hclaim]
      exact List.erase_subset
    · split
      · exact s.world.tells_leaveLine _
      · exact .refl _

/-- However an operation is answered, it tells what became possible. -/
theorem tells_attempt (o : Operation) : World.Tells s.world (s.attempt o).1.world := by
  cases o with
  | pause ms =>
    rw [attempt, pause]
    split
    · exact .refl _
    · exact s.tells_wakeAt _
  | hold =>
    rw [attempt, hold]
    split
    · exact .refl _
    · exact .of_bus rfl rfl
  | release =>
    have hholds : World.Tells s.world { s.world with holds := s.world.holds - 1 } :=
      .of_bus rfl rfl
    exact hholds.trans (World.tells_closeIfAbandoned _)
  | send m patience => exact s.tells_send m patience
  | collect requestId capability expected strategy timeout =>
    exact World.tells_withCollector (Collector.results_register ..)
  | collected p =>
    rw [attempt, collected]
    split
    · rename_i hwait
      exact World.tells_withCollector (Collector.results_wait hwait)
    · exact s.tells_wakeAt _
  | expect _ | giveUp _ =>
    exact ⟨List.subset_append_left _ _, .inl, fun _ => .inl, fun _ => .inl, fun _ => .inl⟩
  | reply w timeout =>
    rw [attempt, reply]
    split
    · exact .refl _
    · exact s.tells_wakeAt _
  | enter agent capability =>
    rw [attempt, enter]
    split
    · exact .refl _
    · dsimp only
      split <;> exact .of_bus rfl rfl
  | _ => exact .of_bus rfl rfl

end Scene

theorem World.stable_tells (w : World) : World.Stable (World.Tells w) :=
  fun s o h => h.trans (s.tells_attempt o)

theorem Thread.tells_advance {α : Type} (t : Thread α) (w : World) :
    World.Tells w (t.advance w).1 := by
  have htells := Program.stable_advance (World.stable_tells w) t.code t.wave
    (s := ⟨w, t.parking, t.belongings⟩) (.refl w)
  unfold Thread.advance
  split <;> rename_i heq <;> rw [heq] at htells
  · exact htells
  · exact htells.trans (World.tells_takeBack _ _)
  · exact htells.trans (World.tells_takeBack _ _)

/-! ## Deliveries and sweeps -/

namespace Bus

/-- A message is put into the lanes at some positions. -/
def post (m : Message) (positions : List Nat) (lanes : List Lane) : List Lane :=
  positions.foldl (fun lanes i => lanes.modify i fun l => { l with inbox := l.inbox ++ [m] }) lanes

/-- The lanes after a message was put into those that it goes to. -/
def posted (b : Bus) (m : Message) : List Lane := post m (b.targets m) b.lanes

theorem foldl_handOver (m : Message) (positions : List Nat) (b : Bus) :
    positions.foldl (fun b lane => b.handOver lane m) b =
      { b with lanes := post m positions b.lanes } := by
  induction positions generalizing b with
  | nil => rfl
  | cons i positions ih => exact ih (b.handOver i m)

/-- A reply is handed to those who wait for it, and everything is put into lanes. -/
theorem deliver_eq (b : Bus) (m : Message) :
    b.deliver m =
      let (b', d) := if m.kind.isReply then b.resolveReply m else (b, {})
      ({ b' with lanes := b.posted m }, { d with lanes := b.targets m }) := by
  unfold deliver
  cases hreply : m.kind.isReply <;> simp only [if_true, Bool.false_eq_true, if_false] <;>
    rw [foldl_handOver] <;> rfl

theorem queue_deliver (b : Bus) (m : Message) : (b.deliver m).1.queue = b.queue := by
  rw [deliver_eq]
  dsimp only
  split <;> rfl

theorem gate_deliver (b : Bus) (m : Message) : (b.deliver m).1.gate = b.gate := by
  rw [deliver_eq]
  dsimp only
  split <;> rfl

theorem hasMail_post {m : Message} {positions : List Nat} {lanes : List Lane} {i : Nat}
    {lane : Lane} (h : (post m positions lanes)[i]? = some lane) (hmail : lane.inbox ≠ []) :
    (∃ lane, lanes[i]? = some lane ∧ lane.inbox ≠ []) ∨ i ∈ positions := by
  induction positions generalizing lanes with
  | nil => exact .inl ⟨lane, h, hmail⟩
  | cons j positions ih =>
    rcases ih h with ⟨lane', hlane', hmail'⟩ | hi
    · rw [List.getElem?_modify] at hlane'
      by_cases hj : j = i
      · exact .inr (hj ▸ List.mem_cons_self)
      · exact .inl ⟨lane', by simpa [hj] using hlane', hmail'⟩
    · exact .inr (List.mem_cons_of_mem _ hi)

end Bus

namespace World

variable (w : World)

theorem deliverOne_eq {m : Message} {rest : List Message} (h : w.bus.queue = m :: rest) :
    w.deliverOne =
      let bus := { w.bus with queue := rest, gate := w.bus.gate.release.1 }
      { w with bus := (bus.deliver m).1 }.signalAll
        (w.bus.gate.release.2.toList.map Signal.granted
          ++ (bus.deliver m).2.waiter.toList.map Signal.replied
          ++ (bus.deliver m).2.resolved.map Signal.resolved
          ++ (bus.deliver m).2.lanes.map fun lane => Signal.wake (.lane lane)) := by
  unfold deliverOne Bus.take?
  rw [h]

theorem deliverOne_of_nil (h : w.bus.queue = []) : w.deliverOne = w := by
  unfold deliverOne Bus.take?
  rw [h]

theorem tells_deliverOne : Tells w w.deliverOne := by
  cases hqueue : w.bus.queue with
  | nil =>
    rw [w.deliverOne_of_nil hqueue]
    exact .refl w
  | cons m rest =>
    rw [deliverOne_eq w hqueue]
    dsimp only
    generalize hbus : ({ w.bus with queue := rest, gate := w.bus.gate.release.1 } : Bus) = bus
    have hgate : (bus.deliver m).1.gate = w.bus.gate.release.1 := by
      rw [Bus.gate_deliver, ← hbus]
    have hlanes : (bus.deliver m).1.lanes = bus.posted m ∧
        (bus.deliver m).2.lanes = bus.targets m := by
      rw [Bus.deliver_eq]
      exact ⟨rfl, rfl⟩
    have hold : bus.lanes = w.bus.lanes ∧ bus.collector = w.bus.collector := by
      rw [← hbus]
      exact ⟨rfl, rfl⟩
    have hresolved : ∀ k ∈ (bus.deliver m).1.collector.results.map (·.1),
        k ∈ w.bus.collector.results.map (·.1) ∨ k ∈ (bus.deliver m).2.resolved := by
      rw [Bus.deliver_eq, ← hold.2]
      dsimp only
      split
      · exact fun k hk => mem_results_cases (Collector.results_add ..) hk
      · exact fun k hk => .inl hk
    refine ⟨List.subset_append_left _ _, fun _ => .inl (by simp [hqueue]), ?_, ?_, ?_⟩
    · rintro i ⟨lane, hlane, hmail⟩
      have hlane : (bus.deliver m).1.lanes[i]? = some lane := hlane
      rw [hlanes.1, Bus.posted, hold.1] at hlane
      refine (Bus.hasMail_post hlane hmail).imp id fun hi => List.mem_append_right _ ?_
      rw [hlanes.2]
      exact List.mem_append_right _ (List.mem_map_of_mem hi)
    · intro k hk
      have hk : k ∈ (bus.deliver m).1.gate.granted := hk
      rw [hgate, Gate.granted_release] at hk
      refine (List.mem_append.mp hk).imp id fun hk => List.mem_append_right _ ?_
      exact List.mem_append_left _ (List.mem_append_left _ (List.mem_append_left _
        (List.mem_map_of_mem hk)))
    · intro k hk
      refine (hresolved k hk).imp id fun hk => List.mem_append_right _ ?_
      exact List.mem_append_left _ (List.mem_append_right _ (List.mem_map_of_mem hk))

theorem tells_deliverAll : Tells w w.deliverAll := by
  have hfold : ∀ (ms : List Message) (w : World), Tells w (ms.foldl (fun w _ => w.deliverOne) w) := by
    intro ms
    induction ms with
    | nil => exact fun w => .refl w
    | cons m ms ih => exact fun w => w.tells_deliverOne.trans (ih _)
  unfold deliverAll
  split
  · exact hfold _ w
  · exact .refl w

theorem tells_sweepNow : Tells w w.sweepNow := by
  unfold sweepNow
  split
  · exact tells_withCollector (Collector.results_sweep w.now)
  · exact .refl w

end World

/-! ## Work that cannot go on -/

/-- Work that has come to an operation cannot go on. Of what lets work wait, only that is taken
into account of which an end is in sight: a length of time, a place in line, a collection. -/
def Operation.Blocked (o : Operation) (p : Parking) (b : Bus) (now : Nat) : Prop :=
  match o with
  | .pause _ => ∃ a, p.alarm = some a ∧ now < a.time
  | .send _ none => ∃ k, p.ticket = some k ∧ k ∉ b.gate.granted
  | .collected pending =>
    pending.handle ∉ b.collector.results.map (·.1) ∧ ∃ a, p.alarm = some a ∧ now < a.time
  | _ => False

def Branch.Blocked (branch : Branch) (b : Bus) (now : Nat) : Prop :=
  match branch with
  | .ended _ => True
  | .going ⟨.ask o _, parking⟩ => o.Blocked parking b now
  | .going _ => False

def Thread.Blocked {α : Type} (t : Thread α) (b : Bus) (now : Nat) : Prop :=
  match t.wave, t.code with
  | some branches, _ => ∀ branch ∈ branches, branch.Blocked b now
  | none, .ask (.plain o) _ => o.Blocked t.parking b now
  | none, _ => False

/-- Something was told that a thread waits for. -/
def World.Stirs {α : Type} (w : World) (t : Thread α) : Prop :=
  ∃ s ∈ w.signals, t.waitsFor s = true

section Blocked

variable {w w' : World} {bus : Bus} {now now' : Nat}

theorem Operation.Blocked.tells {o : Operation} {p : Parking} (h : o.Blocked p w.bus w.now)
    (htells : World.Tells w w') (hnow : w'.now = w.now) :
    o.Blocked p w'.bus w'.now ∨ ∃ s ∈ w'.signals, o.waitsFor p s = true := by
  rw [hnow]
  unfold Operation.Blocked at h ⊢
  split at h
  · exact .inl h
  · obtain ⟨k, hk, hfree⟩ := h
    by_cases hgranted : k ∈ w'.bus.gate.granted
    · rcases htells.granted k hgranted with hmem | hsignal
      · exact absurd hmem hfree
      · exact .inr ⟨_, hsignal, by simp [waitsFor, hk]⟩
    · exact .inl ⟨k, hk, hgranted⟩
  · rename_i pending
    obtain ⟨hopen, halarm⟩ := h
    by_cases hresolved : pending.handle ∈ w'.bus.collector.results.map (·.1)
    · rcases htells.resolved _ hresolved with hmem | hsignal
      · exact absurd hmem hopen
      · exact .inr ⟨_, hsignal, by simp [waitsFor]⟩
    · exact .inl ⟨hresolved, halarm⟩
  · exact h.elim

theorem Branch.Blocked.tells {b : Branch} (h : b.Blocked w.bus w.now) (htells : World.Tells w w')
    (hnow : w'.now = w.now) :
    b.Blocked w'.bus w'.now ∨ ∃ s ∈ w'.signals, b.waitsFor s = true := by
  cases b with
  | ended o => exact .inl trivial
  | going strand =>
    obtain ⟨code, parking⟩ := strand
    cases code with
    | ask o next => exact Operation.Blocked.tells h htells hnow
    | done a => exact h.elim
    | crash text => exact h.elim

theorem Thread.Blocked.tells {α : Type} {t : Thread α} (h : t.Blocked w.bus w.now)
    (htells : World.Tells w w') (hnow : w'.now = w.now) :
    w'.Stirs t ∨ t.Blocked w'.bus w'.now := by
  unfold Thread.Blocked at h ⊢
  unfold World.Stirs Thread.waitsFor
  obtain ⟨code, parking, wave, belongings⟩ := t
  cases wave with
  | some branches =>
    dsimp only at h ⊢
    by_cases hall : ∀ b ∈ branches, b.Blocked w'.bus w'.now
    · exact .inr hall
    · obtain ⟨b, hb, hfree⟩ : ∃ b ∈ branches, ¬ b.Blocked w'.bus w'.now := by simpa using hall
      obtain ⟨s, hs, hwaits⟩ := ((h b hb).tells htells hnow).resolve_left hfree
      exact .inl ⟨s, hs, List.any_eq_true.mpr ⟨b, hb, hwaits⟩⟩
  | none =>
    cases code with
    | ask e next =>
      cases e with
      | plain o => exact (Operation.Blocked.tells h htells hnow).symm
      | wave calls => exact h.elim
    | done a => exact h.elim
    | crash text => exact h.elim

theorem World.Stirs.tells {α : Type} {t : Thread α} (h : w.Stirs t) (htells : World.Tells w w') :
    w'.Stirs t :=
  h.imp fun _ hs => ⟨htells.signals hs.1, hs.2⟩

/-- As time passes an operation is blocked until its alarm is due. -/
theorem Operation.Blocked.later {o : Operation} {p : Parking} (h : o.Blocked p bus now)
    (now' : Nat) : o.Blocked p bus now' ∨ ∃ a, p.alarm = some a ∧ a.time ≤ now' := by
  unfold Operation.Blocked at h ⊢
  split at h
  · obtain ⟨a, ha, -⟩ := h
    rcases Nat.lt_or_ge now' a.time with hlt | hge
    · exact .inl ⟨a, ha, hlt⟩
    · exact .inr ⟨a, ha, hge⟩
  · exact .inl h
  · obtain ⟨hopen, a, ha, -⟩ := h
    rcases Nat.lt_or_ge now' a.time with hlt | hge
    · exact .inl ⟨hopen, a, ha, hlt⟩
    · exact .inr ⟨a, ha, hge⟩
  · exact h.elim

theorem Branch.Blocked.later {b : Branch} (h : b.Blocked bus now) (now' : Nat) :
    b.Blocked bus now' ∨ ∃ a, b.parking.alarm = some a ∧ a.time ≤ now' := by
  cases b with
  | ended o => exact .inl trivial
  | going strand =>
    obtain ⟨code, parking⟩ := strand
    cases code with
    | ask o next => exact Operation.Blocked.later h now'
    | done a => exact h.elim
    | crash text => exact h.elim

theorem Thread.Blocked.later {α : Type} {t : Thread α} (h : t.Blocked bus now) (now' : Nat) :
    t.Blocked bus now' ∨ ∃ p ∈ t.parkings, ∃ a, p.alarm = some a ∧ a.time ≤ now' := by
  unfold Thread.Blocked at h ⊢
  unfold Thread.parkings
  obtain ⟨code, parking, wave, belongings⟩ := t
  cases wave with
  | some branches =>
    dsimp only at h ⊢
    by_cases hall : ∀ b ∈ branches, b.Blocked bus now'
    · exact .inl hall
    · obtain ⟨b, hb, hfree⟩ : ∃ b ∈ branches, ¬ b.Blocked bus now' := by simpa using hall
      exact .inr ⟨_, List.mem_map_of_mem hb, ((h b hb).later now').resolve_left hfree⟩
  | none =>
    cases code with
    | ask e next =>
      cases e with
      | plain o =>
        exact (Operation.Blocked.later h now').imp id fun ha => ⟨_, List.mem_singleton.mpr rfl, ha⟩
      | wave calls => exact h.elim
    | done a => exact h.elim
    | crash text => exact h.elim

end Blocked

end Switchboard
