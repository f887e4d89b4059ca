import Switchboard.World.Run

/-!
# Rounds of a run

A run goes on in rounds: what happened wakes work, and then a host has its turn, or else time passes.

* `Run.Lined` : some hosts and handlings are lined up for a turn, and nothing else changes;
* `Run.lined_dispatch`, `Run.lined_tick` : that is all that waking work does; `mem_ready_dispatch`,
  `mem_runnable_dispatch`, `mem_runnable_tick` and their like : whom it wakes;
* `Run.next` : one round; `Run.go_succ` : a run is one round after another;
* `Run.go_induction` : what holds of a run if every round preserves it.
-/

namespace Switchboard

theorem Branch.waitsFor_wake (b : Branch) (h : Host) : b.waitsFor (.wake h) = false := by
  unfold Branch.waitsFor
  split <;> rfl

theorem Thread.waitsFor_wake {α : Type} (t : Thread α) (h : Host) :
    t.waitsFor (.wake h) = false := by
  unfold Thread.waitsFor
  split
  · simp [Branch.waitsFor_wake]
  · rfl
  · rfl

namespace Run

variable {α : Type} {r r' r'' : Run α}

/-! ## Waking work -/

/-- Some hosts and handlings are lined up for a turn: each handling with its lane. -/
structure Lined (r r' : Run α) : Prop where
  frame : r' =
    { r with world := { r.world with ready := r'.world.ready, runnable := r'.world.runnable } }
  ready : r.world.ready ⊆ r'.world.ready
  runnable : r.world.runnable ⊆ r'.world.runnable
  fresh : ∀ x ∈ r'.world.runnable, x ∈ r.world.runnable ∨ Host.lane x.1 ∈ r'.world.ready

namespace Lined

theorem refl (r : Run α) : Lined r r := ⟨rfl, fun _ h => h, fun _ h => h, fun _ h => .inl h⟩

theorem trans (h : Lined r r') (h' : Lined r' r'') : Lined r r'' where
  frame := by
    rw [h'.frame, h.frame]
  ready := List.Subset.trans h.ready h'.ready
  runnable := List.Subset.trans h.runnable h'.runnable
  fresh := fun x hx => (h'.fresh x hx).elim
    (fun hx => (h.fresh x hx).imp id fun hready => h'.ready hready) .inr

theorem foldl {β : Type} {f : Run α → β → Run α} (hf : ∀ r b, Lined r (f r b)) (bs : List β)
    (r : Run α) : Lined r (bs.foldl f r) := by
  induction bs generalizing r with
  | nil => exact refl r
  | cons b bs ih => exact (hf r b).trans (ih _)

/-- What one of the steps lines up is lined up after all of them. -/
theorem foldl_of_mem {β : Type} {f : Run α → β → Run α} (hf : ∀ r b, Lined r (f r b))
    {bs : List β} {b : β} (hb : b ∈ bs) (r : Run α) :
    ∃ r', Lined r r' ∧ Lined (f r' b) (bs.foldl f r) := by
  obtain ⟨before, after, rfl⟩ := List.append_of_mem hb
  rw [List.foldl_append, List.foldl_cons]
  exact ⟨_, foldl hf before r, foldl hf after _⟩

theorem user (h : Lined r r') : r'.user = r.user := by rw [h.frame]

theorem limit (h : Lined r r') : r'.limit = r.limit := by rw [h.frame]

theorem handlings (h : Lined r r') : r'.world.handlings = r.world.handlings := by rw [h.frame]

theorem signals (h : Lined r r') : r'.world.signals = r.world.signals := by rw [h.frame]

theorem now (h : Lined r r') : r'.world.now = r.world.now := by rw [h.frame]

end Lined

theorem lined_wakeHost (r : Run α) (h : Host) : Lined r (r.wakeHost h) := by
  unfold wakeHost
  split
  · exact .refl r
  · exact ⟨rfl, List.subset_append_left _ _, fun _ h => h, fun _ h => .inl h⟩

theorem mem_ready_wakeHost (r : Run α) (h : Host) : h ∈ (r.wakeHost h).world.ready := by
  unfold wakeHost
  split
  · rename_i hready
    simpa using hready
  · simp

theorem runnable_wakeHost (r : Run α) (h : Host) :
    (r.wakeHost h).world.runnable = r.world.runnable := by
  unfold wakeHost
  split <;> rfl

/-- Give a handling its place in line. -/
def lineUp (r : Run α) (entry : Nat × Nat) : Run α :=
  { r with world := { r.world with
    runnable :=
      if r.world.runnable.contains entry then r.world.runnable
      else r.world.runnable ++ [entry] } }

theorem wakeHandling_eq (r : Run α) (h : Handling) :
    r.wakeHandling h = (r.lineUp (h.lane, h.number)).wakeHost (.lane h.lane) := rfl

theorem subset_runnable_lineUp (r : Run α) (entry : Nat × Nat) :
    r.world.runnable ⊆ (r.lineUp entry).world.runnable := by
  dsimp only [lineUp]
  split
  · exact fun _ h => h
  · exact List.subset_append_left _ _

theorem mem_runnable_lineUp {entry x : Nat × Nat} :
    x ∈ (r.lineUp entry).world.runnable ↔ x ∈ r.world.runnable ∨ x = entry := by
  dsimp only [lineUp]
  split
  · rename_i hmem
    have hmem : entry ∈ r.world.runnable := by simpa using hmem
    exact ⟨.inl, fun h => h.elim id fun heq => heq ▸ hmem⟩
  · simp

theorem runnable_wakeHandling (r : Run α) (h : Handling) :
    (r.wakeHandling h).world.runnable = (r.lineUp (h.lane, h.number)).world.runnable := by
  rw [wakeHandling_eq, runnable_wakeHost]

/-- A handling is woken together with its lane. -/
theorem lined_wakeHandling (r : Run α) (h : Handling) : Lined r (r.wakeHandling h) where
  frame := by
    rw [wakeHandling_eq, (lined_wakeHost _ _).frame]
    rfl
  ready := (lined_wakeHost (r.lineUp (h.lane, h.number)) (.lane h.lane)).ready
  runnable := by
    rw [runnable_wakeHandling]
    exact subset_runnable_lineUp r _
  fresh := by
    intro x hx
    rw [runnable_wakeHandling, mem_runnable_lineUp] at hx
    refine hx.imp id fun heq => ?_
    rw [heq]
    exact mem_ready_wakeHost (r.lineUp (h.lane, h.number)) _

theorem mem_runnable_wakeHandling (r : Run α) (h : Handling) :
    (h.lane, h.number) ∈ (r.wakeHandling h).world.runnable := by
  rw [runnable_wakeHandling, mem_runnable_lineUp]
  exact .inr rfl

/-! ## What happened wakes work -/

/-- The handlings that wait for something that happened. -/
def wakeWaiting (r : Run α) (s : Signal) : Run α :=
  (r.world.handlings.filter (·.thread.waitsFor s)).foldl wakeHandling r

theorem lined_wakeWaiting (r : Run α) (s : Signal) : Lined r (r.wakeWaiting s) :=
  Lined.foldl lined_wakeHandling _ r

theorem dispatchOne_eq (r : Run α) {s : Signal} (hs : ∀ h, s ≠ .wake h) :
    r.dispatchOne s =
      if (r.wakeWaiting s).userIs (·.waitsFor s) then (r.wakeWaiting s).wakeHost .user
      else r.wakeWaiting s := by
  cases s with
  | wake h => exact absurd rfl (hs h)
  | _ => rfl

theorem lined_dispatchOne (r : Run α) (s : Signal) : Lined r (r.dispatchOne s) := by
  by_cases hs : ∃ h, s = .wake h
  · obtain ⟨h, rfl⟩ := hs
    exact lined_wakeHost r h
  · rw [dispatchOne_eq r fun h heq => hs ⟨h, heq⟩]
    split
    · exact (lined_wakeWaiting r s).trans (lined_wakeHost _ _)
    · exact lined_wakeWaiting r s

/-- A run whose signals have been read. -/
def heard (r : Run α) : Run α := { r with world := { r.world with signals := [] } }

theorem lined_dispatch (r : Run α) : Lined r.heard r.dispatch :=
  Lined.foldl lined_dispatchOne r.world.signals r.heard

@[simp] theorem user_dispatch (r : Run α) : r.dispatch.user = r.user := (lined_dispatch r).user

@[simp] theorem limit_dispatch (r : Run α) : r.dispatch.limit = r.limit := (lined_dispatch r).limit

@[simp] theorem now_dispatch (r : Run α) : r.dispatch.world.now = r.world.now :=
  (lined_dispatch r).now

@[simp] theorem signals_dispatch (r : Run α) : r.dispatch.world.signals = [] :=
  (lined_dispatch r).signals

@[simp] theorem handlings_dispatch (r : Run α) :
    r.dispatch.world.handlings = r.world.handlings := (lined_dispatch r).handlings

/-- A host is lined up if it was told that it has something to do. -/
theorem mem_ready_dispatch {h : Host} (hs : .wake h ∈ r.world.signals) :
    h ∈ r.dispatch.world.ready := by
  obtain ⟨r', -, hlined⟩ := Lined.foldl_of_mem lined_dispatchOne hs r.heard
  exact hlined.ready (mem_ready_wakeHost r' h)

/-- A handling is lined up if something happened that it waits for. -/
theorem mem_runnable_dispatch {h : Handling} (hh : h ∈ r.world.handlings) {s : Signal}
    (hs : s ∈ r.world.signals) (hwaits : h.thread.waitsFor s = true) :
    (h.lane, h.number) ∈ r.dispatch.world.runnable := by
  obtain ⟨r', hbefore, hafter⟩ := Lined.foldl_of_mem lined_dispatchOne hs r.heard
  have hmem : h ∈ r'.world.handlings.filter (·.thread.waitsFor s) := by
    rw [hbefore.handlings]
    exact List.mem_filter.mpr ⟨hh, hwaits⟩
  obtain ⟨r'', -, hwoken⟩ := Lined.foldl_of_mem lined_wakeHandling hmem r'
  have hrunnable : (h.lane, h.number) ∈ (r'.wakeWaiting s).world.runnable :=
    hwoken.runnable (mem_runnable_wakeHandling r'' h)
  have hnotwake : ∀ host, s ≠ .wake host := by
    rintro host rfl
    exact absurd hwaits (by simp [Thread.waitsFor_wake])
  refine hafter.runnable ?_
  rw [dispatchOne_eq r' hnotwake]
  split
  · exact (lined_wakeHost _ _).runnable hrunnable
  · exact hrunnable

/-- The user is lined up if something happened that he waits for. -/
theorem user_mem_ready_dispatch {t : Thread α} (ht : r.user = .going t) {s : Signal}
    (hs : s ∈ r.world.signals) (hwaits : t.waitsFor s = true) :
    Host.user ∈ r.dispatch.world.ready := by
  obtain ⟨r', hbefore, hafter⟩ := Lined.foldl_of_mem lined_dispatchOne hs r.heard
  have hnotwake : ∀ host, s ≠ .wake host := by
    rintro host rfl
    exact absurd hwaits (by simp [Thread.waitsFor_wake])
  have huser : (r'.wakeWaiting s).user = .going t := by
    rw [(lined_wakeWaiting r' s).user, hbefore.user]
    exact ht
  refine hafter.ready ?_
  rw [dispatchOne_eq r' hnotwake, if_pos (by simp [userIs, huser, hwaits])]
  exact mem_ready_wakeHost _ _

/-! ## Time passes -/

/-- Wake the work of an alarm. -/
def wakeCall (r : Run α) (c : Call) : Run α :=
  match c.2 with
  | some h => r.wakeHandling h
  | none => r.wakeHost .user

theorem lined_wakeCall (r : Run α) (c : Call) : Lined r (r.wakeCall c) := by
  unfold wakeCall
  split
  · exact lined_wakeHandling r _
  · exact lined_wakeHost r _

/-- A host is woken under a condition. -/
def wakeHostIf (r : Run α) (c : Prop) [Decidable c] (h : Host) : Run α :=
  if c then r.wakeHost h else r

theorem lined_wakeHostIf (r : Run α) (c : Prop) [Decidable c] (h : Host) :
    Lined r (r.wakeHostIf c h) := by
  unfold wakeHostIf
  split
  · exact lined_wakeHost r h
  · exact .refl r

/-- The same run at another time. -/
def setClock (r : Run α) (time : Nat) : Run α := { r with world := { r.world with now := time } }

/-- Whether a sweep is due. -/
def sweepsAt (r : Run α) (time : Nat) : Bool :=
  (r.world.sweeper.map fun s => decide (s.lastRun time = time)).getD false

/-- The alarms that are due, the first one first. -/
def due (r : Run α) (time : Nat) : List Call :=
  (r.calls.filter fun c => decide (c.1.time ≤ time)).mergeSort earlier

theorem mem_due {c : Call} {time : Nat} : c ∈ r.due time ↔ c ∈ r.calls ∧ c.1.time ≤ time := by
  simp [due, List.mem_mergeSort]

theorem calls_congr (huser : r'.user = r.user) (hwork : r'.world.handlings = r.world.handlings) :
    r'.calls = r.calls := by
  unfold calls
  rw [huser, hwork]

/-- First the sweep is woken if it is due, then the work whose alarm is due, and at his limit the
user. -/
theorem tick_eq (r : Run α) (time : Nat) :
    let swept := (r.setClock time).wakeHostIf (r.sweepsAt time = true) .sweep
    let called := (swept.due time).foldl wakeCall swept
    r.tick time = called.wakeHostIf (called.limit ≤ time) .user := rfl

theorem lined_tick (r : Run α) (time : Nat) : Lined (r.setClock time) (r.tick time) := by
  rw [tick_eq]
  exact ((lined_wakeHostIf _ _ _).trans (Lined.foldl lined_wakeCall _ _)).trans
    (lined_wakeHostIf _ _ _)

@[simp] theorem user_tick (r : Run α) (time : Nat) : (r.tick time).user = r.user :=
  (lined_tick r time).user

@[simp] theorem limit_tick (r : Run α) (time : Nat) : (r.tick time).limit = r.limit :=
  (lined_tick r time).limit

@[simp] theorem now_tick (r : Run α) (time : Nat) : (r.tick time).world.now = time :=
  (lined_tick r time).now

/-- What an alarm that is due wakes is woken when time passes. -/
theorem lined_tick_of_due {c : Call} (hc : c ∈ r.calls) {time : Nat} (hdue : c.1.time ≤ time) :
    ∃ r', Lined (r.setClock time) r' ∧ Lined (r'.wakeCall c) (r.tick time) := by
  have hcalls : ((r.setClock time).wakeHostIf (r.sweepsAt time = true) .sweep).calls = r.calls :=
    calls_congr ((lined_wakeHostIf _ _ _).user.trans rfl)
      ((lined_wakeHostIf _ _ _).handlings.trans rfl)
  have hmem : c ∈ ((r.setClock time).wakeHostIf (r.sweepsAt time = true) .sweep).due time :=
    mem_due.mpr ⟨hcalls ▸ hc, hdue⟩
  obtain ⟨r', hbefore, hafter⟩ := Lined.foldl_of_mem lined_wakeCall hmem
    ((r.setClock time).wakeHostIf (r.sweepsAt time = true) .sweep)
  rw [tick_eq]
  exact ⟨r', (lined_wakeHostIf _ _ _).trans hbefore, hafter.trans (lined_wakeHostIf _ _ _)⟩

theorem mem_calls_handling {h : Handling} (hh : h ∈ r.world.handlings) {p : Parking}
    (hp : p ∈ h.thread.parkings) {a : Alarm} (ha : p.alarm = some a) : (a, some h) ∈ r.calls := by
  refine List.mem_append_left _ (List.mem_flatMap.mpr ⟨h, hh, List.mem_map.mpr ⟨a, ?_, rfl⟩⟩)
  exact List.mem_filterMap.mpr ⟨p, hp, ha⟩

theorem mem_calls_user {t : Thread α} (ht : r.user = .going t) {p : Parking}
    (hp : p ∈ t.parkings) {a : Alarm} (ha : p.alarm = some a) : (a, none) ∈ r.calls := by
  refine List.mem_append_right _ ?_
  rw [ht]
  exact List.mem_map.mpr ⟨a, List.mem_filterMap.mpr ⟨p, hp, ha⟩, rfl⟩

/-- A handling whose alarm is due is lined up. -/
theorem mem_runnable_tick {h : Handling} (hh : h ∈ r.world.handlings) {p : Parking}
    (hp : p ∈ h.thread.parkings) {a : Alarm} (ha : p.alarm = some a) {time : Nat}
    (hdue : a.time ≤ time) : (h.lane, h.number) ∈ (r.tick time).world.runnable := by
  obtain ⟨r', -, hafter⟩ := lined_tick_of_due (mem_calls_handling hh hp ha) hdue
  exact hafter.runnable (mem_runnable_wakeHandling r' h)

/-- The user is lined up when one of his alarms is due. -/
theorem user_mem_ready_tick {t : Thread α} (ht : r.user = .going t) {p : Parking}
    (hp : p ∈ t.parkings) {a : Alarm} (ha : p.alarm = some a) {time : Nat}
    (hdue : a.time ≤ time) : Host.user ∈ (r.tick time).world.ready := by
  obtain ⟨r', -, hafter⟩ := lined_tick_of_due (mem_calls_user ht hp ha) hdue
  exact hafter.ready (mem_ready_wakeHost r' .user)

theorem foldl_min_le (times : List Nat) (limit : Nat) :
    times.foldl min limit ≤ limit ∧ ∀ t ∈ times, times.foldl min limit ≤ t := by
  induction times generalizing limit with
  | nil => simp
  | cons t times ih =>
    obtain ⟨hlimit, hall⟩ := ih (min limit t)
    refine ⟨Nat.le_trans hlimit (Nat.min_le_left _ _), fun u hu => ?_⟩
    rcases List.mem_cons.mp hu with rfl | hu
    · exact Nat.le_trans hlimit (Nat.min_le_right _ _)
    · exact hall u hu

/-- The clock does not pass by an alarm. -/
theorem nextTime_le_alarm {c : Call} (hc : c ∈ r.calls) : r.nextTime ≤ c.1.time :=
  (foldl_min_le _ _).2 _ (List.mem_append_left _ (List.mem_map_of_mem hc))

/-! ## Rounds -/

/-- One round of a run, unless the user has ended and nothing else can happen. -/
def next (r : Run α) : Option (Run α) :=
  match r.dispatch.world.ready with
  | h :: rest => some (turn { r.dispatch with world := { r.dispatch.world with ready := rest } } h)
  | [] =>
    match r.user with
    | .going _ => some (r.dispatch.tick r.dispatch.nextTime)
    | _ => none

theorem go_succ (fuel : Nat) (r : Run α) :
    r.go (fuel + 1) =
      match r.next with
      | some r' => r'.go fuel
      | none => r.dispatch := by
  rw [go, next, ← user_dispatch r]
  cases r.dispatch.world.ready with
  | cons h rest => simp only
  | nil => cases r.dispatch.user <;> simp only

/-- What holds of a run from its start on if turns and the passage of time preserve it. -/
theorem go_induction {P : Run α → Prop} (hdispatch : ∀ r, P r → P r.dispatch)
    (hturn : ∀ r h rest, P r → r.world.ready = h :: rest →
      P (turn { r with world := { r.world with ready := rest } } h))
    (htick : ∀ r t, P r → r.world.ready = [] → r.user = .going t → P (r.tick r.nextTime))
    {r : Run α} (hr : P r) (fuel : Nat) : P (r.go fuel) := by
  induction fuel generalizing r with
  | zero => exact hr
  | succ fuel ih =>
    have hd := hdispatch r hr
    rw [go]
    dsimp only
    split
    · rename_i h rest hready
      exact ih (hturn _ h rest hd hready)
    · rename_i hready
      split
      · rename_i t ht
        exact ih (htick _ t hd hready ht)
      · exact hd

instance {u : UserState α} : Decidable (∀ t, u ≠ .going t) :=
  match u with
  | .going t => .isFalse fun h => h t rfl
  | .ended _ | .crashed _ | .stuck => .isTrue nofun

/-- A user who has ended stays so. -/
theorem user_go_of_stopped (h : ∀ t, r.user ≠ .going t) (n : Nat) : (r.go n).user = r.user := by
  refine go_induction (P := fun r' => r'.user = r.user) (fun r' hr => by rwa [user_dispatch])
    (fun r' host rest hr _ => ?_) (fun r' t hr _ ht => absurd (hr ▸ ht) (h t)) rfl n
  cases host with
  | user =>
    rw [← hr] at h
    rw [turn, userTurn]
    split
    · rename_i t ht
      exact absurd ht (h t)
    · exact hr
  | _ => exact hr

theorem user_go_of_le {n m : Nat} (h : ∀ t, (r.go n).user ≠ .going t) (hle : n ≤ m) :
    (r.go m).user = (r.go n).user := by
  induction n generalizing r m with
  | zero => exact user_go_of_stopped h m
  | succ n ih =>
    obtain ⟨m, rfl⟩ : ∃ k, m = k + 1 := ⟨m - 1, by omega⟩
    rw [go_succ] at h
    rw [go_succ, go_succ]
    cases hnext : r.next with
    | none => rfl
    | some r' =>
      rw [hnext] at h
      exact ih h (by omega)

end Run

end Switchboard
