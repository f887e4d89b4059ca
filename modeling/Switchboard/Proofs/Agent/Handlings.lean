import Switchboard.Proofs.Agent.Turns
import Switchboard.Proofs.World.Deeds

/-!
# Handlings from their beginning to their end

The messages of a lane begin to be handled, handlings have turns until they end, and in between
anything may happen elsewhere. What a handling asked and was told is a course of what its agent does
with the message; when it has ended, so has the course, and the request was answered once.

* `Proceeding`, `openedIn`, `toldIn` : what happens to handlings, and to one of them;
* `World.Manned`, `World.Live` : who has a lane, and a network that is kept;
* `World.Elsewhere`, `World.Proceeds` : the handlings of a network, whatever else happens;
* `World.Minutes` : the handlings have come as far as was noted; `World.Proceeds.minutes` : so it stays;
* `World.queue_handlingTurn` : what a handling puts into the queue in a turn;
* `World.proceeds_deeds`, `Run.proceeds_go` : what the user does, and all turns of a run, are such;
* `World.answers_requests` : every request is answered once.
-/

namespace Switchboard

/-- What happens to the handlings of a network. -/
inductive Proceeding where
  /-- A message of a lane begins to be handled. -/
  | begins (lane : Nat) (m : Message)
  /-- A handling has a turn, in which it asks and is told something. -/
  | goesOn (number : Nat) (told : List Answered)

namespace Proceeding

def begun? : Proceeding → Option (Nat × Message)
  | begins lane m => some (lane, m)
  | goesOn .. => none

def toldTo (number : Nat) : Proceeding → List Answered
  | begins .. => []
  | goesOn other told => if other = number then told else []

end Proceeding

/-- The messages that began to be handled, each with its lane. Their handlings are numbered in this
order. -/
def openedIn (ps : List Proceeding) : List (Nat × Message) := ps.filterMap Proceeding.begun?

/-- What a handling asked and was told. -/
def toldIn (ps : List Proceeding) (number : Nat) : List Answered := ps.flatMap (·.toldTo number)

section Proceedings

variable (ps qs : List Proceeding)

@[simp] theorem openedIn_append : openedIn (ps ++ qs) = openedIn ps ++ openedIn qs :=
  List.filterMap_append

@[simp] theorem toldIn_append (k : Nat) : toldIn (ps ++ qs) k = toldIn ps k ++ toldIn qs k :=
  List.flatMap_append

theorem openedIn_map_begins (i : Nat) (ms : List Message) :
    openedIn (ms.map (.begins i)) = ms.map fun m => (i, m) := by
  rw [openedIn, List.filterMap_map]
  exact congrFun List.filterMap_eq_map' ms

@[simp] theorem toldIn_map_begins (i k : Nat) (ms : List Message) :
    toldIn (ms.map (.begins i)) k = [] := by
  simp [toldIn, Proceeding.toldTo]

@[simp] theorem toldIn_goesOn (number k : Nat) (told : List Answered) :
    toldIn [.goesOn number told] k = if number = k then told else [] := by
  simp [toldIn, Proceeding.toldTo]

end Proceedings

namespace World

/-! ## Lanes and their agents -/

/-- A lane is that of an agent which belongs to the network. -/
def Manned (w : World) (i agent : Nat) (a : Agent) : Prop :=
  w.grounds.layout.lanes[i]? = some agent ∧ w.grounds.agents[agent]? = some (a, true)

/-- The user keeps the network, and every lane is that of an agent which belongs to it. -/
structure Live (w : World) : Prop where
  owned : w.owned = true
  present : w.gone = false
  manned : ∀ i, i < w.bus.lanes.length → ∃ agent a, w.Manned i agent a

/-- Something happens elsewhere: the handlings stay as they are, no lane changes hands and the network
is kept. -/
structure Elsewhere (w w' : World) : Prop where
  handlings : w'.handlings = w.handlings
  nextHandling : w'.nextHandling = w.nextHandling
  live : w.Live → w'.Live
  manned : ∀ i agent a, w.Manned i agent a → w'.Manned i agent a

variable {w w' w'' : World} {ps qs : List Proceeding} {i k number agent : Nat} {a : Agent}
  {m : Message}

theorem Manned.hosts (h : w.Live) (hmanned : w.Manned i agent a) : w.grounds.Hosts agent :=
  ⟨h.owned, h.present, a, hmanned.2⟩

theorem Manned.unique {agent' : Nat} {a' : Agent} (h : w.Manned i agent a)
    (h' : w.Manned i agent' a') : agent = agent' ∧ a = a' := by
  obtain rfl := Option.some.inj (h.1.symm.trans h'.1)
  exact ⟨rfl, (Prod.mk.inj (Option.some.inj (h.2.symm.trans h'.2))).1⟩

theorem manned_of_lane {lane : Lane} {actor : Actor} (h : w.Live)
    (hlane : w.bus.lanes[i]? = some lane) (hactor : w.actors[lane.agent]? = some actor) :
    w.Manned i lane.agent actor.agent := by
  obtain ⟨agent, a, hlanes, hagents⟩ := h.manned i (List.getElem?_eq_some_iff.mp hlane).1
  have hagent : (w.bus.lanes.map (·.agent))[i]? = some agent := hlanes
  rw [List.getElem?_map, hlane] at hagent
  obtain rfl : lane.agent = agent := Option.some.inj hagent
  have hboth : (w.actors.map fun actor => (actor.agent, actor.attached))[lane.agent]? =
      some (a, true) := hagents
  rw [List.getElem?_map, hactor] at hboth
  obtain rfl : actor.agent = a := (Prod.mk.inj (Option.some.inj hboth)).1
  exact ⟨hlanes, hagents⟩

theorem length_of_grounds (h : w'.grounds = w.grounds) :
    w'.bus.lanes.length = w.bus.lanes.length := by
  have hlanes : w'.bus.lanes.map (·.agent) = w.bus.lanes.map (·.agent) :=
    congrArg (fun g : Grounds => g.layout.lanes) h
  simpa using congrArg List.length hlanes

theorem Live.of_grounds (h : w.Live) (hgrounds : w'.grounds = w.grounds) : w'.Live where
  owned := (congrArg Grounds.owned hgrounds).trans h.owned
  present := (congrArg Grounds.gone hgrounds).trans h.present
  manned := fun i hi => by
    unfold Manned
    rw [hgrounds]
    exact h.manned i (length_of_grounds hgrounds ▸ hi)

namespace Elsewhere

theorem of_grounds (hhandlings : w'.handlings = w.handlings)
    (hnext : w'.nextHandling = w.nextHandling) (hgrounds : w'.grounds = w.grounds) :
    Elsewhere w w' where
  handlings := hhandlings
  nextHandling := hnext
  live := fun h => h.of_grounds hgrounds
  manned := fun i agent a h => by
    unfold Manned
    rw [hgrounds]
    exact h

theorem of_stage (hstage : w'.stage = w.stage) (hgrounds : w'.grounds = w.grounds) :
    Elsewhere w w' :=
  .of_grounds (nextHandling_of_stage hstage).2 (nextHandling_of_stage hstage).1 hgrounds

end Elsewhere

/-! ## What happens to handlings -/

/-- What happens to the handlings of a network, whatever else happens. -/
inductive Proceeds (w : World) : List Proceeding → World → Prop
  | stay : Proceeds w [] w
  | opens {ps : List Proceeding} {w' : World} {i : Nat} {lane : Lane} {actor : Actor}
      (h : Proceeds w ps w') (hlane : w'.bus.lanes[i]? = some lane)
      (hactor : w'.actors[lane.agent]? = some actor) :
      Proceeds w (ps ++ lane.inbox.map (.begins i)) (w'.openInbox i)
  | goesOn {ps : List Proceeding} {w' : World} {number : Nat} {handling : Handling}
      (h : Proceeds w ps w')
      (hfind : w'.handlings.find? (·.number == number) = some handling) :
      Proceeds w (ps ++ [.goesOn number (handling.thread.told w')]) (w'.handlingTurn number)
  | elsewhere {ps : List Proceeding} {w' w'' : World} (h : Proceeds w ps w')
      (helse : Elsewhere w' w'') : Proceeds w ps w''

theorem Proceeds.trans (h : w.Proceeds ps w') (h' : w'.Proceeds qs w'') :
    w.Proceeds (ps ++ qs) w'' := by
  induction h' with
  | stay =>
    rw [List.append_nil]
    exact h
  | opens _ hlane hactor ih =>
    rw [← List.append_assoc]
    exact .opens ih hlane hactor
  | goesOn _ hfind ih =>
    rw [← List.append_assoc]
    exact .goesOn ih hfind
  | elsewhere _ helse ih => exact .elsewhere ih helse

theorem Proceeds.live (h : w.Proceeds ps w') (hlive : w.Live) : w'.Live := by
  induction h with
  | stay => exact hlive
  | opens _ _ _ ih => exact ih.of_grounds (grounds_openInbox _ _)
  | goesOn _ _ ih => exact ih.of_grounds (grounds_handlingTurn ih.owned _)
  | elsewhere _ helse ih => exact helse.live ih

/-- A lane is that of the same agent for good. -/
theorem Proceeds.manned (h : w.Proceeds ps w') (hlive : w.Live) (hmanned : w.Manned i agent a) :
    w'.Manned i agent a := by
  induction h with
  | stay => exact hmanned
  | opens _ _ _ ih =>
    unfold Manned
    rw [grounds_openInbox]
    exact ih
  | goesOn h _ ih =>
    unfold Manned
    rw [grounds_handlingTurn (h.live hlive).owned]
    exact ih
  | elsewhere _ helse ih => exact helse.manned _ _ _ ih

/-- The handling of a message by an agent: while it is under way it has come so far, and without it the
agent has done all that it does with the message. -/
structure Handles (w : World) (k agent : Nat) (a : Agent) (m : Message) (told : List Answered) :
    Prop where
  live : ∀ x ∈ told, x.Live agent
  underway : ∀ h ∈ w.handlings, h.number = k →
    (a.serve agent m).Course told (h.thread.code.left h.thread.wave) ∧
      h.thread.code.Steady h.thread.wave h.thread.parking
  ended : (∀ h ∈ w.handlings, h.number ≠ k) → (a.serve agent m).Course told ⟨.done (), none⟩

/-- The handlings of a network have come as far as was noted. -/
structure Minutes (ps : List Proceeding) (w : World) : Prop where
  live : w.Live
  nextHandling : w.nextHandling = (openedIn ps).length
  numbers : ∀ h ∈ w.handlings, h.number < (openedIn ps).length
  later : ∀ k, (openedIn ps).length ≤ k → toldIn ps k = []
  handled : ∀ k i m, (openedIn ps)[k]? = some (i, m) →
    ∃ agent a, w.Manned i agent a ∧ w.Handles k agent a m (toldIn ps k)

theorem minutes_start (hlive : w.Live) (hhandlings : w.handlings = []) (hnext : w.nextHandling = 0) :
    w.Minutes [] where
  live := hlive
  nextHandling := hnext
  numbers := by simp [hhandlings]
  later := fun _ _ => rfl
  handled := by simp [openedIn]

theorem Minutes.elsewhere (h : w.Minutes ps) (helse : Elsewhere w w') : w'.Minutes ps where
  live := helse.live h.live
  nextHandling := helse.nextHandling.trans h.nextHandling
  numbers := helse.handlings ▸ h.numbers
  later := h.later
  handled := fun k i m hk => by
    obtain ⟨agent, a, hmanned, hhandles⟩ := h.handled k i m hk
    refine ⟨agent, a, helse.manned _ _ _ hmanned, hhandles.live, ?_, ?_⟩
    · rw [helse.handlings]
      exact hhandles.underway
    · rw [helse.handlings]
      exact hhandles.ended

/-! ## Messages begin to be handled -/

theorem mem_mailHandlings_iff {lane : Lane} {actor : Actor} {h : Handling} :
    h ∈ Roster.mailHandlings w i lane actor ↔ ∃ j m, lane.inbox[j]? = some m ∧
      h = ⟨w.nextHandling + j, i, { code := actor.agent.serve lane.agent m }⟩ := by
  unfold Roster.mailHandlings
  rw [List.mem_map]
  constructor
  · rintro ⟨⟨number, m⟩, hmem, rfl⟩
    obtain ⟨j, hj⟩ := List.mem_iff_getElem?.mp hmem
    obtain ⟨hnumber, hm⟩ := List.getElem?_zip_eq_some.mp hj
    obtain rfl : number = w.nextHandling + j := by
      simpa using (List.getElem?_eq_some_iff.mp hnumber).2.symm
    exact ⟨j, m, hm, rfl⟩
  · rintro ⟨j, m, hm, rfl⟩
    refine ⟨(w.nextHandling + j, m), List.mem_iff_getElem?.mpr ⟨j, ?_⟩, rfl⟩
    refine List.getElem?_zip_eq_some.mpr ⟨?_, hm⟩
    have hlt := (List.getElem?_eq_some_iff.mp hm).1
    simp [hlt]

section Opened

variable {lane : Lane} {actor : Actor} (hlane : w.bus.lanes[i]? = some lane)
  (hactor : w.actors[lane.agent]? = some actor)

include hlane hactor

theorem mem_handlings_openInbox {h : Handling} : h ∈ (w.openInbox i).handlings ↔
    h ∈ w.handlings ∨ ∃ j m, lane.inbox[j]? = some m ∧
      h = ⟨w.nextHandling + j, i, { code := actor.agent.serve lane.agent m }⟩ := by
  rw [Roster.openInbox_eq hlane hactor]
  exact List.mem_append.trans (or_congr_right mem_mailHandlings_iff)

/-- What was being handled is so when a lane is opened. -/
theorem Handles.openInbox {told : List Answered} (h : w.Handles k agent a m told)
    (hk : k < w.nextHandling) : (w.openInbox i).Handles k agent a m told where
  live := h.live
  underway := fun h' hh hnumber => by
    rcases (mem_handlings_openInbox hlane hactor).mp hh with hh | ⟨j, m', -, rfl⟩
    · exact h.underway h' hh hnumber
    · dsimp only at hnumber
      omega
  ended := fun hnone => h.ended fun h' hh =>
    hnone h' ((mem_handlings_openInbox hlane hactor).mpr (.inl hh))

/-- A message of the lane is being handled, from the beginning. -/
theorem handles_openInbox (hlt : ∀ h ∈ w.handlings, h.number < w.nextHandling) {j : Nat}
    (hm : lane.inbox[j]? = some m) :
    (w.openInbox i).Handles (w.nextHandling + j) lane.agent actor.agent m [] where
  live := by simp
  underway := fun h' hh hnumber => by
    rcases (mem_handlings_openInbox hlane hactor).mp hh with hh | ⟨j', m', hm', rfl⟩
    · have hold := hlt h' hh
      omega
    · obtain rfl := Nat.add_left_cancel hnumber
      obtain rfl := Option.some.inj (hm.symm.trans hm')
      exact ⟨.stop _, Program.steady_start _⟩
  ended := fun hnone =>
    absurd rfl (hnone _ ((mem_handlings_openInbox hlane hactor).mpr (.inr ⟨j, m, hm, rfl⟩)))

theorem Minutes.opens (h : w.Minutes ps) :
    (w.openInbox i).Minutes (ps ++ lane.inbox.map (.begins i)) := by
  have hopened : openedIn (ps ++ lane.inbox.map (.begins i)) =
      openedIn ps ++ lane.inbox.map fun m => (i, m) := by
    rw [openedIn_append, openedIn_map_begins]
  have htold : ∀ k, toldIn (ps ++ lane.inbox.map (.begins i)) k = toldIn ps k := by simp
  have hgrounds := w.grounds_openInbox i
  have hnext : (w.openInbox i).nextHandling = w.nextHandling + lane.inbox.length := by
    rw [Roster.openInbox_eq hlane hactor]
  have hnumbers : ∀ h' ∈ w.handlings, h'.number < w.nextHandling := fun h' hh =>
    h.nextHandling ▸ h.numbers h' hh
  refine
    { live := h.live.of_grounds hgrounds
      nextHandling := ?_
      numbers := fun h' hh => ?_
      later := fun k hk => ?_
      handled := fun k j m hk => ?_ }
  · rw [hnext, hopened, List.length_append, List.length_map, h.nextHandling]
  · rw [hopened, List.length_append, List.length_map, ← h.nextHandling]
    rcases (mem_handlings_openInbox hlane hactor).mp hh with hh | ⟨j, m, hm, rfl⟩
    · exact Nat.lt_add_right _ (hnumbers h' hh)
    · exact Nat.add_lt_add_left (List.getElem?_eq_some_iff.mp hm).1 _
  · rw [htold]
    refine h.later k (Nat.le_trans ?_ hk)
    rw [hopened, List.length_append]
    exact Nat.le_add_right _ _
  · unfold Manned
    rw [hopened] at hk
    rw [htold, hgrounds]
    rcases Nat.lt_or_ge k (openedIn ps).length with hlt | hge
    · rw [List.getElem?_append_left hlt] at hk
      obtain ⟨agent, a, hmanned, hhandles⟩ := h.handled k j m hk
      exact ⟨agent, a, hmanned, hhandles.openInbox hlane hactor (h.nextHandling ▸ hlt)⟩
    · rw [List.getElem?_append_right hge, List.getElem?_map] at hk
      obtain ⟨m', hm, heq⟩ := Option.map_eq_some_iff.mp hk
      obtain ⟨rfl, rfl⟩ := Prod.mk.inj heq
      have hfresh := handles_openInbox hlane hactor hnumbers hm
      rw [h.nextHandling, Nat.add_sub_cancel' hge] at hfresh
      rw [h.later k hge]
      exact ⟨lane.agent, actor.agent, manned_of_lane h.live hlane hactor, hfresh⟩

end Opened

/-! ## Handlings go on -/

section Turn

variable {handling : Handling} (hfind : w.handlings.find? (·.number == number) = some handling)

include hfind

theorem mem_of_find : handling ∈ w.handlings ∧ handling.number = number :=
  ⟨List.mem_of_find?_eq_some hfind, by simpa using List.find?_some hfind⟩

theorem handlingTurn_of_ended {w₁ : World} {u : Unit}
    (h : handling.thread.advance w = (w₁, .ended u)) :
    w.handlingTurn number =
      { w₁ with handlings := w₁.handlings.filter (·.number != number) } := by
  unfold handlingTurn
  rw [hfind]
  dsimp only
  rw [h]

theorem handlingTurn_of_waits {w₁ : World} {t : Thread Unit}
    (h : handling.thread.advance w = (w₁, .waits t)) :
    w.handlingTurn number =
      { w₁ with handlings := w₁.handlings.map fun other =>
          if other.number == number then { other with thread := t } else other } := by
  unfold handlingTurn
  rw [hfind]
  dsimp only
  rw [h]

/-- A handling that is under way has come as far as was noted. -/
theorem Minutes.exists_of_find (h : w.Minutes ps) : ∃ i m agent a,
    (openedIn ps)[number]? = some (i, m) ∧ w.Manned i agent a ∧
      w.Handles number agent a m (toldIn ps number) := by
  obtain ⟨hmem, rfl⟩ := mem_of_find hfind
  have hm := List.getElem?_eq_getElem (h.numbers _ hmem)
  obtain ⟨agent, a, hmanned, hhandles⟩ := h.handled handling.number _ _ hm
  exact ⟨_, _, agent, a, hm, hmanned, hhandles⟩

end Turn

/-- A handling has had a turn, and all others are as they were. -/
theorem Minutes.turned (h : w.Minutes ps) {told : List Answered}
    (hm : (openedIn ps)[number]? = some (i, m)) (hmanned : w.Manned i agent a)
    (hgrounds : w'.grounds = w.grounds) (hnext : w'.nextHandling = w.nextHandling)
    (hold : ∀ h' ∈ w'.handlings, h'.number ≠ number → h' ∈ w.handlings)
    (hnew : ∀ h' ∈ w.handlings, h'.number ≠ number → h' ∈ w'.handlings)
    (hown : w'.Handles number agent a m (toldIn ps number ++ told)) :
    w'.Minutes (ps ++ [.goesOn number told]) := by
  have hopened : openedIn (ps ++ [.goesOn number told]) = openedIn ps := by
    simp [openedIn, Proceeding.begun?]
  have hlt : number < (openedIn ps).length := (List.getElem?_eq_some_iff.mp hm).1
  refine
    { live := h.live.of_grounds hgrounds
      nextHandling := by rw [hopened, hnext, h.nextHandling]
      numbers := fun h' hh => ?_
      later := fun k hk => ?_
      handled := fun k j m' hk => ?_ }
  · rw [hopened]
    by_cases hsame : h'.number = number
    · rwa [hsame]
    · exact h.numbers h' (hold h' hh hsame)
  · rw [hopened] at hk
    rw [toldIn_append, toldIn_goesOn, if_neg (by omega), h.later k hk]
    rfl
  · rw [hopened] at hk
    unfold Manned
    rw [hgrounds, toldIn_append, toldIn_goesOn]
    by_cases hsame : number = k
    · subst hsame
      obtain ⟨rfl, rfl⟩ := Prod.mk.inj (Option.some.inj (hm.symm.trans hk))
      rw [if_pos rfl]
      exact ⟨agent, a, hmanned, hown⟩
    · rw [if_neg hsame, List.append_nil]
      obtain ⟨agent', a', hmanned', hhandles'⟩ := h.handled k j m' hk
      refine ⟨agent', a', hmanned', hhandles'.live, fun h' hh hk' => ?_, fun hnone => ?_⟩
      · exact hhandles'.underway h' (hold h' hh (hk' ▸ Ne.symm hsame)) hk'
      · exact hhandles'.ended fun h' hh hk' => hnone h' (hnew h' hh (hk' ▸ Ne.symm hsame)) hk'

theorem Minutes.goesOn (h : w.Minutes ps) {handling : Handling}
    (hfind : w.handlings.find? (·.number == number) = some handling) :
    (w.handlingTurn number).Minutes (ps ++ [.goesOn number (handling.thread.told w)]) := by
  obtain ⟨hmem, hnumber⟩ := mem_of_find hfind
  obtain ⟨i, m, agent, a, hm, hmanned, hhandles⟩ := h.exists_of_find hfind
  obtain ⟨hcourse, hsteady⟩ := hhandles.underway _ hmem hnumber
  obtain ⟨htold, hturn⟩ := Thread.live_advance (hmanned.hosts h.live)
    (p := a.serve agent m) (a.unbroken_serve agent m) hcourse hsteady
  have hgrounds := grounds_handlingTurn h.live.owned number
  obtain ⟨hnext, hhandlings⟩ := nextHandling_of_stage (handling.thread.stage_advance w)
  have hlive : ∀ x ∈ toldIn ps number ++ handling.thread.told w, x.Live agent :=
    List.forall_mem_append.mpr ⟨hhandles.live, htold⟩
  rcases hadvance : handling.thread.advance w with ⟨w₁, turn⟩
  rw [hadvance] at hnext hhandlings hturn
  rcases hturn with ⟨u, hended, hdone⟩ | ⟨t', hwaits, hgoes, hsteady'⟩
  · obtain rfl : turn = .ended u := hended
    rw [handlingTurn_of_ended hfind hadvance] at hgrounds ⊢
    refine h.turned hm hmanned hgrounds hnext (fun h' hh hother => ?_) (fun h' hh hother => ?_)
      ⟨hlive, fun h' hh hsame => ?_, fun _ => hdone⟩
    · exact hhandlings ▸ (List.mem_filter.mp hh).1
    · exact List.mem_filter.mpr ⟨hhandlings ▸ hh, by simpa using hother⟩
    · have hother := (List.mem_filter.mp hh).2
      simp [hsame] at hother
  · obtain rfl : turn = .waits t' := hwaits
    rw [handlingTurn_of_waits hfind hadvance] at hgrounds ⊢
    refine h.turned hm hmanned hgrounds hnext (fun h' hh hother => ?_) (fun h' hh hother => ?_)
      ⟨hlive, fun h' hh hsame => ?_, fun hnone => ?_⟩
    · obtain ⟨h₀, hh₀, rfl⟩ := List.mem_map.mp hh
      split at hother
      · rename_i hsame
        exact absurd (eq_of_beq hsame) hother
      · rename_i hsame
        rw [if_neg hsame]
        exact hhandlings ▸ hh₀
    · refine List.mem_map.mpr ⟨h', hhandlings ▸ hh, ?_⟩
      simp [hother]
    · obtain ⟨h₀, hh₀, rfl⟩ := List.mem_map.mp hh
      split at hsame
      · rename_i heq'
        rw [if_pos heq']
        exact ⟨hgoes, hsteady'⟩
      · rename_i heq'
        exact absurd (beq_iff_eq.mpr hsame) heq'
    · refine absurd hnumber (hnone { handling with thread := t' } ?_)
      refine List.mem_map.mpr ⟨handling, hhandlings ▸ hmem, ?_⟩
      simp [hnumber]

/-- However the turns of a network follow each other, its handlings have come as far as was noted. -/
theorem Proceeds.minutes (h : w.Proceeds ps w') (hstart : w.Minutes []) : w'.Minutes ps := by
  induction h with
  | stay => exact hstart
  | opens _ hlane hactor ih => exact ih.opens hlane hactor
  | goesOn _ hfind ih => exact ih.goesOn hfind
  | elsewhere _ helse ih => exact ih.elsewhere helse

/-! ## What a handling puts into the queue -/

/-- A step puts what was accepted at the end of the queue, and takes what was taken off its front. -/
theorem Step.queue {xs : List Happening} (h : Step w xs w') (howned : w.owned = true) :
    w'.owned = true ∧ w.bus.queue ++ acceptedIn xs = takenIn xs ++ w'.bus.queue := by
  have hnone : ∀ {v : World} {xs : List Happening}, v.owned = w.owned →
      v.bus.mail.queue = w.bus.mail.queue →
      (∀ x ∈ xs, x.accepted? = none ∧ x.taken? = none) →
      v.owned = true ∧ w.bus.queue ++ acceptedIn xs = takenIn xs ++ v.bus.queue := by
    intro v xs hkept hqueue hxs
    have haccepted : acceptedIn xs = [] := List.filterMap_eq_nil_iff.mpr fun x hx => (hxs x hx).1
    have htaken : takenIn xs = [] := List.filterMap_eq_nil_iff.mpr fun x hx => (hxs x hx).2
    rw [haccepted, htaken, List.append_nil]
    exact ⟨hkept.trans howned, hqueue.symm⟩
  cases h with
  | asks s o =>
    refine ⟨(congrArg Grounds.owned (s.grounds_attempt howned o)).trans howned, ?_⟩
    rw [Scene.takenIn_answered]
    exact (congrArg Bus.Mail.queue (Scene.mail_attempt howned o)).symm
  | @delivers _ m rest hrunning hqueue =>
    refine ⟨(congrArg Grounds.owned w.grounds_deliverOne).trans howned, ?_⟩
    rw [queue_deliverOne, hqueue]
    exact List.append_nil _
  | @opens _ i lane actor hlane hactor =>
    refine hnone (congrArg Grounds.owned (w.grounds_openInbox i)) ?_ fun x hx => ?_
    · rw [Roster.openInbox_eq hlane hactor]
      rfl
    · obtain ⟨m, -, rfl⟩ := List.mem_map.mp hx
      exact ⟨rfl, rfl⟩
  | registers hactor =>
    unfold World.register
    rw [hactor]
    exact hnone rfl rfl (by simp [Happening.accepted?, Happening.taken?])
  | unregisters w name =>
    exact hnone rfl (by rw [w.mail_unregister name])
      (by simp [Happening.accepted?, Happening.taken?])
  | starts w =>
    unfold start
    split <;> exact hnone rfl rfl (by simp [Happening.accepted?, Happening.taken?])
  | stops w => exact hnone rfl rfl (by simp [Happening.accepted?, Happening.taken?])
  | sweeps w =>
    unfold sweepNow
    split <;> exact hnone rfl rfl (by simp)
  | leaves w ticket => exact hnone rfl rfl (by simp)
  | ends w b =>
    exact hnone (congrArg Grounds.owned (grounds_takeBack howned b))
      (congrArg Bus.Mail.queue (mail_takeBack howned b)) (by simp)
  | aside h => exact hnone h.owned (congrArg (fun b : Bus => b.mail.queue) h.bus) (by simp)

theorem Passage.queue {xs : List Happening} (h : w.Passage xs w') (howned : w.owned = true) :
    w'.owned = true ∧ w.bus.queue ++ acceptedIn xs = takenIn xs ++ w'.bus.queue := by
  induction h with
  | stay => exact ⟨howned, List.append_nil _⟩
  | step _ hstep ih =>
    obtain ⟨hkept, hqueue⟩ := ih
    obtain ⟨hkept', hqueue'⟩ := hstep.queue hkept
    refine ⟨hkept', ?_⟩
    rw [acceptedIn_append, takenIn_append, ← List.append_assoc, hqueue, List.append_assoc, hqueue',
      List.append_assoc]

/-- In a turn a handling puts the messages into the queue that it is told it has sent. -/
theorem queue_handlingTurn (h : w.Minutes ps) {handling : Handling}
    (hfind : w.handlings.find? (·.number == number) = some handling) :
    (w.handlingTurn number).bus.queue =
      w.bus.queue ++ (handling.thread.told w).filterMap Answered.accepted? := by
  obtain ⟨hmem, hnumber⟩ := mem_of_find hfind
  obtain ⟨i, m, agent, a, -, hmanned, hhandles⟩ := h.exists_of_find hfind
  obtain ⟨hcourse, hsteady⟩ := hhandles.underway _ hmem hnumber
  have hbus : (w.handlingTurn number).bus = (handling.thread.advance w).1.bus := by
    unfold handlingTurn
    rw [hfind]
    dsimp only
    split <;> rename_i heq <;> rw [heq]
  obtain ⟨rest, hrest⟩ : ∃ rest, (handling.thread.advance w).2.left? = some rest := by
    obtain ⟨-, ⟨u, hended, -⟩ | ⟨t', hwaits, -⟩⟩ := Thread.live_advance (hmanned.hosts h.live)
      (a.unbroken_serve agent _) hcourse hsteady
    · exact ⟨_, by rw [hended]; rfl⟩
    · exact ⟨_, by rw [hwaits]; rfl⟩
  obtain ⟨-, hpassage⟩ := Thread.passage_advance hcourse w hrest
  have haccepted : acceptedIn ((handling.thread.told w).map .answered) =
      (handling.thread.told w).filterMap Answered.accepted? := List.filterMap_map
  have htaken : takenIn ((handling.thread.told w).map .answered) = [] :=
    List.filterMap_eq_nil_iff.mpr fun x hx => by
      obtain ⟨y, -, rfl⟩ := List.mem_map.mp hx
      rfl
  have hqueue := (hpassage.queue h.live.owned).2
  rw [haccepted, htaken, List.nil_append] at hqueue
  rw [hbus, hqueue]

/-! ## The user -/

/-- Agents are added, lanes are given to agents that belong to the network, or nothing of this. -/
theorem Elsewhere.of_more (hhandlings : w'.handlings = w.handlings)
    (hnext : w'.nextHandling = w.nextHandling) (howned : w'.owned = w.owned)
    (hgone : w'.gone = w.gone) {more : List Nat}
    (hlanes : w'.grounds.layout.lanes = w.grounds.layout.lanes ++ more)
    (hmore : ∀ agent ∈ more, ∃ a : Agent, w'.grounds.agents[agent]? = some (a, true))
    (hagents : ∀ (agent : Nat) (a : Agent), w.grounds.agents[agent]? = some (a, true) →
      w'.grounds.agents[agent]? = some (a, true)) : Elsewhere w w' := by
  have hmanned : ∀ i agent a, w.Manned i agent a → w'.Manned i agent a := by
    rintro i agent a ⟨hlane, hagent⟩
    refine ⟨?_, hagents agent a hagent⟩
    rw [hlanes, List.getElem?_append_left (List.getElem?_eq_some_iff.mp hlane).1]
    exact hlane
  refine ⟨hhandlings, hnext, fun h => ⟨howned.trans h.owned, hgone.trans h.present, fun i hi => ?_⟩,
    hmanned⟩
  rcases Nat.lt_or_ge i w.bus.lanes.length with hlt | hge
  · obtain ⟨agent, a, hold⟩ := h.manned i hlt
    exact ⟨agent, a, hmanned i agent a hold⟩
  · have hlength : w.grounds.layout.lanes.length = w.bus.lanes.length := List.length_map _
    have hlt : i - w.bus.lanes.length < more.length := by
      have htotal := congrArg List.length hlanes
      have hall : w'.grounds.layout.lanes.length = w'.bus.lanes.length := List.length_map _
      rw [List.length_append, hlength, hall] at htotal
      omega
    obtain ⟨a, ha⟩ := hmore _ (List.getElem_mem hlt)
    refine ⟨_, a, ?_, ha⟩
    rw [hlanes, List.getElem?_append_right (hlength ▸ hge), hlength]
    exact List.getElem?_eq_getElem hlt

theorem Elsewhere.of_agents (hhandlings : w'.handlings = w.handlings)
    (hnext : w'.nextHandling = w.nextHandling) (howned : w'.owned = w.owned)
    (hgone : w'.gone = w.gone) (hlanes : w'.grounds.layout.lanes = w.grounds.layout.lanes)
    (hagents : w.grounds.agents <+: w'.grounds.agents) : Elsewhere w w' :=
  .of_more hhandlings hnext howned hgone (hlanes.trans (List.append_nil _).symm) (by simp)
    fun agent a h => by
      obtain ⟨more, hmore⟩ := hagents
      rw [← hmore, List.getElem?_append_left (List.getElem?_eq_some_iff.mp h).1]
      exact h

theorem Elsewhere.refl (w : World) : Elsewhere w w := .of_grounds rfl rfl rfl

variable (w)

theorem elsewhere_create (a : Agent) : Elsewhere w (w.create a).1 :=
  .of_agents rfl rfl rfl rfl rfl ⟨[(a, false)], by simp [grounds, create]⟩

theorem elsewhere_register (agent : Nat) : Elsewhere w (w.register agent) := by
  unfold register
  cases hactor : w.actors[agent]? with
  | none => exact .refl w
  | some actor =>
    have hagents : ∀ j, ((w.actors.modify agent fun a => { a with attached := true }).map
        fun a => (a.agent, a.attached))[j]? =
        if agent = j then some (actor.agent, true)
        else (w.actors.map fun a => (a.agent, a.attached))[j]? := by
      intro j
      rw [List.getElem?_map, List.getElem?_map, List.getElem?_modify]
      split
      · rename_i hj
        rw [← hj, hactor]
        rfl
      · simp
    have hlanes : (w.bus.lanes ++ [Lane.mk agent []]).map Lane.agent =
        w.bus.lanes.map Lane.agent ++ [agent] := List.map_append
    refine .of_more rfl rfl rfl rfl hlanes (fun j hj => ?_) fun j a hj => ?_
    · obtain rfl := List.mem_singleton.mp hj
      exact ⟨_, (hagents _).trans (if_pos rfl)⟩
    · refine (hagents j).trans ?_
      split
      · rename_i heq
        have hold : (w.actors.map fun a => (a.agent, a.attached))[j]? = some (a, true) := hj
        rw [List.getElem?_map, ← heq, hactor] at hold
        obtain rfl : actor.agent = a := (Prod.mk.inj (Option.some.inj hold)).1
        rfl
      · exact hj

theorem elsewhere_unregister (name : String) : Elsewhere w (w.unregister name).1 := by
  have hlanes : (w.unregister name).1.bus.lanes = w.bus.lanes :=
    congrArg Bus.Mail.lanes (w.mail_unregister name)
  exact .of_agents rfl rfl rfl rfl (congrArg (List.map Lane.agent) hlanes) (List.prefix_refl _)

theorem elsewhere_start : Elsewhere w w.start := by
  unfold start
  split
  · exact .refl w
  · exact .of_agents rfl rfl rfl rfl rfl (List.prefix_refl _)

theorem elsewhere_stop : Elsewhere w w.stop :=
  .of_agents rfl rfl rfl rfl rfl (List.prefix_refl _)

variable {w}

theorem elsewhere_advance {α : Type} (h : w.owned = true) (t : Thread α) :
    Elsewhere w (t.advance w).1 := .of_stage (t.stage_advance w) (t.grounds_advance h)

theorem elsewhere_deliverAll (w : World) : Elsewhere w w.deliverAll :=
  .of_stage w.stage_deliverAll w.grounds_deliverAll

/-! ## Turns and runs -/

/-- A turn of a lane: its messages begin to be handled, and its handlings go on. -/
theorem proceeds_laneTurn (w : World) (i : Nat) : ∃ ps, w.Proceeds ps (w.laneTurn i) := by
  have hturns : ∀ (numbers : List Nat) (w : World),
      ∃ ps, w.Proceeds ps (numbers.foldl handlingTurn w) := by
    intro numbers
    induction numbers with
    | nil => exact fun w => ⟨[], .stay⟩
    | cons number numbers ih =>
      intro w
      obtain ⟨qs, hqs⟩ := ih (w.handlingTurn number)
      cases hfind : w.handlings.find? (·.number == number) with
      | some handling => exact ⟨_, (Proceeds.goesOn .stay hfind).trans hqs⟩
      | none =>
        have hsame : w.handlingTurn number = w := by
          unfold handlingTurn
          rw [hfind]
        rw [List.foldl_cons]
        rw [hsame] at hqs ⊢
        exact ⟨qs, hqs⟩
  have hopens : ∃ ps, w.Proceeds ps (w.openInbox i) := by
    cases hlane : w.bus.lanes[i]? with
    | none =>
      rw [Roster.openInbox_of_none hlane]
      exact ⟨[], .stay⟩
    | some lane =>
      cases hactor : w.actors[lane.agent]? with
      | some actor => exact ⟨_, .opens .stay hlane hactor⟩
      | none =>
        have hsame : w.openInbox i = w := by
          unfold openInbox
          rw [hlane]
          dsimp only
          rw [hactor]
        rw [hsame]
        exact ⟨[], .stay⟩
  rw [laneTurn_eq]
  obtain ⟨ps, hps⟩ := hopens
  obtain ⟨qs, hqs⟩ := hturns (((w.openInbox i).runnable.filter (·.1 == i)).map (·.2))
    { w.openInbox i with runnable := (w.openInbox i).runnable.filter (!·.1 == i) }
  have hlined : w.Proceeds ps { w.openInbox i with
      runnable := (w.openInbox i).runnable.filter (!·.1 == i) } :=
    hps.elsewhere (.of_grounds rfl rfl rfl)
  exact ⟨ps ++ qs, hlined.trans hqs⟩

end World

namespace Run

variable {α : Type} {r : Run α}

theorem proceeds_turn (h : r.world.Live) (host : Host) :
    ∃ ps, r.world.Proceeds ps (r.turn host).world := by
  have helse : World.Elsewhere r.world (r.turn host).world →
      ∃ ps, r.world.Proceeds ps (r.turn host).world := fun helse => ⟨[], .elsewhere .stay helse⟩
  cases host with
  | user => exact helse (.of_stage r.stage_userTurn (grounds_userTurn h.owned))
  | delivery => exact helse (World.elsewhere_deliverAll _)
  | sweep => exact helse (.of_stage r.world.stage_sweepNow r.world.grounds_sweepNow)
  | lane i => exact World.proceeds_laneTurn r.world i

/-- The turns of a run are such that its handlings go on, and all else is elsewhere. -/
theorem proceeds_go (h : r.world.Live) (n : Nat) : ∃ ps, r.world.Proceeds ps (r.go n).world := by
  refine go_induction (P := fun r' => ∃ ps, r.world.Proceeds ps r'.world) (fun r' hr => ?_)
    (fun r' host rest hr _ => ?_) (fun r' t hr _ _ => ?_) ⟨[], .stay⟩ n
  · obtain ⟨ps, hps⟩ := hr
    refine ⟨ps, hps.elsewhere ?_⟩
    rw [(lined_dispatch r').frame]
    exact .of_grounds rfl rfl rfl
  · obtain ⟨ps, hps⟩ := hr
    have hready : World.Elsewhere r'.world { r'.world with ready := rest } :=
      .of_grounds rfl rfl rfl
    obtain ⟨qs, hqs⟩ := proceeds_turn (r := { r' with world := { r'.world with ready := rest } })
      (hready.live (hps.live h)) host
    exact ⟨ps ++ qs, (hps.elsewhere hready).trans hqs⟩
  · obtain ⟨ps, hps⟩ := hr
    refine ⟨ps, hps.elsewhere ?_⟩
    rw [(lined_tick r' r'.nextTime).frame]
    exact .of_grounds rfl rfl rfl

end Run

namespace World

variable {w : World}

theorem proceeds_run {α : Type} (h : w.Live) (p : Program α) :
    ∃ ps, w.Proceeds ps (w.run p).1 := by
  let r : Run α := ⟨w, .going { code := p }, w.now + userPatience⟩
  have hwoken : Elsewhere w (r.wakeHost .user).world := by
    rw [(Run.lined_wakeHost r .user).frame]
    exact .of_grounds rfl rfl rfl
  obtain ⟨ps, hps⟩ := Run.proceeds_go (hwoken.live h) turnLimit
  exact ⟨[] ++ ps, (Proceeds.elsewhere .stay hwoken).trans hps⟩

theorem proceeds_deed (h : w.Live) (d : Deed) : ∃ ps, w.Proceeds ps (w.deed d) := by
  have helse : ∀ {w'}, Elsewhere w w' → ∃ ps, w.Proceeds ps w' :=
    fun helse => ⟨[], .elsewhere .stay helse⟩
  cases d with
  | create a => exact helse (w.elsewhere_create a)
  | register agent => exact helse (w.elsewhere_register agent)
  | unregister name => exact helse (w.elsewhere_unregister name)
  | start => exact helse w.elsewhere_start
  | stop => exact helse w.elsewhere_stop
  | run p => exact proceeds_run h p

/-- Whatever the user does, the handlings go on, and all else is elsewhere. -/
theorem proceeds_deeds (h : w.Live) (deeds : List Deed) :
    ∃ ps, w.Proceeds ps (deeds.foldl deed w) := by
  induction deeds generalizing w with
  | nil => exact ⟨[], .stay⟩
  | cons d deeds ih =>
    obtain ⟨ps, hps⟩ := proceeds_deed h d
    obtain ⟨qs, hqs⟩ := ih (hps.live h)
    exact ⟨ps ++ qs, hps.trans hqs⟩

theorem live_opened (settings : Settings) : (opened settings).Live :=
  ⟨rfl, rfl, fun i hi => absurd hi (Nat.not_lt_zero i)⟩

/-- **Every request is answered once.** However the turns of a network follow each other and whatever
happens elsewhere, as long as the user keeps the network: when the handling of a request has ended, its
agent has done its work and has put one message into the queue afterwards, which answers the request as
the work ended. A capability that its breaker refuses is not run. All that the user does is such, and
so are the turns of a run. -/
theorem answers_requests (settings : Settings) :
    (∀ ps w, (opened settings).Proceeds ps w →
      (∀ number h, w.handlings.find? (·.number == number) = some h →
        (w.handlingTurn number).bus.queue =
          w.bus.queue ++ (h.thread.told w).filterMap Answered.accepted?) ∧
      ∀ k i m, (openedIn ps)[k]? = some (i, m) → m.kind = .capabilityRequest →
        (∀ h ∈ w.handlings, h.number ≠ k) →
        (∃ agent a, w.Manned i agent a) ∧
        (∀ agent name capabilities description breakers,
          w.Manned i agent (.offering name capabilities description breakers) →
          m.AnsweredAfter name (Agent.Invokes name capabilities breakers.isSome agent
            (m.capability?.getD "") m.data) (toldIn ps k) ∧
          ((∀ c ∈ capabilities, (c.run agent m.data).Only (Operation.LeavesUnanswered m.id)) →
            m.answersIn (toldIn ps k) = 1)) ∧
        ∀ agent name s wording, w.Manned i agent (.orchestrating name s wording) →
          m.AnsweredAfter name (Agent.Orchestrates (.ofSettings name s) wording m) (toldIn ps k) ∧
          m.answersIn (toldIn ps k) = 1) ∧
    ∀ (deeds : List Deed) {α : Type} (r : Run α), r.world = deeds.foldl deed (opened settings) →
      ∀ n, ∃ ps, (opened settings).Proceeds ps (r.go n).world := by
  have hopened := live_opened settings
  refine ⟨fun ps w h => ?_, fun deeds α r hr n => ?_⟩
  · have hminutes := h.minutes (minutes_start hopened rfl rfl)
    refine ⟨fun number handling hfind => queue_handlingTurn hminutes hfind,
      fun k i m hk hm hended => ?_⟩
    obtain ⟨agent, a, hmanned, hhandles⟩ := hminutes.handled k i m hk
    have hcourse := hhandles.ended hended
    refine ⟨⟨agent, a, hmanned⟩, fun agent' name capabilities description breakers hother => ?_,
      fun agent' name s wording hother => ?_⟩
    · obtain ⟨rfl, rfl⟩ := hmanned.unique hother
      have hanswered := Agent.answered_offering hm hcourse hhandles.live
      exact ⟨hanswered, Agent.once_of_invokes hanswered⟩
    · obtain ⟨rfl, rfl⟩ := hmanned.unique hother
      have hanswered := Agent.answered_orchestrating hm hcourse hhandles.live
      exact ⟨hanswered, Agent.once_of_orchestrates hanswered⟩
  · obtain ⟨ps, hps⟩ := proceeds_deeds hopened deeds
    rw [← hr] at hps
    obtain ⟨qs, hqs⟩ := Run.proceeds_go (hps.live hopened) n
    exact ⟨ps ++ qs, hps.trans hqs⟩

/-- A capability that always fails. -/
def failing : Capability := ⟨{ name := "a" }, fun _ _ => .done (.error (.network "line down"))⟩

/-- An agent that offers it, with a breaker that opens at the first failure. -/
def fragile : Agent := .offering "p" [failing] "" (some ⟨1, 1000, 1⟩)

/-- The agent is asked for the capability twice, and both requests are in its lane. -/
def askedTwice : World :=
  let ask (requestId : String) : Thread (List String) :=
    { code := (Network.request "u" "a" .null requestId).program }
  let w := ((opened {}).create fragile).1.register 0
  ((ask "s").advance ((ask "r").advance w).1).1.start.deliverAll

/-- Both requests have been handled. -/
def answeredTwice : World := ((askedTwice.openInbox 0).handlingTurn 0).handlingTurn 1

/-- The second request is refused by the breaker, and is answered once. -/
theorem answers_requests_refused :
    let second : Message := .request ⟨"m1", .ofMillis 0⟩ "u" "p" "a" .null "s"
    ∃ ps, (opened {}).Proceeds ps answeredTwice ∧ answeredTwice.Manned 0 0 fragile ∧
      (openedIn ps)[1]? = some (0, second) ∧ answeredTwice.handlings.length = 0 ∧
      answeredTwice.bus.queue.map (fun q => (q.replyTo, q.faultReport?.map (·.message))) =
        [(some "m0", some "line down"), (some "m1", some "Circuit breaker 'a' is open")] ∧
      second.AnsweredAfter "p" (Agent.Invokes "p" [failing] true 0 "a" .null) (toldIn ps 1) ∧
      second.answersIn (toldIn ps 1) = 1 := by
  intro second
  let first : Message := .request ⟨"m0", .ofMillis 0⟩ "u" "p" "a" .null "r"
  let joined := ((opened {}).create fragile).1.register 0
  let ask (requestId : String) : Thread (List String) :=
    { code := (Network.request "u" "a" .null requestId).program }
  have hjoined : (opened {}).Proceeds [] joined :=
    (Proceeds.stay.elsewhere (elsewhere_create _ fragile)).elsewhere (elsewhere_register _ 0)
  have hasked : joined.Proceeds [] askedTwice :=
    (((Proceeds.stay.elsewhere (elsewhere_advance rfl (ask "r"))).elsewhere
      (elsewhere_advance (by decide +kernel) (ask "s"))).elsewhere
        (elsewhere_start _)).elsewhere (elsewhere_deliverAll _)
  obtain ⟨lane, hlane⟩ : ∃ lane, askedTwice.bus.lanes[0]? = some lane :=
    Option.isSome_iff_exists.mp (by decide +kernel)
  obtain ⟨hagent, hinbox⟩ : lane.agent = 0 ∧ lane.inbox = [first, second] := by
    have hmail : (askedTwice.bus.lanes[0]?).map (fun lane => (lane.agent, lane.inbox)) =
        some (0, [first, second]) := by decide +kernel
    rw [hlane] at hmail
    exact Prod.mk.inj (Option.some.inj hmail)
  obtain ⟨actor, hactor⟩ : ∃ actor, askedTwice.actors[lane.agent]? = some actor := by
    rw [hagent]
    exact Option.isSome_iff_exists.mp (by decide +kernel)
  obtain ⟨h₀, hfind₀⟩ : ∃ h,
      (askedTwice.openInbox 0).handlings.find? (·.number == 0) = some h :=
    Option.isSome_iff_exists.mp (by decide +kernel)
  obtain ⟨h₁, hfind₁⟩ : ∃ h,
      ((askedTwice.openInbox 0).handlingTurn 0).handlings.find? (·.number == 1) = some h :=
    Option.isSome_iff_exists.mp (by decide +kernel)
  have hhandled : joined.Proceeds _ answeredTwice :=
    ((hasked.opens hlane hactor).goesOn hfind₀).goesOn hfind₁
  have hall := hjoined.trans hhandled
  have hmanned : answeredTwice.Manned 0 0 fragile :=
    hhandled.manned (hjoined.live (live_opened {})) ⟨rfl, rfl⟩
  have hopened : ∀ told told', (openedIn ([] ++ ([] ++ lane.inbox.map (.begins 0) ++
      [.goesOn 0 told] ++ [.goesOn 1 told'])))[1]? = some (0, second) := by
    rw [hinbox]
    exact fun _ _ => rfl
  have hnone : answeredTwice.handlings.length = 0 := by decide +kernel
  obtain ⟨hrules, -⟩ := answers_requests {}
  obtain ⟨-, hends⟩ := hrules _ _ hall
  obtain ⟨-, hoffering, -⟩ := hends 1 0 second (hopened _ _) rfl fun h hh => by
    rw [List.length_eq_zero_iff.mp hnone] at hh
    cases hh
  obtain ⟨hanswered, honce⟩ := hoffering 0 "p" [failing] "" _ hmanned
  refine ⟨_, hall, hmanned, hopened _ _, hnone, by decide +kernel, hanswered, honce fun c hc => ?_⟩
  obtain rfl := List.mem_singleton.mp hc
  exact .done _

end World

end Switchboard
