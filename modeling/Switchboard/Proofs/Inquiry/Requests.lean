import Switchboard.Proofs.Bus.Requests
import Switchboard.Proofs.Flow.Endings
import Switchboard.Proofs.Inquiry.Replies
import Switchboard.Proofs.World.Grounds

/-!
# What a request leaves in the records

An agent that asks for a capability records the request before it sends the first message, and gives
the record up if nobody provides the capability. It is given up by its request id: when the id was in
use, the record that goes is the one of an earlier request.

* `World.inquiries`, `World.record?` : the records of all agents;
* `Scene.inquiries_attempt` : few operations touch them;
* `Routine.LeadsTo` : work that touches no records and can only end with one value;
* `Routine.Turns` : what a routine does from its first turn on, whatever happens in between;
* `Network.advance_requestFor_nobody`, `Network.advance_requestFor` : the first turn of a request;
* `World.Amid` : what happens to the records of an agent between turns; `World.Amid.inquiries` : and
  so in the end;
* `Network.KeepsRecords`, `Network.keepsRecords_iff` : a request leaves all other records alone if and
  only if it does not ask nobody under an id that is in use.
-/

namespace Switchboard

/-! ## The records of all agents -/

namespace World

/-- The records of the agents, by number. -/
def inquiries (w : World) : List Inquiries := w.actors.map (·.inquiries)

/-- The record of an agent of a request. -/
def record? (w : World) (agent : Nat) (id : String) : Option Inquiry :=
  (w.inquiries[agent]?).bind (·.get? id)

variable {w w' : World} {agent : Nat}

/-- A change of an agent that is one of its records changes these, and no others. -/
theorem inquiries_modifyActor {change : Actor → Actor} {f : Inquiries → Inquiries}
    (h : ∀ a, (change a).inquiries = f a.inquiries) :
    (w.modifyActor agent change).inquiries = w.inquiries.modify agent f := by
  refine List.ext_getElem? fun i => ?_
  simp only [inquiries, modifyActor, List.getElem?_map, List.getElem?_modify]
  by_cases hi : agent = i <;> simp [hi, Function.comp_def, h]

/-- A change of an agent that leaves its records alone. -/
theorem inquiries_modifyActor_of_eq {change : Actor → Actor}
    (h : ∀ a, (change a).inquiries = a.inquiries) :
    (w.modifyActor agent change).inquiries = w.inquiries :=
  map_modify_of_eq h w.actors agent

@[simp] theorem inquiries_closeIfAbandoned (w : World) :
    w.closeIfAbandoned.inquiries = w.inquiries := by
  unfold closeIfAbandoned
  split <;> rfl

theorem record?_congr (h : w'.inquiries = w.inquiries) (other : Nat) (id : String) :
    w'.record? other id = w.record? other id := by
  rw [record?, record?, h]

/-- The records after a request was recorded. -/
theorem record?_of_track {now : Nat} {requestId capability : String} {providers : List String}
    {data : Json} (hagent : agent < w.actors.length)
    (h : w'.inquiries =
      w.inquiries.modify agent (·.track now requestId capability providers data))
    (other : Nat) (id : String) :
    w'.record? other id =
      if other = agent ∧ id = requestId then
        some (.asked now requestId capability providers data)
      else w.record? other id := by
  rw [record?, h, List.getElem?_modify]
  by_cases hother : agent = other
  · subst hother
    have hsome : w.inquiries[agent]? = some w.actors[agent].inquiries := by
      simp [inquiries, hagent]
    rw [record?, hsome]
    simp [Inquiries.get?_track]
  · simp [record?, hother, Ne.symm hother]

/-- The records after one was given up. -/
theorem record?_of_remove {requestId : String}
    (h : w'.inquiries = w.inquiries.modify agent (·.remove requestId))
    (other : Nat) (id : String) :
    w'.record? other id =
      if other = agent ∧ id = requestId then none else w.record? other id := by
  rw [record?, h, List.getElem?_modify, record?]
  by_cases hother : agent = other
  · subst hother
    cases w.inquiries[agent]? with
    | none => simp
    | some is => simp [Inquiries.get?_remove]
  · simp [hother, Ne.symm hother]

end World

/-! ## Work that touches no records -/

/-- The operation is none on the records of an agent. -/
def Operation.SparesRecords : Operation → Prop
  | .track .. | .untrack .. | .noteReply .. => False
  | _ => True

namespace Scene

variable (s : Scene)

@[simp] theorem inquiries_wakeAt (time : Nat) :
    (s.wakeAt time).world.inquiries = s.world.inquiries := by
  unfold wakeAt
  split <;> rfl

theorem inquiries_send (m : Message) (patience : Option Nat) :
    (s.send m patience).1.world.inquiries = s.world.inquiries := by
  unfold send
  split
  · split
    · rfl
    · split
      · rfl
      · dsimp only
        split
        · rw [inquiries_wakeAt]
          rfl
        · rfl
  · split
    · rfl
    · split <;> rfl

/-- Only three operations touch the records. -/
theorem inquiries_attempt {o : Operation} (ho : o.SparesRecords) :
    (s.attempt o).1.world.inquiries = s.world.inquiries := by
  cases o with
  | track | untrack | noteReply => exact ho.elim
  | pause ms =>
    rw [attempt, pause]
    split
    · rfl
    · exact inquiries_wakeAt s _
  | hold =>
    rw [attempt, hold]
    split <;> rfl
  | release => exact World.inquiries_closeIfAbandoned _
  | send m patience => exact s.inquiries_send m patience
  | collected p =>
    rw [attempt, collected]
    split
    · rfl
    · exact inquiries_wakeAt s _
  | reply w timeout =>
    rw [attempt, reply]
    split
    · rfl
    · exact inquiries_wakeAt s _
  | enter agent capability =>
    rw [attempt, enter]
    split
    · rfl
    · dsimp only
      split <;> exact World.inquiries_modifyActor_of_eq fun _ => rfl
  | note | turn | settle => exact World.inquiries_modifyActor_of_eq fun _ => rfl
  | _ => rfl

end Scene

namespace Routine

variable {α : Type} {a : α} {r rest : Routine α} {s : Scene}

/-- The routine touches no records, and it can only end with this value. -/
inductive LeadsTo (a : α) : Routine α → Prop
  | done : LeadsTo a (.done a)
  | ask {o : Operation} {next : o.Answer → Routine α} (ho : o.SparesRecords)
      (hnext : ∀ answer, LeadsTo a (next answer)) : LeadsTo a (.ask o next)

/-- A turn of a routine, and each later one in whatever scene it goes on: the scenes before and
after, and how the last one ended. -/
inductive Turns : Routine α → List (Scene × Scene) → Turn (Routine α) α → Prop
  | last {r : Routine α} {s s' : Scene} {turn : Turn (Routine α) α}
      (h : advance r s = (s', turn)) : Turns r [(s, s')] turn
  | more {r rest : Routine α} {s s' : Scene} {later : List (Scene × Scene)}
      {turn : Turn (Routine α) α} (h : advance r s = (s', .waits rest))
      (hrest : Turns rest later turn) : Turns r ((s, s') :: later) turn

/-- How such work stands after a turn. -/
def StandsFor (a : α) : Turn (Routine α) α → Prop
  | .waits rest => rest.LeadsTo a
  | .ended b => b = a
  | .crashed _ => False

theorem LeadsTo.advance (h : r.LeadsTo a) (s : Scene) :
    (advance r s).1.world.inquiries = s.world.inquiries ∧ StandsFor a (advance r s).2 := by
  induction h generalizing s with
  | done => exact ⟨rfl, rfl⟩
  | @ask o next ho hnext ih =>
    have hsame := s.inquiries_attempt ho
    cases hattempt : s.attempt o with
    | mk s' answer =>
      rw [hattempt] at hsame
      cases answer with
      | none =>
        rw [advance_of_none hattempt]
        exact ⟨hsame, .ask ho hnext⟩
      | some answer =>
        rw [advance_of_some hattempt]
        obtain ⟨hrest, hleads⟩ := ih answer { s' with parking := {} }
        exact ⟨hrest.trans hsame, hleads⟩

/-- None of its turns touches the records, and the last one ends with the value if it ends. -/
theorem LeadsTo.turns {ts : List (Scene × Scene)} {turn : Turn (Routine α) α}
    (hr : r.LeadsTo a) (h : r.Turns ts turn) :
    (∀ t ∈ ts, t.2.world.inquiries = t.1.world.inquiries) ∧ StandsFor a turn := by
  induction h with
  | @last r s s' turn hturn =>
    obtain ⟨hsame, hleads⟩ := hr.advance s
    rw [hturn] at hsame hleads
    exact ⟨List.forall_mem_singleton.mpr hsame, hleads⟩
  | @more r rest s s' later turn hturn _ ih =>
    obtain ⟨hsame, hleads⟩ := hr.advance s
    rw [hturn] at hsame hleads
    obtain ⟨hlater, hend⟩ := ih hleads
    exact ⟨List.forall_mem_cons.mpr ⟨hsame, hlater⟩, hend⟩

/-- The first turn decides which work is done in the others. -/
theorem Turns.of_advance_eq {r' : Routine α} {s s' t : Scene} {later : List (Scene × Scene)}
    {turn : Turn (Routine α) α} (heq : advance r s = advance r' t)
    (h : r.Turns ((s, s') :: later) turn) : r'.Turns ((t, s') :: later) turn := by
  cases h with
  | last hturn => exact .last (heq ▸ hturn)
  | more hturn hrest => exact .more (heq ▸ hturn) hrest

end Routine

/-- Between the turns of a routine, and before the first of them, the records of an agent change by
some calls. The last world is the one after the last turn. -/
inductive World.Amid (agent : Nat) :
    World → List (Scene × Scene) → List Inquiries.Change → World → Prop
  | nil (w : World) : Amid agent w [] [] w
  | cons {w w' : World} {s s' : Scene} {later : List (Scene × Scene)} {cs cs' : List Inquiries.Change}
      (h : s.world.inquiries[agent]? = (w.inquiries[agent]?).map (·.changes cs))
      (hrest : Amid agent s'.world later cs' w') : Amid agent w ((s, s') :: later) (cs ++ cs') w'

/-- The records change by all these calls if no turn touches them. -/
theorem World.Amid.inquiries {agent : Nat} {w w' : World} {ts : List (Scene × Scene)}
    {cs : List Inquiries.Change} (h : Amid agent w ts cs w')
    (hsame : ∀ t ∈ ts, t.2.world.inquiries = t.1.world.inquiries) :
    w'.inquiries[agent]? = (w.inquiries[agent]?).map (·.changes cs) := by
  induction h with
  | nil w => exact Option.map_id'.symm
  | @cons w w' s s' later cs cs' h _ ih =>
    obtain ⟨hfirst, hlater⟩ := List.forall_mem_cons.mp hsame
    rw [ih hlater, hfirst, h, Option.map_map]
    refine congrArg (Option.map · _) (funext fun is => ?_)
    exact (List.foldl_append ..).symm

/-! ## A request -/

namespace Network

variable {s : Scene} {agent : Nat} {name capability requestId : String}
  {data : Json} {names : List String}

theorem leadsTo_sendRequests {β : Type} {b : β} {k : Unit → Routine β} (hk : (k ()).LeadsTo b)
    (names : List String) :
    Routine.LeadsTo b ((sendRequests name capability data requestId names).bind k) := by
  induction names with
  | nil => exact hk
  | cons provider rest ih => exact .ask trivial fun stamp => .ask trivial fun sent => ih

/-- What is left of a request once its record is there. -/
def sending (name capability : String) (data : Json) (requestId : String) (names : List String) :
    Routine (Except Fault (List String)) :=
  (sendRequests name capability data requestId names).bind fun _ =>
    .ask .release fun _ => .done (.ok names)

theorem leadsTo_sending : (sending name capability data requestId names).LeadsTo (.ok names) :=
  leadsTo_sendRequests (.ask (o := .release) trivial fun _ => .done) names

variable (name capability requestId data)

/-- With places for all messages they are sent in one turn. -/
theorem advance_sending (hplaces : names.length ≤ s.world.bus.gate.places) :
    ∃ s', Routine.advance (sending name capability data requestId names) s =
      (s', .ended (.ok names)) := by
  let letGo : Routine (Except Fault (List String)) := .ask .release fun _ => .done (.ok names)
  obtain ⟨s', -, hadvance, -⟩ := @advance_sendRequests name capability requestId data names _
    (fun _ => letGo) s hplaces
  have hrelease : s'.attempt .release = ((s'.attempt .release).1, some ()) := rfl
  exact ⟨_, hadvance.trans (Routine.advance_of_some hrelease)⟩

/-- What is left of a request once it was told who provides the capability. -/
def pursuing (agent : Nat) (name capability : String) (data : Json) (requestId : String)
    (expected : List String) : Routine (Except Fault (List String)) :=
  Flow.bind (do
    if !expected.isEmpty then perform (.track agent requestId capability expected data)
    let providers ← request name capability data requestId
    if providers.isEmpty then perform (.untrack agent requestId)
    return providers) fun providers => .ask .release fun _ => .done (.ok providers)

section Attached

variable (hnetwork : s.world.hasNetwork agent = true)

include hnetwork

/-- The network is held before anything else is done. -/
theorem advance_requestFor_held :
    ∃ s' : Scene, (s'.world.inquiries = s.world.inquiries ∧ s'.world.bus = s.world.bus ∧
        s'.world.recordClock = s.world.recordClock) ∧
      Routine.advance (requestFor agent name capability data requestId) s =
        Routine.advance
          (pursuing agent name capability data requestId
            (s.world.bus.directory.providers capability)) s' := by
  obtain ⟨hyes, hlive⟩ := Bool.and_eq_true_iff.mp hnetwork
  have hasked : s.attempt (.attached agent) = (s, some true) :=
    congrArg (fun yes : Bool => (s, some yes)) hyes
  have hhold : Scene.attempt { s with parking := {} } .hold =
      ({ world := { s.world with holds := s.world.holds + 1 }
         belongings := { s.belongings with holds := s.belongings.holds + 1 } }, some true) := by
    rw [Scene.attempt, Scene.hold, if_neg (by simpa using hlive)]
  have hproviders : ∀ t : Scene, t.attempt (.providers capability) =
      (t, some (t.world.bus.directory.providers capability)) := fun _ => rfl
  refine ⟨_, ?_, (Routine.advance_of_some hasked).trans
    ((Routine.advance_of_some hhold).trans (Routine.advance_of_some (hproviders _)))⟩
  exact ⟨rfl, rfl, rfl⟩

/-- A request that nobody is there for ends at once. The record of its id is gone. -/
theorem advance_requestFor_nobody
    (hnone : s.world.bus.directory.providers capability = []) :
    ∃ s', Routine.advance (requestFor agent name capability data requestId) s =
        (s', .ended (.ok [])) ∧
      s'.world.inquiries = s.world.inquiries.modify agent (·.remove requestId) := by
  obtain ⟨held, ⟨hinquiries, hbus, -⟩, hadvance⟩ :=
    advance_requestFor_held name capability requestId data hnetwork
  have hagain : held.attempt (.providers capability) = (held, some []) := by
    refine congrArg (fun names : List String => (held, some names)) ?_
    rw [hbus, hnone]
  rw [hadvance, hnone]
  have huntrack : ∀ t : Scene, t.attempt (.untrack agent requestId) =
      ((t.attempt (.untrack agent requestId)).1, some ()) := fun _ => rfl
  have hrelease : ∀ t : Scene, t.attempt .release = ((t.attempt .release).1, some ()) :=
    fun _ => rfl
  refine ⟨_, (Routine.advance_of_some hagain).trans
    ((Routine.advance_of_some (huntrack _)).trans (Routine.advance_of_some (hrelease _))), ?_⟩
  refine (World.inquiries_closeIfAbandoned _).trans ?_
  refine (World.inquiries_modifyActor (f := (·.remove requestId)) fun _ => rfl).trans ?_
  exact congrArg (List.modify · agent _) hinquiries

/-- A request that somebody is there for is recorded, and then sent. -/
theorem advance_requestFor {names : List String}
    (hnames : s.world.bus.directory.providers capability = names) (hne : names ≠ []) :
    ∃ s' : Scene, s'.world.inquiries = s.world.inquiries.modify agent
        (·.track (s.world.recordClock + 1) requestId capability names data) ∧
      s'.world.bus = s.world.bus ∧
      Routine.advance (requestFor agent name capability data requestId) s =
        Routine.advance (sending name capability data requestId names) s' := by
  obtain ⟨held, ⟨hinquiries, hbus, hclock⟩, hadvance⟩ :=
    advance_requestFor_held name capability requestId data hnetwork
  obtain ⟨first, rest, rfl⟩ := List.exists_cons_of_ne_nil hne
  rw [hadvance, hnames]
  obtain ⟨tracked, htrack, htracked, hbus'⟩ : ∃ s' : Scene,
      held.attempt (.track agent requestId capability (first :: rest) data) = (s', some ()) ∧
      s'.world.inquiries = held.world.inquiries.modify agent
        (·.track (held.world.recordClock + 1) requestId capability (first :: rest) data) ∧
      s'.world.bus = held.world.bus :=
    ⟨_, rfl, World.inquiries_modifyActor fun _ => rfl, rfl⟩
  rw [hinquiries, hclock] at htracked
  have hagain : Scene.attempt { tracked with parking := {} } (.providers capability) =
      ({ tracked with parking := {} }, some (first :: rest)) := by
    refine congrArg (fun names : List String => (_, some names)) ?_
    rw [← hnames, ← hbus, ← hbus']
  refine ⟨_, htracked, hbus'.trans hbus, (Routine.advance_of_some htrack).trans
    ((Routine.advance_of_some hagain).trans ?_)⟩
  change Routine.advance (Flow.bind (Flow.bind (Flow.bind
    (sendRequests name capability data requestId (first :: rest)) fun _ => .done (first :: rest))
    _) _) _ = _
  rw [Flow.bind_assoc, Flow.bind_assoc]
  rfl

/-- An agent with a network is one of the agents. -/
theorem lt_of_hasNetwork : agent < s.world.actors.length := by
  obtain ⟨hyes, -⟩ := Bool.and_eq_true_iff.mp hnetwork
  by_contra hout
  rw [List.getElem?_eq_none (Nat.le_of_not_lt hout)] at hyes
  cases hyes

end Attached

/-- How a request of an agent treats the records of all agents. -/
structure KeepsRecords (s : Scene) (agent : Nat) (name capability : String) (data : Json)
    (requestId : String) : Prop where
  /-- If nobody provides the capability it ends at once, and every record is as it was. -/
  unsuccessful (hnone : s.world.bus.directory.providers capability = []) :
    ∃ s', Routine.advance (requestFor agent name capability data requestId) s =
        (s', .ended (.ok [])) ∧
      ∀ other id, s'.world.record? other id = s.world.record? other id
  /-- If it ends with some providers, these are all. Its first turn leaves a record of exactly them
  without a reply and every other one as it was, and later turns, after each wait for a place in the
  queue, touch no record. -/
  successful {s' : Scene} {later : List (Scene × Scene)} {names : List String} (hne : names ≠ [])
      (h : (requestFor agent name capability data requestId).Turns ((s, s') :: later)
        (.ended (.ok names))) :
    names = s.world.bus.directory.providers capability ∧
    (∀ other id, s'.world.record? other id =
      if other = agent ∧ id = requestId then
        some (.asked (s.world.recordClock + 1) requestId capability names data)
      else s.world.record? other id) ∧
    ∀ t ∈ later, ∀ other id, t.2.world.record? other id = t.1.world.record? other id
  /-- If only replies were noted under its id since the first turn, the record has them when it ends,
  and is closed if all providers have replied. -/
  returned {s' : Scene} {later : List (Scene × Scene)} {names : List String} (hne : names ≠ [])
      (h : (requestFor agent name capability data requestId).Turns ((s, s') :: later)
        (.ended (.ok names))) {cs : List Inquiries.Change} {w : World}
      (hamid : World.Amid agent s'.world later cs w) (hcs : ∀ c ∈ cs, c.Spares requestId) :
    w.record? agent requestId = Inquiries.standing (s.world.recordClock + 1) requestId capability
      names data (Inquiries.repliesAmong requestId cs)
  /-- With places for all messages it ends in its first turn. -/
  atOnce (hplaces : (s.world.bus.directory.providers capability).length ≤ s.world.bus.gate.places) :
    ∃ s', Routine.advance (requestFor agent name capability data requestId) s =
      (s', .ended (.ok (s.world.bus.directory.providers capability)))

/-- How the turns of a request that ends with some providers treat the records: the first one records
the request, the others touch none. -/
theorem inquiries_turns {s s' : Scene} {agent : Nat} (hnetwork : s.world.hasNetwork agent = true)
    {name capability : String} {data : Json} {requestId : String} {later : List (Scene × Scene)}
    {names : List String} (hne : names ≠ [])
    (h : (requestFor agent name capability data requestId).Turns ((s, s') :: later)
      (.ended (.ok names))) :
    names = s.world.bus.directory.providers capability ∧
      s'.world.inquiries = s.world.inquiries.modify agent
        (·.track (s.world.recordClock + 1) requestId capability names data) ∧
      ∀ t ∈ later, t.2.world.inquiries = t.1.world.inquiries := by
  by_cases hnone : s.world.bus.directory.providers capability = []
  · obtain ⟨t, hadvance, -⟩ := advance_requestFor_nobody name _ requestId data hnetwork hnone
    cases h with
    | last h =>
      cases hadvance.symm.trans h
      exact absurd rfl hne
    | more h => cases hadvance.symm.trans h
  · obtain ⟨t, htracked, -, hadvance⟩ :=
      advance_requestFor name _ requestId data hnetwork rfl hnone
    obtain ⟨hsame, hend⟩ := leadsTo_sending.turns (h.of_advance_eq hadvance)
    obtain ⟨hfirst, hlater⟩ := List.forall_mem_cons.mp hsame
    obtain rfl : names = s.world.bus.directory.providers capability := Except.ok.inj hend
    exact ⟨rfl, hfirst.trans htracked, hlater⟩

/-- **A request keeps the records, unless it asks nobody under an id in use.** Then it forgets the
record of the earlier request of that id. -/
theorem keepsRecords_iff {s : Scene} {agent : Nat} (hnetwork : s.world.hasNetwork agent = true)
    (name capability : String) (data : Json) (requestId : String) :
    KeepsRecords s agent name capability data requestId ↔
      (s.world.bus.directory.providers capability = [] →
        s.world.record? agent requestId = none) := by
  constructor
  · intro hkeeps hnone
    obtain ⟨s', hadvance, hsame⟩ := hkeeps.unsuccessful hnone
    obtain ⟨t, hadvance', hremoved⟩ := advance_requestFor_nobody name _ requestId data hnetwork hnone
    obtain rfl : s' = t := congrArg Prod.fst (hadvance.symm.trans hadvance')
    have hgone := World.record?_of_remove hremoved agent requestId
    rwa [hsame, if_pos ⟨rfl, rfl⟩] at hgone
  · intro hfree
    refine ⟨fun hnone => ?_, fun {s' later names} hne hturns => ?_,
      fun {s' later names} hne hturns {cs w} hamid hcs => ?_, fun hplaces => ?_⟩
    · obtain ⟨s', hadvance, hremoved⟩ :=
        advance_requestFor_nobody name _ requestId data hnetwork hnone
      refine ⟨s', hadvance, fun other id => ?_⟩
      rw [World.record?_of_remove hremoved]
      split
      · next h =>
        obtain ⟨rfl, rfl⟩ := h
        exact (hfree hnone).symm
      · rfl
    · obtain ⟨hnames, htracked, hlater⟩ := inquiries_turns hnetwork hne hturns
      refine ⟨hnames, fun other id => ?_, fun t ht other id => World.record?_congr (hlater t ht) _ _⟩
      exact World.record?_of_track (lt_of_hasNetwork hnetwork) htracked other id
    · obtain ⟨-, htracked, hlater⟩ := inquiries_turns hnetwork hne hturns
      have hlt := lt_of_hasNetwork hnetwork
      have hsome : s.world.inquiries[agent]? = some s.world.actors[agent].inquiries := by
        simp [World.inquiries, hlt]
      rw [World.record?, hamid.inquiries hlater, htracked, List.getElem?_modify_eq, hsome]
      exact Inquiries.get?_changes _ _ _ _ _ _ hne hcs
    · by_cases hnone : s.world.bus.directory.providers capability = []
      · obtain ⟨s', hadvance, -⟩ := advance_requestFor_nobody name _ requestId data hnetwork hnone
        exact ⟨s', hnone ▸ hadvance⟩
      · obtain ⟨t, -, hbus, hadvance⟩ := advance_requestFor name _ requestId data hnetwork rfl hnone
        rw [← congrArg (·.gate.places) hbus] at hplaces
        obtain ⟨s', hsent⟩ := advance_sending name capability requestId data hplaces
        exact ⟨s', hadvance.trans hsent⟩

/-- An agent has asked two others under the id "r", and has the reply of one. -/
def halfAnswered : Scene :=
  let agent (name : String) (capabilities : List String) : Agent :=
    { Agent.scripted name [] [] [] with capabilities }
  let w := ["u", "p", "q"].foldl (fun w name =>
    let (w, number) := w.create (agent name (if name = "u" then [] else ["a"]))
    w.register number) (World.opened {})
  let (s, _) := Routine.advance (requestFor 0 "u" "a" .null "r") { world := w }
  (s.attempt (.noteReply 0 (.response ⟨"n", default⟩ "p" "u" (.bool true) "r" "m"))).1

/-- It then asks for something that nobody provides. Under an id of its own this changes nothing. -/
theorem keepsRecords_halfAnswered :
    halfAnswered.world.hasNetwork 0 = true ∧
      halfAnswered.world.bus.directory.providers "b" = [] ∧
      KeepsRecords halfAnswered 0 "u" "b" .null "s" := by
  have hnetwork : halfAnswered.world.hasNetwork 0 = true := by decide +kernel
  exact ⟨hnetwork, by decide +kernel,
    (keepsRecords_iff hnetwork "u" "b" .null "s").mpr fun _ => by decide +kernel⟩

/-- Under the id "r" the reply is lost with the record. -/
theorem forgets_halfAnswered :
    halfAnswered.world.hasNetwork 0 = true ∧
      (halfAnswered.world.record? 0 "r").map (fun i => (i.providers, i.responses)) =
        some (["p", "q"], [("p", .bool true)]) ∧
      (∃ s', Routine.advance (requestFor 0 "u" "b" .null "r") halfAnswered = (s', .ended (.ok [])) ∧
        s'.world.record? 0 "r" = none) ∧
      ¬ KeepsRecords halfAnswered 0 "u" "b" .null "r" := by
  have hnetwork : halfAnswered.world.hasNetwork 0 = true := by decide +kernel
  have hnone : halfAnswered.world.bus.directory.providers "b" = [] := by decide +kernel
  have hrecord : (halfAnswered.world.record? 0 "r").map (fun i => (i.providers, i.responses)) =
      some (["p", "q"], [("p", .bool true)]) := by decide +kernel
  obtain ⟨s', hadvance, hremoved⟩ := advance_requestFor_nobody "u" _ "r" .null hnetwork hnone
  have hgone : s'.world.record? 0 "r" = none := World.record?_of_remove hremoved 0 "r"
  refine ⟨hnetwork, hrecord, ⟨s', hadvance, hgone⟩, fun hkeeps => ?_⟩
  obtain ⟨t, hadvance', hsame⟩ := hkeeps.unsuccessful hnone
  obtain rfl : s' = t := congrArg Prod.fst (hadvance.symm.trans hadvance')
  rw [← hsame, hgone] at hrecord
  cases hrecord

end Network

end Switchboard
