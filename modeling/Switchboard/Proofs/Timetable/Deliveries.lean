import Mathlib.Algebra.Order.BigOperators.Group.List
import Mathlib.Algebra.Order.Group.Nat
import Switchboard.Proofs.Timetable.Servings
import Switchboard.Proofs.World.Alerts

/-!
# Messages of the roster are delivered

* `Roster.Covers.openInbox` : the handling of the messages of a lane is begun;
* `Roster.Covers.deliverOne`, `Roster.Covers.deliverAll` : a request goes to the lane of its provider,
  and a reply answers its collection; the load of a message pays for what its delivery leads to;
* `Roster.Covers.sweepNow` : the sweep answers no collection that is in time;
* `Roster.Covers.congr` : what the roster does not look at;
* `Roster.Covers.laneTurn` : a lane takes its messages, and its handlings go on as far as they can.
-/

namespace Switchboard

namespace Program

theorem load_le (p : Program Unit) : p.load ≤ 4 := by
  unfold load
  split
  all_goals try exact Nat.zero_le _
  · unfold Message.mailLoad
    split <;> decide
  · exact Nat.le_refl _

theorem load_serve_of_reply {m : Message} (hm : m.kind.isReply = true) (a : Agent) (agent : Nat) :
    (a.serve agent m).load = 0 := by
  have hnoted : m.mailLoad = 0 := by rw [Message.mailLoad, if_pos hm]
  rw [serve_eq]
  unfold Agent.handle
  cases hkind : m.kind with
  | capabilityResponse =>
    cases a.keepsLog
    · rfl
    · exact hnoted
  | error =>
    cases a.keepsLog
    · rfl
    · exact hnoted
  | _ =>
    rw [hkind] at hm
    cases hm

theorem load_serve_le (a : Agent) (agent : Nat) (m : Message) :
    (a.serve agent m).load ≤ m.mailLoad := by
  cases hm : m.kind.isReply with
  | true =>
    rw [load_serve_of_reply hm]
    exact Nat.zero_le _
  | false =>
    rw [Message.mailLoad, if_neg (by simp [hm])]
    exact load_le _

end Program

namespace Roster

variable {r : Roster} {n : Nat} {w w' : World} {ps : List (Assignment × Branch)} {x : Assignment}
  {m : Message}

theorem Covers.layout (h : r.Covers n w ps) : w.bus.layout = r.grounds.layout :=
  congrArg World.Grounds.layout h.grounds

/-- The agent of a lane is there. -/
theorem Covers.exists_actor (hr : r.Sound) (h : r.Covers n w ps) {i : Nat} {lane : Lane}
    (hlane : w.bus.lanes[i]? = some lane) : ∃ actor, w.actors[lane.agent]? = some actor := by
  have hlanes : w.bus.lanes.map (·.agent) = r.grounds.layout.lanes :=
    congrArg Bus.Layout.lanes h.layout
  have hagents : w.actors.map (fun a => (a.agent, a.attached)) = r.grounds.agents :=
    congrArg World.Grounds.agents h.grounds
  have hlt := hr.lanes lane.agent (hlanes ▸ List.mem_map_of_mem (List.mem_of_getElem? hlane))
  rw [← hagents, List.length_map] at hlt
  exact ⟨_, List.getElem?_eq_getElem hlt⟩

/-- A reply that is found in a lane is noted. -/
theorem noting_serve (hm : m.kind.isReply = true) (a : Agent) (agent : Nat) :
    ({ code := a.serve agent m } : Thread Unit).Noting :=
  ⟨Program.closing_serve hm a agent, Program.load_serve_of_reply hm a agent, rfl, rfl, rfl⟩

/-- A request that is found in its lane is served. -/
theorem Covers.serving_of_mail (hr : r.Sound) (h : r.Covers n w ps) (hx : x ∈ r.steps)
    (hasks : x.Asks w.now m) {lane : Lane} (hlane : w.bus.lanes[x.post.lane]? = some lane)
    {actor : Actor} (hactor : w.actors[lane.agent]? = some actor) :
    x.Serving w.now { code := actor.agent.serve lane.agent m } := by
  have hlanes : w.bus.lanes.map (·.agent) = r.grounds.layout.lanes :=
    congrArg Bus.Layout.lanes h.layout
  have hagent : lane.agent = x.post.agent := by
    have hpost := (hr.provides x hx).lane
    rw [← hlanes, List.getElem?_map, hlane] at hpost
    exact Option.some.inj hpost
  obtain ⟨actor', hactor', -, hname, hperforms⟩ :=
    Program.attached_of_provides (hr.provides x hx) h.grounds
  rw [hagent] at hactor ⊢
  obtain rfl := Option.some.inj (hactor.symm.trans hactor')
  exact .begun (Program.starts_serve hasks.1 hname hperforms) hasks.2

/-- What the messages of a lane are handled by. -/
def mailHandlings (w : World) (position : Nat) (lane : Lane) (actor : Actor) : List Handling :=
  ((List.range' w.nextHandling lane.inbox.length).zip lane.inbox).map fun (number, m) =>
    ⟨number, position, { code := actor.agent.serve lane.agent m }⟩

/-- The lanes without the messages of one of them. -/
def emptied (position : Nat) (lanes : List Lane) : List Lane :=
  lanes.modify position fun l => { l with inbox := [] }

theorem openInbox_eq {position : Nat} {lane : Lane} {actor : Actor}
    (hlane : w.bus.lanes[position]? = some lane) (hactor : w.actors[lane.agent]? = some actor) :
    w.openInbox position =
      { w with
        bus := { w.bus with lanes := emptied position w.bus.lanes }
        nextHandling := w.nextHandling + lane.inbox.length
        handlings := w.handlings ++ mailHandlings w position lane actor
        runnable := w.runnable ++
          (mailHandlings w position lane actor).map fun h => (h.lane, h.number) } := by
  unfold World.openInbox mailHandlings emptied
  rw [hlane]
  dsimp only
  rw [hactor, List.map_map]
  rfl

theorem mem_mailHandlings {position : Nat} {lane : Lane} {actor : Actor} {h : Handling}
    (hh : h ∈ mailHandlings w position lane actor) :
    ∃ m ∈ lane.inbox, h.lane = position ∧
      h.thread = { code := actor.agent.serve lane.agent m } := by
  obtain ⟨⟨number, m⟩, hmem, rfl⟩ := List.mem_map.mp hh
  exact ⟨m, (List.of_mem_zip hmem).2, rfl, rfl⟩

theorem exists_mailHandling (w : World) (position : Nat) {lane : Lane} (actor : Actor)
    (hm : m ∈ lane.inbox) :
    ∃ h ∈ mailHandlings w position lane actor,
      h.thread = { code := actor.agent.serve lane.agent m } := by
  have hmessages : ((List.range' w.nextHandling lane.inbox.length).zip lane.inbox).map (·.2) =
      lane.inbox := List.map_snd_zip (by simp)
  rw [← hmessages] at hm
  obtain ⟨p, hp, rfl⟩ := List.mem_map.mp hm
  exact ⟨_, List.mem_map_of_mem hp, rfl⟩

theorem numbers_mailHandlings (w : World) (position : Nat) (lane : Lane) (actor : Actor) :
    (mailHandlings w position lane actor).map (·.number) =
      List.range' w.nextHandling lane.inbox.length := by
  rw [mailHandlings, List.map_map]
  exact List.map_fst_zip (by simp)

/-- Handlings count together no more than the messages if each of them does so. -/
theorem sum_mailHandlings (w : World) (position : Nat) {lane : Lane} {actor : Actor}
    {f : Thread Unit → Nat} {g : Message → Nat}
    (h : ∀ m ∈ lane.inbox, f { code := actor.agent.serve lane.agent m } ≤ g m) :
    ((mailHandlings w position lane actor).map fun h₁ => f h₁.thread).sum ≤
      (lane.inbox.map g).sum := by
  have hmessages : ((List.range' w.nextHandling lane.inbox.length).zip lane.inbox).map (·.2) =
      lane.inbox := List.map_snd_zip (by simp)
  conv_rhs => rw [← hmessages]
  rw [mailHandlings, List.map_map, List.map_map]
  exact List.sum_le_sum fun p hp => h p.2 (List.of_mem_zip hp).2

theorem getElem?_emptied {position i : Nat} {lanes : List Lane} {lane : Lane}
    (h : (emptied position lanes)[i]? = some lane) :
    lane.inbox = [] ∧ i = position ∨ lanes[i]? = some lane ∧ i ≠ position := by
  rw [emptied, List.getElem?_modify] at h
  by_cases hi : position = i
  · obtain ⟨l, -, rfl⟩ := Option.map_eq_some_iff.mp h
    exact .inl ⟨by simp [hi], hi.symm⟩
  · exact .inr ⟨by simpa [hi] using h, Ne.symm hi⟩

theorem mailSum_emptied {position : Nat} {lanes : List Lane} {lane : Lane}
    (h : lanes[position]? = some lane) (f : Message → Nat) :
    mailSum f (emptied position lanes) + (lane.inbox.map f).sum = mailSum f lanes := by
  unfold mailSum
  induction lanes generalizing position with
  | nil => cases h
  | cons l lanes ih =>
    cases position with
    | zero =>
      obtain rfl := Option.some.inj h
      simp [emptied, Nat.add_comm]
    | succ position =>
      have hrest := @ih position h
      simp only [emptied, List.modify_succ_cons, List.map_cons, List.sum_cons] at hrest ⊢
      omega

theorem openInbox_of_none {position : Nat} (hlane : w.bus.lanes[position]? = none) :
    w.openInbox position = w := by
  unfold World.openInbox
  rw [hlane]

/-- Nobody who begins to handle a message stands in line. -/
theorem tickets_mailHandlings (w : World) (position : Nat) (lane : Lane) (actor : Actor) :
    (mailHandlings w position lane actor).filterMap (·.thread.parking.ticket) = [] := by
  refine List.filterMap_eq_nil_iff.mpr fun h₁ hh => ?_
  obtain ⟨m, -, -, hthread⟩ := mem_mailHandlings hh
  rw [hthread]

/-- New handlings have new numbers. -/
theorem numbers_openInbox (hnumbers : (w.handlings.map (·.number)).Nodup)
    (hlt : ∀ h ∈ w.handlings, h.number < w.nextHandling) (position : Nat) (lane : Lane)
    (actor : Actor) :
    ((w.handlings ++ mailHandlings w position lane actor).map (·.number)).Nodup ∧
      ∀ h ∈ w.handlings ++ mailHandlings w position lane actor,
        h.number < w.nextHandling + lane.inbox.length := by
  refine ⟨?_, fun h₁ hh => ?_⟩
  · rw [List.map_append, numbers_mailHandlings, List.nodup_append]
    refine ⟨hnumbers, List.nodup_range', ?_⟩
    rintro k hk k' hk' rfl
    obtain ⟨h₁, hh, rfl⟩ := List.mem_map.mp hk
    have hold := hlt h₁ hh
    have hnew := (List.mem_range'_1.mp hk').1
    omega
  · rcases List.mem_append.mp hh with hh | hh
    · exact Nat.lt_add_right _ (hlt h₁ hh)
    · have hmem : h₁.number ∈ (mailHandlings w position lane actor).map (·.number) :=
        List.mem_map_of_mem hh
      rw [numbers_mailHandlings] at hmem
      exact (List.mem_range'_1.mp hmem).2

/-- A message that is opened is being served from then on. -/
theorem Covers.underway_openInbox (hr : r.Sound) (h : r.Covers n w ps) (hx : x ∈ r.steps)
    {position : Nat} {lane : Lane} {actor : Actor} (hlane : w.bus.lanes[position]? = some lane)
    (hactor : w.actors[lane.agent]? = some actor) (hu : x.Underway w) :
    x.Underway (w.openInbox position) := by
  rw [openInbox_eq hlane hactor]
  cases hu with
  | asking hasks hm => exact .asking hasks hm
  | answering hanswers hm => exact .answering hanswers hm
  | serving hserving hh => exact .serving hserving (List.mem_append_left _ hh)
  | @mailed m hasks lane' hlane' hm =>
    by_cases hpost : x.post.lane = position
    · obtain rfl : lane' = lane := by
        rw [hpost, hlane] at hlane'
        exact (Option.some.inj hlane').symm
      obtain ⟨h₁, hh, hthread⟩ := exists_mailHandling w position actor hm
      have hserving : x.Serving w.now h₁.thread := by
        rw [hthread]
        exact h.serving_of_mail hr hx hasks hlane' hactor
      exact .serving hserving (List.mem_append_right _ hh)
    · have hkept : (emptied position w.bus.lanes)[x.post.lane]? = some lane' := by
        simpa [emptied, List.getElem?_modify, Ne.symm hpost] using hlane'
      exact .mailed hasks hkept hm

/-- Who is handed the messages of a lane serves no more requests than there were among them. -/
theorem Covers.served_openInbox (hr : r.Sound) (h : r.Covers n w ps) (hx : x ∈ r.steps)
    {position : Nat} {lane : Lane} {actor : Actor} (hlane : w.bus.lanes[position]? = some lane)
    (hactor : w.actors[lane.agent]? = some actor) :
    ((mailHandlings w position lane actor).map fun h₁ => x.served w.now h₁.thread).sum ≤
      (lane.inbox.map x.asked).sum := by
  refine sum_mailHandlings w position fun m hm => Assignment.served_le fun hserving => ?_
  rcases h.inbox position lane hlane m hm with hreply | ⟨y, hy, hasks, rfl⟩
  · exact absurd hserving (not_serving_of_noting (noting_serve hreply _ _))
  · obtain rfl := hr.eq_of_serving hx hy hserving (h.serving_of_mail hr hy hasks hlane hactor)
    rw [Assignment.asked, if_pos ⟨not_isReply_of_requests hasks.1, id_of_requests hasks.1⟩]

/-- The handling of the messages of a lane is begun. -/
theorem Covers.openInbox (hr : r.Sound) (h : r.Covers n w ps) (position : Nat) :
    r.Covers n (w.openInbox position) ps := by
  cases hlane : w.bus.lanes[position]? with
  | none => rwa [openInbox_of_none hlane]
  | some lane =>
  obtain ⟨actor, hactor⟩ := h.exists_actor hr hlane
  have hgrounds := (w.grounds_openInbox position).trans h.grounds
  have hunderway := fun (q : Assignment × Branch) (hq : q ∈ ps) =>
    h.underway_openInbox hr (h.steps q hq).1 hlane hactor
  rw [openInbox_eq hlane hactor] at hgrounds hunderway ⊢
  refine
    { grounds := hgrounds
      queue := h.queue
      inbox := fun i lane' hlane' m hm => ?_
      handlings := fun h₁ hh => ?_
      numbers := numbers_openInbox h.numbers.1 h.numbers.2 position lane actor
      distinct := h.distinct
      steps := fun q hq => ⟨(h.steps q hq).1, (h.steps q hq).2.imp (hunderway q hq)⟩
      table := h.table
      places := ?_
      seen := h.seen
      guards := h.guards.mono rfl (fun x hx => ?_) fun x _ h₁ hh hs =>
        ⟨List.mem_append_left _ hh, hs⟩
      load := ?_ }
  · rcases getElem?_emptied hlane' with ⟨hempty, -⟩ | ⟨hsame, -⟩
    · rw [hempty] at hm
      cases hm
    · exact h.inbox i lane' hsame m hm
  · rcases List.mem_append.mp hh with hh | hh
    · exact h.handlings h₁ hh
    · obtain ⟨m, hm, -, hthread⟩ := mem_mailHandlings hh
      rw [hthread]
      rcases h.inbox position lane hlane m hm with hreply | ⟨x, hx, hasks, rfl⟩
      · exact .inl (noting_serve hreply _ _)
      · exact .inr ⟨x, hx, h.serving_of_mail hr hx hasks hlane hactor⟩
  · have hplaces := h.places
    unfold tickets at hplaces ⊢
    rwa [List.filterMap_append, tickets_mailHandlings, List.append_nil]
  · have hmail := mailSum_emptied hlane x.asked
    have hserved := h.served_openInbox hr hx hlane hactor
    unfold Assignment.requests
    dsimp only
    rw [List.map_append, List.sum_append]
    omega
  · have hload := h.load
    have hmail := mailSum_emptied hlane Message.mailLoad
    have hfresh := sum_mailHandlings w position (f := fun t => t.code.load)
      fun m _ => Program.load_serve_le actor.agent lane.agent m
    unfold World.load at hload ⊢
    dsimp only at hload ⊢
    rw [List.map_append, List.sum_append]
    omega

end Roster

/-! ## Deliveries -/

namespace Bus

variable {m : Message} {positions : List Nat} {lanes : List Lane} {i : Nat}

theorem post_cons (m : Message) (j : Nat) (positions : List Nat) (lanes : List Lane) :
    post m (j :: positions) lanes =
      post m positions (lanes.modify j fun l => { l with inbox := l.inbox ++ [m] }) := rfl

/-- What is in a lane was there before, unless it is the message that was put there. -/
theorem mem_inbox_post {lane : Lane} (h : (post m positions lanes)[i]? = some lane) {m' : Message}
    (hm : m' ∈ lane.inbox) :
    (∃ lane, lanes[i]? = some lane ∧ m' ∈ lane.inbox) ∨ m' = m ∧ i ∈ positions := by
  induction positions generalizing lanes with
  | nil => exact .inl ⟨lane, h, hm⟩
  | cons j positions ih =>
    rcases ih h with ⟨lane', hlane', hm'⟩ | ⟨rfl, hi⟩
    · rw [List.getElem?_modify] at hlane'
      by_cases hj : j = i
      · obtain ⟨l, hl, rfl⟩ := Option.map_eq_some_iff.mp hlane'
        rw [if_pos hj] at hm'
        rcases List.mem_append.mp hm' with hm' | hm'
        · exact .inl ⟨l, hl, hm'⟩
        · exact .inr ⟨List.mem_singleton.mp hm', hj ▸ List.mem_cons_self⟩
      · exact .inl ⟨lane', by simpa [hj] using hlane', hm'⟩
    · exact .inr ⟨rfl, List.mem_cons_of_mem _ hi⟩

/-- What is in a lane stays there. -/
theorem subset_inbox_post (m : Message) (positions : List Nat) {lane : Lane}
    (h : lanes[i]? = some lane) :
    ∃ lane', (post m positions lanes)[i]? = some lane' ∧ lane.inbox ⊆ lane'.inbox ∧
      (i ∈ positions → m ∈ lane'.inbox) := by
  induction positions generalizing lanes lane with
  | nil => exact ⟨lane, h, fun _ h => h, nofun⟩
  | cons j positions ih =>
    by_cases hj : j = i
    · have hfirst : (lanes.modify j fun l => { l with inbox := l.inbox ++ [m] })[i]? =
          some { lane with inbox := lane.inbox ++ [m] } := by
        simp [hj, h]
      obtain ⟨lane', hlane', hsub, -⟩ := ih hfirst
      refine ⟨lane', hlane', List.Subset.trans (List.subset_append_left _ _) hsub, fun _ => hsub ?_⟩
      exact List.mem_append_right _ (List.mem_singleton.mpr rfl)
    · have hfirst : (lanes.modify j fun l => { l with inbox := l.inbox ++ [m] })[i]? =
          some lane := by
        simp [hj, h]
      obtain ⟨lane', hlane', hsub, hmem⟩ := ih hfirst
      refine ⟨lane', hlane', hsub, fun hi => hmem ?_⟩
      exact (List.mem_cons.mp hi).resolve_left (Ne.symm hj)

theorem mailSum_post (f : Message → Nat) (m : Message) (positions : List Nat) (lanes : List Lane) :
    mailSum f (post m positions lanes) ≤ mailSum f lanes + positions.length * f m := by
  have hmodify : ∀ (lanes : List Lane) (j : Nat),
      mailSum f (lanes.modify j fun l => { l with inbox := l.inbox ++ [m] }) ≤
        mailSum f lanes + f m := by
    unfold mailSum
    intro lanes
    induction lanes with
    | nil => exact fun j => by simp
    | cons l lanes ih =>
      intro j
      cases j with
      | zero =>
        simp only [List.modify_zero_cons, List.map_cons, List.sum_cons, List.map_append,
          List.sum_append, List.map_nil, List.sum_nil]
        omega
      | succ j =>
        have hrest := ih j
        simp only [List.modify_succ_cons, List.map_cons, List.sum_cons]
        omega
  induction positions generalizing lanes with
  | nil => simp [post]
  | cons j positions ih =>
    have hrest := ih (lanes.modify j fun l => { l with inbox := l.inbox ++ [m] })
    have hfirst := hmodify lanes j
    rw [post_cons, List.length_cons, Nat.succ_mul]
    omega

end Bus

namespace Roster

variable {r : Roster} {n : Nat} {w w' : World} {ps : List (Assignment × Branch)} {x : Assignment}
  {m : Message} {rest : List Message}

/-- The first message of the queue is put into the lanes that it goes to. -/
structure Handed (w : World) (m : Message) (rest : List Message) (w' : World) : Prop where
  before : w.bus.queue = m :: rest
  grounds : w'.grounds = w.grounds
  stage : w'.stage = w.stage
  queue : w'.bus.queue = rest
  gate : w'.bus.gate = w.bus.gate.release.1
  lanes : w'.bus.lanes = w.bus.posted m
  breaker : w'.breaker = w.breaker

theorem handed_deliverOne (h : w.bus.queue = m :: rest) : Handed w m rest w.deliverOne := by
  have hgrounds := w.grounds_deliverOne
  have hstage := w.stage_deliverOne
  rw [World.deliverOne_eq w h] at hgrounds hstage ⊢
  refine ⟨h, hgrounds, hstage, ?_, ?_, ?_, rfl⟩
  · exact Bus.queue_deliver _ m
  · exact Bus.gate_deliver _ m
  · change (Bus.deliver _ m).1.lanes = _
    rw [Bus.deliver_eq]
    rfl

/-- What is under way stays so, but for the message that is delivered. -/
theorem Handed.underway (h : Handed w m rest w') (hu : x.Underway w)
    (hasks : x.Asks w.now m → x.post.lane ∈ w.bus.targets m ∧
      ∃ lane, w.bus.lanes[x.post.lane]? = some lane)
    (hanswers : ¬ x.Answers w.now m) : x.Underway w' := by
  have hnow : w'.now = w.now := congrArg World.Stage.now h.stage
  have hhandlings : w'.handlings = w.handlings := congrArg World.Stage.handlings h.stage
  have hlater : ∀ {m' : Message}, m' ∈ w.bus.queue → m' = m ∨ m' ∈ w'.bus.queue := fun hm => by
    rw [h.before] at hm
    rw [h.queue]
    exact List.mem_cons.mp hm
  cases hu with
  | asking hasks' hm =>
    rcases hlater hm with rfl | hm
    · obtain ⟨htarget, lane, hlane⟩ := hasks hasks'
      obtain ⟨lane', hlane', -, hmem⟩ := Bus.subset_inbox_post _ (w.bus.targets _) hlane
      exact .mailed (hnow ▸ hasks') (h.lanes ▸ hlane') (hmem htarget)
    · exact .asking (hnow ▸ hasks') hm
  | mailed hasks' hlane hm =>
    obtain ⟨lane', hlane', hsub, -⟩ := Bus.subset_inbox_post m (w.bus.targets m) hlane
    exact .mailed (hnow ▸ hasks') (h.lanes ▸ hlane') (hsub hm)
  | serving hserving hh => exact .serving (hnow ▸ hserving) (hhandlings ▸ hh)
  | answering hanswers' hm =>
    rcases hlater hm with rfl | hm
    · exact absurd hanswers' hanswers
    · exact .answering (hnow ▸ hanswers') hm

/-- A message that is delivered is in the lane of its addressee, if at all. -/
theorem Handed.requests_le (h : Handed w m rest w') (htargets : (w.bus.targets m).length ≤ 1)
    (x : Assignment) (ps : List (Assignment × Branch)) : x.requests w' ps ≤ x.requests w ps := by
  have hmail := Bus.mailSum_post x.asked m (w.bus.targets m) w.bus.lanes
  have hone : (w.bus.targets m).length * x.asked m ≤ 1 * x.asked m :=
    Nat.mul_le_mul_right _ htargets
  have hnow : w'.now = w.now := congrArg World.Stage.now h.stage
  have hhandlings : w'.handlings = w.handlings := congrArg World.Stage.handlings h.stage
  unfold Assignment.requests
  rw [h.queue, h.before, h.lanes, hnow, hhandlings, Bus.posted, List.map_cons, List.sum_cons]
  omega

/-- A delivery leaves all as it should be if it does so for the steps. -/
theorem Covers.handed (h : r.Covers n w ps) (hd : Handed w m rest w')
    (htargets : (w.bus.targets m).length ≤ 1)
    (hseen : ∀ x ∈ r.steps, x.Requests m → r.seen x)
    (hmail : ∀ i ∈ w.bus.targets m,
      m.kind.isReply = true ∨ ∃ x ∈ r.steps, x.Asks w.now m ∧ x.post.lane = i)
    (htable : w'.bus.collector.Sound)
    (hsteps : ∀ p ∈ ps, p.1.At w.now w'.bus.collector (p.1.Underway w') p.2)
    (hload : w'.load ≤ w.load) : r.Covers n w' ps := by
  have hnow : w'.now = w.now := congrArg World.Stage.now hd.stage
  have hhandlings : w'.handlings = w.handlings := congrArg World.Stage.handlings hd.stage
  have hnext : w'.nextHandling = w.nextHandling := congrArg World.Stage.nextHandling hd.stage
  have hsub : w'.bus.queue ⊆ w.bus.queue := by
    rw [hd.queue, hd.before]
    exact List.subset_cons_self _ _
  refine
    { grounds := hd.grounds.trans h.grounds
      queue := fun m' hm => hnow ▸ h.queue m' (hsub hm)
      inbox := fun i lane hlane m' hm => ?_
      handlings := by
        rw [hhandlings, hnow]
        exact h.handlings
      numbers := by
        rw [hhandlings, hnext]
        exact h.numbers
      distinct := h.distinct
      steps := fun p hp => ⟨(h.steps p hp).1, hnow ▸ hsteps p hp⟩
      table := htable
      places := ?_
      seen := fun y hy => ?_
      guards := h.guards.mono hd.breaker (fun x _ => hd.requests_le htargets x ps)
        fun x _ h₁ hh hs => ⟨hhandlings ▸ hh, hnow ▸ hs⟩
      load := Nat.le_trans (Nat.add_le_add_right hload _) h.load }
  · rw [hnow]
    rw [hd.lanes] at hlane
    rcases Bus.mem_inbox_post hlane hm with ⟨lane', hlane', hm'⟩ | ⟨rfl, hi⟩
    · exact h.inbox i lane' hlane' m' hm'
    · exact hmail i hi
  · have hplaces := h.places
    rw [hd.before, List.length_cons] at hplaces
    rw [hhandlings, hd.queue, hd.gate]
    exact hplaces.release
  · rcases h.seen y hy with hyseen | ⟨m', hm, hrequests⟩ | hunsent
    · exact .inl hyseen
    · rw [hd.before] at hm
      rcases List.mem_cons.mp hm with rfl | hm
      · exact .inl (hseen y hy hrequests)
      · exact .inr (.inl ⟨m', by rwa [hd.queue], hrequests⟩)
    · exact .inr (.inr hunsent)

theorem length_granted (g : Gate) : g.release.2.toList.length ≤ 1 := by
  unfold Gate.release
  split
  · exact Nat.zero_le _
  · exact Nat.le_refl _

/-- A request that is delivered wakes its lane, and who was in line for the place. -/
theorem deliverOne_request (h : w.bus.queue = m :: rest) (hm : m.kind.isReply = false) :
    w.deliverOne.bus.collector = w.bus.collector ∧
      w.deliverOne.signals.length =
        w.signals.length + w.bus.gate.release.2.toList.length + (w.bus.targets m).length := by
  rw [World.deliverOne_eq w h]
  dsimp only
  rw [Bus.deliver_eq, hm]
  refine ⟨rfl, ?_⟩
  simp only [World.signalAll, List.length_append, List.length_map, Bool.false_eq_true, if_false,
    Option.toList_none, List.length_nil]
  change w.signals.length + (_ + 0 + 0 + (w.bus.targets m).length) = _
  omega

/-- A reply that is delivered answers its collection, and wakes whoever waits for it. -/
theorem deliverOne_reply (h : w.bus.queue = m :: rest) (hm : m.kind.isReply = true) :
    w.deliverOne.bus.collector = (w.bus.collector.receive m.requestId
        ⟨m.fromAgent, m.content, decide (m.kind = .error)⟩).1 ∧
      w.deliverOne.signals.length ≤
        w.signals.length + w.bus.gate.release.2.toList.length + 1 + (w.bus.targets m).length +
          (w.deliverOne.bus.collector.results.length - w.bus.collector.results.length) := by
  have hwaiter : ∀ o : Option Nat, o.toList.length ≤ 1 := fun o => by cases o <;> simp
  have hone := hwaiter (w.bus.waiters.handle? m.requestId)
  rw [World.deliverOne_eq w h]
  dsimp only
  rw [Bus.deliver_eq, hm]
  refine ⟨rfl, ?_⟩
  simp only [World.signalAll, List.length_append, List.length_map, if_true, Bus.resolveReply,
    List.length_drop]
  change w.signals.length + (_ + (w.bus.waiters.handle? m.requestId).toList.length + _ +
    (w.bus.targets m).length) ≤ _
  omega

/-- The load of a message pays for whatever its delivery leads to. -/
theorem load_deliverOne (h : w.bus.queue = m :: rest) (htargets : (w.bus.targets m).length ≤ 1)
    (htable : w.bus.collector.Sound) : w.deliverOne.load ≤ w.load := by
  have hd := handed_deliverOne h
  have hhandlings : w.deliverOne.handlings = w.handlings := congrArg World.Stage.handlings hd.stage
  have hgranted := length_granted w.bus.gate
  have hmail := Bus.mailSum_post Message.mailLoad m (w.bus.targets m) w.bus.lanes
  rw [World.load, World.load, hd.queue, hd.lanes, hhandlings, h, Bus.posted, List.map_cons,
    List.sum_cons]
  cases hm : m.kind.isReply with
  | false =>
    obtain ⟨hcollector, hsignals⟩ := deliverOne_request h hm
    have hload : m.load = 7 ∧ m.mailLoad = 4 := by simp [Message.load, Message.mailLoad, hm]
    rw [hload.2] at hmail
    rw [hcollector, hsignals, hload.1]
    omega
  | true =>
    obtain ⟨hcollector, hsignals⟩ := deliverOne_reply h hm
    have hload : m.load = 3 ∧ m.mailLoad = 0 := by simp [Message.load, Message.mailLoad, hm]
    have hpays := Collector.pays_receive htable m.requestId
      ⟨m.fromAgent, m.content, decide (m.kind = .error)⟩
    have hresults := (Collector.results_add (c := w.bus.collector) m.requestId m.fromAgent m.content
      (decide (m.kind = .error))).length_le
    rw [← hcollector] at hpays
    unfold Collector.Pays at hpays
    change w.bus.collector.results.length ≤ (w.bus.collector.receive m.requestId
      ⟨m.fromAgent, m.content, decide (m.kind = .error)⟩).1.results.length at hresults
    rw [← hcollector] at hresults
    rw [hload.2] at hmail
    rw [hload.1]
    omega

/-- A request goes to the lane of the agent that provides its capability. -/
theorem targets_of_requests (hr : r.Sound) (h : r.Covers n w ps) (hx : x ∈ r.steps)
    (hm : x.Requests m) : w.bus.targets m = [x.post.lane] := by
  have hmembers : w.bus.members = r.grounds.layout.members := congrArg Bus.Layout.members h.layout
  obtain ⟨stamp, rfl⟩ := hm
  unfold Bus.targets Bus.member?
  rw [hmembers]
  change (Option.map _ (r.grounds.layout.members.find? (·.name == x.post.name))).toList = _
  rw [(hr.provides x hx).member]
  rfl

theorem length_targets_of_addressee {b : Bus} {name : String} (h : m.toAgent = some name) :
    (b.targets m).length ≤ 1 := by
  rw [Bus.targets, h]
  dsimp only
  cases b.member? name <;> simp

/-- The first message of the queue is delivered. -/
theorem Covers.deliverOne (hr : r.Sound) (h : r.Covers n w ps)
    (hseen : ∀ m ∈ w.bus.queue, ∀ x ∈ r.steps, x.Requests m → r.seen x) :
    r.Covers n w.deliverOne ps := by
  cases hqueue : w.bus.queue with
  | nil =>
    have hsame : w.deliverOne = w := by
      unfold World.deliverOne Bus.take?
      rw [hqueue]
    rwa [hsame]
  | cons m rest =>
  have hd := handed_deliverOne hqueue
  have hmem : m ∈ w.bus.queue := hqueue ▸ List.mem_cons_self
  obtain ⟨x, hx, hasks | hanswers⟩ := h.queue m hmem
  · have htargets := targets_of_requests hr h hx hasks.1
    have hone : (w.bus.targets m).length ≤ 1 := by rw [htargets]; exact Nat.le_refl _
    have hreply := not_isReply_of_requests hasks.1
    obtain ⟨hcollector, -⟩ := deliverOne_request hqueue hreply
    refine h.handed hd hone (hseen m hmem) (fun i hi => .inr ⟨x, hx, hasks, ?_⟩)
      (hcollector ▸ h.table) (fun p hp => ?_) (load_deliverOne hqueue hone h.table)
    · rw [htargets] at hi
      exact (List.mem_singleton.mp hi).symm
    · obtain ⟨hp, hat⟩ := h.steps p hp
      rw [hcollector]
      refine hat.imp fun hu => hd.underway hu (fun hasks' => ?_) fun hanswers => ?_
      · obtain rfl := hr.eq_of_id hp hx
          ((id_of_requests hasks'.1).symm.trans (id_of_requests hasks.1))
        rw [htargets]
        have hlanes : w.bus.lanes.map (·.agent) = r.grounds.layout.lanes :=
          congrArg Bus.Layout.lanes h.layout
        have hlane := (hr.provides p.1 hp).lane
        rw [← hlanes, List.getElem?_map] at hlane
        obtain ⟨lane, hlane, -⟩ := Option.map_eq_some_iff.mp hlane
        exact ⟨List.mem_singleton.mpr rfl, lane, hlane⟩
      · have hcontra := hanswers.1.isReply
        rw [hreply] at hcontra
        cases hcontra
  · have hreplies := hanswers.1
    have hone := length_targets_of_addressee (b := w.bus) hreplies.toAgent
    obtain ⟨hcollector, -⟩ := deliverOne_reply hqueue hreplies.isReply
    rw [hreplies.reply, hreplies.requestId] at hcollector
    refine h.handed hd hone (hseen m hmem) (fun i hi => .inl hreplies.isReply)
      (hcollector ▸ h.table.receive _ _) (fun p hp => ?_) (load_deliverOne hqueue hone h.table)
    obtain ⟨hp, hat⟩ := h.steps p hp
    have hstanding : ∀ handle, w.deliverOne.bus.collector.standing handle =
        (w.bus.collector.standing handle).receive x.call.requestId x.reply := fun handle => by
      rw [hcollector]
      exact Collector.standing_receive h.table _ _ _
    by_cases hid : p.1.call.requestId = x.call.requestId
    · obtain rfl := hr.eq_of_id hp hx hid
      exact (hat.receive_own (hr.clear p.1 hp) hanswers.2 hstanding).imp False.elim
    · refine (hat.receive_other hid hstanding).imp fun hu => hd.underway hu (fun hasks => ?_)
        fun hanswers' => hid (hanswers'.1.requestId.symm.trans hreplies.requestId)
      have hcontra := hreplies.isReply
      rw [not_isReply_of_requests hasks.1] at hcontra
      cases hcontra

/-- All messages of the queue are delivered. -/
theorem Covers.deliverAll (hr : r.Sound) (h : r.Covers n w ps)
    (hseen : ∀ m ∈ w.bus.queue, ∀ x ∈ r.steps, x.Requests m → r.seen x) :
    r.Covers n w.deliverAll ps := by
  have hfold : ∀ (ms : List Message) (w : World), r.Covers n w ps →
      (∀ m ∈ w.bus.queue, ∀ x ∈ r.steps, x.Requests m → r.seen x) →
      r.Covers n (ms.foldl (fun w _ => w.deliverOne) w) ps := by
    intro ms
    induction ms with
    | nil => exact fun w h _ => h
    | cons _ ms ih =>
      intro w h hseen
      refine ih _ (h.deliverOne hr hseen) fun m hm => hseen m ?_
      rw [World.queue_deliverOne] at hm
      exact List.mem_of_mem_tail hm
  unfold World.deliverAll
  split
  · exact hfold _ w h hseen
  · exact h

/-- The periodic sweep runs. -/
theorem Covers.sweepNow (hr : r.Sound) (h : r.Covers n w ps) : r.Covers n w.sweepNow ps := by
  unfold World.sweepNow
  split
  · have hload := w.load_withCollector (Collector.pays_sweep w.now) (Collector.results_sweep w.now)
    exact
      { grounds := h.grounds
        queue := h.queue
        inbox := h.inbox
        handlings := h.handlings
        numbers := h.numbers
        distinct := h.distinct
        steps := fun p hp => by
          obtain ⟨hx, hat⟩ := h.steps p hp
          have hswept := hat.answerWhere (hr.clear p.1 hx)
            (fun k _ => Collector.standing_sweep h.table w.now k) of_decide_eq_true
          exact ⟨hx, hswept.imp fun hu => hu.grow rfl (fun _ h => h) rfl rfl⟩
        table := h.table.sweep w.now
        places := h.places
        seen := h.seen
        guards := h.guards.mono rfl (fun x _ => Nat.le_refl _) fun x _ h₁ hh hs => ⟨hh, hs⟩
        load := Nat.le_trans (Nat.add_le_add_right hload _) h.load }
  · exact h

/-- Nothing is different where the roster looks. -/
theorem Covers.congr {v : World} (h : r.Covers n w ps) (hgrounds : v.grounds = w.grounds)
    (hnow : v.now = w.now) (hbus : v.bus = w.bus) (hhandlings : v.handlings = w.handlings)
    (hnext : v.nextHandling = w.nextHandling) (hbreaker : v.breaker = w.breaker) {k : Nat}
    (hload : v.signals.length + n ≤ w.signals.length + k) : r.Covers k v ps where
  grounds := hgrounds.trans h.grounds
  queue := by
    rw [hbus, hnow]
    exact h.queue
  inbox := by
    rw [hbus, hnow]
    exact h.inbox
  handlings := by
    rw [hhandlings, hnow]
    exact h.handlings
  numbers := by
    rw [hhandlings, hnext]
    exact h.numbers
  distinct := h.distinct
  steps := fun p hp => by
    rw [hbus, hnow]
    exact ⟨(h.steps p hp).1, (h.steps p hp).2.imp fun hu =>
      hu.grow hnow (hbus ▸ List.Subset.refl _) (congrArg Bus.lanes hbus) hhandlings⟩
  table := hbus ▸ h.table
  places := by
    rw [hbus, hhandlings]
    exact h.places
  seen := by
    rw [hbus]
    exact h.seen
  guards := h.guards.mono hbreaker
    (fun x _ => by
      unfold Assignment.requests
      rw [hbus, hnow, hhandlings])
    fun x _ h₁ hh hs => ⟨hhandlings ▸ hh, hnow ▸ hs⟩
  load := by
    have hbound := h.load
    unfold World.load at hbound ⊢
    rw [hbus, hhandlings]
    omega

end Roster

/-! ## Turns of lanes -/

/-- A lane whose agent is there is emptied. -/
theorem World.tells_openInbox {w : World} {position : Nat}
    (hagent : ∀ lane, w.bus.lanes[position]? = some lane →
      ∃ actor, w.actors[lane.agent]? = some actor) :
    Tells w (w.openInbox position) ∧ ¬ (w.openInbox position).bus.HasMail position := by
  cases hlane : w.bus.lanes[position]? with
  | none =>
    rw [Roster.openInbox_of_none hlane]
    refine ⟨.refl w, fun ⟨lane, hsome, _⟩ => ?_⟩
    rw [hlane] at hsome
    cases hsome
  | some lane =>
    obtain ⟨actor, hactor⟩ := hagent lane hlane
    rw [Roster.openInbox_eq hlane hactor]
    refine ⟨⟨fun _ h => h, .inl, ?_, fun _ => .inl, fun _ => .inl⟩, ?_⟩
    · rintro i ⟨lane', hlane', hmail⟩
      rcases Roster.getElem?_emptied hlane' with ⟨hempty, -⟩ | ⟨hsame, -⟩
      · exact absurd hempty hmail
      · exact .inl ⟨lane', hsame, hmail⟩
    · rintro ⟨lane', hlane', hmail⟩
      rcases Roster.getElem?_emptied hlane' with ⟨hempty, -⟩ | ⟨-, hother⟩
      · exact hmail hempty
      · exact hother rfl

/-- A lane takes its messages, and then the handlings of it that are lined up have their turns. -/
theorem World.laneTurn_eq (w : World) (position : Nat) :
    w.laneTurn position =
      let opened := w.openInbox position
      ((opened.runnable.filter (·.1 == position)).map (·.2)).foldl handlingTurn
        { opened with runnable := opened.runnable.filter (!·.1 == position) } := by
  unfold laneTurn
  dsimp only
  rw [List.partition_eq_filter_filter]
  rfl

theorem World.tells_handlingTurn (w : World) (number : Nat) : Tells w (w.handlingTurn number) := by
  unfold handlingTurn
  split
  · exact .refl w
  · rename_i h _
    have htells := h.thread.tells_advance w
    split <;> rename_i heq <;> rw [heq] at htells <;> exact htells.trans (.of_bus rfl rfl)

theorem World.runnable_handlingTurn (w : World) (number : Nat) :
    (w.handlingTurn number).runnable = w.runnable := by
  unfold handlingTurn
  split
  · rfl
  · rename_i h _
    have hstage := congrArg Stage.runnable (h.thread.stage_advance w)
    split <;> rename_i heq <;> rw [heq] at hstage <;> exact hstage

namespace Roster

variable {r : Roster} {n : Nat} {w w' : World} {ps : List (Assignment × Branch)}

/-- A thread was told something that it waits for, or it cannot go on. -/
def Rests (w : World) (t : Thread Unit) : Prop := w.Stirs t ∨ t.Blocked w.bus w.now

/-- Some handlings have their turns: then they rest, or are over. -/
theorem Covers.handlingTurns (hr : r.Sound) (numbers : List Nat) (h : r.Covers n w ps) :
    r.Covers n (numbers.foldl World.handlingTurn w) ps ∧
      World.Tells w (numbers.foldl World.handlingTurn w) ∧
      (numbers.foldl World.handlingTurn w).runnable = w.runnable ∧
      ∀ h ∈ (numbers.foldl World.handlingTurn w).handlings,
        h ∈ w.handlings ∧ h.number ∉ numbers ∨
          Rests (numbers.foldl World.handlingTurn w) h.thread := by
  induction numbers generalizing w with
  | nil => exact ⟨h, .refl w, rfl, fun h hh => .inl ⟨hh, nofun⟩⟩
  | cons number numbers ih =>
    obtain ⟨hfirst, hone⟩ := h.handlingTurn hr number
    obtain ⟨hcovers, htells, hrunnable, hall⟩ := ih hfirst
    refine ⟨hcovers, (w.tells_handlingTurn number).trans htells,
      hrunnable.trans (w.runnable_handlingTurn number), fun h' hh => ?_⟩
    rcases hall h' hh with ⟨hmem, hother⟩ | hrests
    · rcases hone h' hmem with ⟨hold, hne⟩ | hblocked
      · exact .inl ⟨hold, fun hin => (List.mem_cons.mp hin).elim hne hother⟩
      · exact .inr (hblocked.tells htells (congrArg (·.2.1) (World.quiet_handlingTurns _ numbers)))
    · exact .inr hrests

/-- The handlings of new messages are lined up. -/
theorem exists_fresh (hr : r.Sound) (h : r.Covers n w ps) (position : Nat) :
    ∃ fresh : List Handling, (w.openInbox position).handlings = w.handlings ++ fresh ∧
      (w.openInbox position).runnable = w.runnable ++ fresh.map (fun h => (h.lane, h.number)) ∧
      ∀ h ∈ fresh, h.lane = position := by
  cases hlane : w.bus.lanes[position]? with
  | none =>
    rw [openInbox_of_none hlane]
    exact ⟨[], (List.append_nil _).symm, (List.append_nil _).symm, nofun⟩
  | some lane =>
    obtain ⟨actor, hactor⟩ := h.exists_actor hr hlane
    rw [openInbox_eq hlane hactor]
    refine ⟨_, rfl, rfl, fun h' hh => ?_⟩
    obtain ⟨-, -, hposition, -⟩ := mem_mailHandlings hh
    exact hposition

/-- A lane has its turn: it takes its messages and all its work goes on as far as it can. -/
theorem Covers.laneTurn (hr : r.Sound) (h : r.Covers n w ps) (position : Nat) :
    r.Covers n (w.laneTurn position) ps ∧ World.Tells w (w.laneTurn position) ∧
      ((w.laneTurn position).bus.HasMail position →
        .wake (.lane position) ∈ (w.laneTurn position).signals) ∧
      (∀ e ∈ (w.laneTurn position).runnable, e ∈ w.runnable ∧ e.1 ≠ position) ∧
      ∀ h ∈ (w.laneTurn position).handlings,
        h ∈ w.handlings ∧ ((h.lane, h.number) ∈ w.runnable →
          (h.lane, h.number) ∈ (w.laneTurn position).runnable) ∨
        Rests (w.laneTurn position) h.thread := by
  obtain ⟨hopens, hempty⟩ := World.tells_openInbox fun _ => h.exists_actor hr (i := position)
  obtain ⟨fresh, hhandlings, hrunnable, hfresh⟩ := exists_fresh hr h position
  have hopened := h.openInbox hr position
  generalize hw₁ : w.openInbox position = w₁ at *
  let mine := (w₁.runnable.filter (·.1 == position)).map (·.2)
  let others := w₁.runnable.filter (!·.1 == position)
  have hturn : w.laneTurn position =
      mine.foldl World.handlingTurn { w₁ with runnable := others } := by
    rw [World.laneTurn_eq, hw₁]
  have hothers : r.Covers n { w₁ with runnable := others } ps :=
    hopened.congr (v := { w₁ with runnable := others }) rfl rfl rfl rfl rfl rfl (Nat.le_refl _)
  obtain ⟨hcovers, htells, hsame, hall⟩ := hothers.handlingTurns hr mine
  rw [← hturn] at hcovers htells hsame hall
  have hmine : ∀ {e : Nat × Nat}, e ∈ w₁.runnable → e.1 = position → e.2 ∈ mine := fun he hlane =>
    List.mem_map_of_mem (List.mem_filter.mpr ⟨he, beq_iff_eq.mpr hlane⟩)
  have hlines : World.Tells w₁ { w₁ with runnable := others } := .of_bus rfl rfl
  refine ⟨hcovers, (hopens.trans hlines).trans htells, fun hmail => ?_, fun e he => ?_,
    fun h' hh => ?_⟩
  · exact (htells.inbox position hmail).resolve_left hempty
  · rw [hsame] at he
    obtain ⟨he, hother⟩ := List.mem_filter.mp he
    have hne : e.1 ≠ position := by simpa using hother
    refine ⟨?_, hne⟩
    rw [hrunnable] at he
    refine (List.mem_append.mp he).resolve_right fun he => ?_
    obtain ⟨h', hh, rfl⟩ := List.mem_map.mp he
    exact hne (hfresh h' hh)
  · rcases hall h' hh with ⟨hmem, hnone⟩ | hrests
    · have hmem : h' ∈ w₁.handlings := hmem
      rw [hhandlings] at hmem
      rcases List.mem_append.mp hmem with hmem | hmem
      · refine .inl ⟨hmem, fun hline => ?_⟩
        have hline : (h'.lane, h'.number) ∈ w₁.runnable := hrunnable ▸ List.mem_append_left _ hline
        have hne : h'.lane ≠ position := fun hlane => hnone (hmine hline hlane)
        rw [hsame]
        exact List.mem_filter.mpr ⟨hline, by simpa using hne⟩
      · refine absurd (hmine (e := (h'.lane, h'.number)) ?_ (hfresh h' hmem)) hnone
        rw [hrunnable]
        exact List.mem_append_right _ (List.mem_map_of_mem hmem)
    · exact .inr hrests

end Roster

end Switchboard
