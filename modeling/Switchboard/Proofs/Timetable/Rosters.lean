import Mathlib.Algebra.GroupWithZero.Nat
import Switchboard.Proofs.Collect.Backlog
import Switchboard.Proofs.Timetable.Handlers
import Switchboard.Proofs.World.Breakers
import Switchboard.Proofs.World.Grounds
import Switchboard.Proofs.World.Notices
import Switchboard.Proofs.World.Places

/-!
# Who is at work for a request

Of each step that was dispatched there is one thing under way until its reply is delivered: its
request, the handling of the request, or the reply. All that is under way is on time. No request is
served twice, so that the breaker behind which it is served is as it was before.

* `World.Grounds.Provides` : an agent provides a capability, and nobody else does;
* `Assignment.Serving`, `Assignment.Underway` : a request is being served; something of a step is
  under way;
* `Assignment.Stands`, `Assignment.At` : how the collection of a step stands, and the step itself;
* `World.load` : how much can happen yet without another step;
* `Assignment.requests` : how many requests of a step there are; `Assignment.Unserved` : nobody has
  begun to serve them; `Roster.Guards`, `Roster.Guards.mono` : there is at most one, and until it is
  served the breaker of the step is as it was;
* `Roster` : the steps that were dispatched on a network; `Roster.Covers` : all that is under way
  belongs to them and is on time, and the places of the queue are accounted for.
-/

namespace Switchboard

/-- One agent provides a capability, and its handler takes its time. -/
structure World.Grounds.Provides (g : World.Grounds) (capability : String) (post : Post) :
    Prop where
  providers : g.layout.directory.providers capability = [post.name]
  member : g.layout.members.find? (·.name == post.name) = some ⟨post.name, post.agent, post.lane⟩
  lane : g.layout.lanes[post.lane]? = some post.agent
  agent : ∃ a, g.agents[post.agent]? = some (a, true) ∧ a.name = post.name ∧
    a.Performs post.agent capability post.admission post.delay post.verdict

namespace Assignment

variable (x : Assignment)

/-- A message is the request of the step, at the time at which it is dispatched. -/
def Asks (now : Nat) (m : Message) : Prop := x.Requests m ∧ now = x.time

/-- A message is the reply to the step, at the time at which the handler ends. -/
def Answers (now : Nat) (m : Message) : Prop := x.Replies m ∧ now = x.due

/-- All permits are for the breaker of the step. -/
def Permits (b : Belongings) : Prop := ∀ p ∈ b.permits, x.Behind p.agent p.capability

/-- A thread serves the request of the step: it is about to begin, or pauses, or stands in line with
the reply. -/
inductive Serving (now : Nat) : Thread Unit → Prop
  | begun {code : Program Unit} (h : code.Starts x) (hnow : now = x.time) :
      Serving now { code }
  | pausing {ms d time : Nat} {next : (Effect.plain (.pause ms)).Answer → Program Unit}
      (h : (next ()).Serves x d) (hd : time + d = x.due) (hnow : now ≤ time) (hms : ms ≠ 0)
      (number : Nat) {b : Belongings} (hb : x.Permits b) :
      Serving now ⟨.ask (.plain (.pause ms)) next, { alarm := some ⟨time, number⟩ }, none, b⟩
  | inLine {m : Message} {next : (Effect.plain (.send m none)).Answer → Program Unit}
      (hm : x.Replies m) (h : ∀ sent, (next sent).Closing) (hnow : now = x.due) (ticket : Nat)
      {b : Belongings} (hb : x.Permits b) :
      Serving now ⟨.ask (.plain (.send m none)) next, { ticket := some ticket }, none, b⟩

/-- Something of the step is under way. -/
inductive Underway (w : World) : Prop
  | asking {m : Message} (h : x.Asks w.now m) (hm : m ∈ w.bus.queue)
  | mailed {m : Message} (h : x.Asks w.now m) {lane : Lane}
      (hlane : w.bus.lanes[x.post.lane]? = some lane) (hm : m ∈ lane.inbox)
  | serving {h : Handling} (hserving : x.Serving w.now h.thread) (hh : h ∈ w.handlings)
  | answering {m : Message} (h : x.Answers w.now m) (hm : m ∈ w.bus.queue)

/-- How the collection of the step stands: it is answered as expected, at the end of the step, or it
waits and is not out of time. -/
def Stands (now : Nat) (c : Collector) (handle : Nat) : Prop :=
  (∃ a, c.standing handle = .answered a ∧ x.call.outcome a = x.outcome ∧ now = x.stop) ∨
    c.standing handle = .collecting x.collection ∧ now ≤ x.limit ∧ now ≤ x.due

/-- How the step is getting on: it has not begun; it sends its request; it waits for its collection,
and if that waits something of the step is under way; or it has ended. -/
inductive At (now : Nat) (c : Collector) (underway : Prop) : Branch → Prop
  | fresh (hnow : now = x.time) : At now c underway (.going { code := x.call.run })
  | sending {m : Message} {next : (Operation.send m none).Answer → Routine StepOutcome}
      {handle : Nat} (hm : x.Requests m)
      (hnext : ∀ sent, next sent = x.call.await (x.pending handle)) (hnow : now = x.time)
      (h : x.Stands now c handle) (ticket : Option Nat) :
      At now c underway (.going ⟨.ask (.send m none) next, { ticket }⟩)
  | waiting {handle : Nat} (h : x.Stands now c handle)
      (hunderway : c.standing handle = .collecting x.collection → underway)
      {alarm : Option Alarm} (halarm : ∀ a ∈ alarm, a.time = x.limit) :
      At now c underway (.going ⟨x.call.await (x.pending handle), { alarm }⟩)
  | ended (h : x.stop ≤ now) : At now c underway (.ended x.outcome)

variable {x} {now : Nat} {w w' : World} {c c' : Collector} {handle : Nat} {b : Branch}
  {underway underway' : Prop}

theorem time_le_stop (x : Assignment) : x.time ≤ x.stop := Nat.le_add_right _ _

theorem time_le_due (x : Assignment) : x.time ≤ x.due := Nat.le_add_right _ _

theorem Stands.le_stop (h : x.Stands now c handle) : now ≤ x.stop := by
  rcases h with ⟨a, -, -, hnow⟩ | ⟨-, hlimit, hdue⟩
  · exact Nat.le_of_eq hnow
  · unfold limit at hlimit
    unfold due at hdue
    unfold stop
    omega

/-- A step that is under way is not past its end. -/
theorem At.le_stop {s : Strand StepOutcome} (h : x.At now c underway (.going s)) :
    now ≤ x.stop := by
  cases h with
  | fresh hnow => exact hnow ▸ x.time_le_stop
  | sending _ _ hnow => exact hnow ▸ x.time_le_stop
  | waiting h => exact h.le_stop

theorem At.imp (h : x.At now c underway b) (hunderway : underway → underway') :
    x.At now c underway' b := by
  cases h with
  | fresh hnow => exact .fresh hnow
  | sending hm hnext hnow h ticket => exact .sending hm hnext hnow h ticket
  | waiting h hmore halarm => exact .waiting h (fun hs => hunderway (hmore hs)) halarm
  | ended h => exact .ended h

/-! ## Collections -/

theorem Stands.given (h : x.Stands now c handle) : c.standing handle ≠ .unknown := by
  rcases h with ⟨a, ha, -⟩ | ⟨hc, -⟩
  · rw [ha]
    exact nofun
  · rw [hc]
    exact nofun

/-- A collection that is out of time is answered without a reply. -/
theorem finish_of_collecting (h : c.Sound) (hs : c.standing handle = .collecting x.collection) :
    (c.finish (x.pending handle)).2 = x.collection.conclude true := by
  have hgiven := (Collector.standing_ne_unknown_iff h).mp (by rw [hs]; exact nofun)
  have hanswered := Collector.standing_finish (p := x.pending handle) h hgiven fun col hcol => by
    obtain rfl := Standing.collecting.inj (hs.symm.trans hcol)
    rfl
  have hexpired := Collector.standing_expire h x.call.requestId handle
  have hid : (x.collection.requestId == x.call.requestId) = true := beq_self_eq_true _
  rw [hs, Standing.answerWhere, if_pos hid] at hexpired
  exact (Standing.answered.inj (hexpired.symm.trans hanswered)).symm

/-- When collections are answered with what they have, this one is if it is out of time. -/
theorem Stands.answerWhere (hclear : x.Clear) (h : x.Stands now c handle)
    {f : Collection → Bool}
    (hc : c'.standing handle = (c.standing handle).answerWhere true f)
    (hf : f x.collection = true → x.limit ≤ now) : x.Stands now c' handle := by
  rcases h with ⟨a, ha, houtcome, hnow⟩ | ⟨hcollecting, hlimit, hdue⟩
  · rw [ha] at hc
    exact .inl ⟨a, hc, houtcome, hnow⟩
  · rw [hcollecting, Standing.answerWhere] at hc
    split at hc
    · rename_i hselected
      have hend := hf hselected
      unfold limit at hend hlimit
      unfold due at hdue
      have hlate : x.budget < x.post.delay := by
        unfold Clear at hclear
        omega
      refine .inl ⟨_, hc, outcome_of_silence hlate, ?_⟩
      unfold stop
      omega
    · exact .inr ⟨hc, hlimit, hdue⟩

/-- A collection that waits has waited before. -/
theorem collecting_of_answerWhere {f : Collection → Bool} {col : Collection}
    (hc : c'.standing handle = (c.standing handle).answerWhere true f)
    (h : c'.standing handle = .collecting col) : c.standing handle = .collecting col := by
  rw [h] at hc
  cases hs : c.standing handle with
  | collecting col' =>
    rw [hs, Standing.answerWhere] at hc
    split at hc
    · cases hc
    · exact hc.symm
  | unknown =>
    rw [hs] at hc
    cases hc
  | answered a =>
    rw [hs] at hc
    cases hc

/-- When collections are answered with what they have, nothing else changes for a step. -/
theorem At.answerWhere (hclear : x.Clear) (h : x.At now c underway b) {f : Collection → Bool}
    (hc : ∀ handle, c.standing handle ≠ .unknown →
      c'.standing handle = (c.standing handle).answerWhere true f)
    (hf : f x.collection = true → x.limit ≤ now) : x.At now c' underway b := by
  cases h with
  | fresh hnow => exact .fresh hnow
  | sending hm hnext hnow h ticket =>
    exact .sending hm hnext hnow (h.answerWhere hclear (hc _ h.given) hf) ticket
  | waiting h hmore halarm =>
    have hstanding := hc _ h.given
    exact .waiting (h.answerWhere hclear hstanding hf)
      (fun hs => hmore (collecting_of_answerWhere hstanding hs)) halarm
  | ended h => exact .ended h

/-- The reply to the step answers its collection. -/
theorem Stands.receive_own (hclear : x.Clear) (h : x.Stands now c handle) (hnow : now = x.due)
    (hc : c'.standing handle = (c.standing handle).receive x.call.requestId x.reply) :
    x.Stands now c' handle ∧ c'.standing handle ≠ .collecting x.collection := by
  rcases h with ⟨a, ha, houtcome, hstop⟩ | ⟨hcollecting, hlimit, -⟩
  · rw [ha] at hc
    refine ⟨.inl ⟨a, hc, houtcome, hstop⟩, ?_⟩
    rw [hc]
    intro heq
    cases heq
  · have hin : x.post.delay < x.budget := by
      unfold limit at hlimit
      unfold due at hnow
      unfold Clear at hclear
      omega
    have hid : (x.collection.requestId == x.call.requestId) = true := beq_self_eq_true _
    rw [hcollecting, Standing.receive, if_pos hid, if_pos isComplete_receive] at hc
    refine ⟨.inl ⟨_, hc, outcome_of_reply hin, ?_⟩, ?_⟩
    · unfold stop
      unfold due at hnow
      omega
    · rw [hc]
      intro heq
      cases heq

/-- The reply to the step arrives, and then nothing of it is under way any longer. -/
theorem At.receive_own (hclear : x.Clear) (h : x.At now c underway b) (hnow : now = x.due)
    (hc : ∀ handle, c'.standing handle =
      (c.standing handle).receive x.call.requestId x.reply) : x.At now c' False b := by
  cases h with
  | fresh hnow => exact .fresh hnow
  | sending hm hnext htime h ticket =>
    exact .sending hm hnext htime (h.receive_own hclear hnow (hc _)).1 ticket
  | waiting h hmore halarm =>
    obtain ⟨hstands, hanswered⟩ := h.receive_own hclear hnow (hc _)
    exact .waiting hstands (fun hs => absurd hs hanswered) halarm
  | ended h => exact .ended h

/-- A reply to another step does not matter. -/
theorem Stands.standing_receive {requestId : String} (hid : x.call.requestId ≠ requestId)
    (r : Reply) (h : x.Stands now c handle) :
    (c.standing handle).receive requestId r = c.standing handle := by
  rcases h with ⟨a, ha, -⟩ | ⟨hcollecting, -⟩
  · rw [ha]
    rfl
  · have hother : (x.collection.requestId == requestId) = false := beq_eq_false_iff_ne.mpr hid
    rw [hcollecting, Standing.receive, hother]
    rfl

theorem At.receive_other {requestId : String} (hid : x.call.requestId ≠ requestId) {r : Reply}
    (h : x.At now c underway b)
    (hc : ∀ handle, c'.standing handle = (c.standing handle).receive requestId r) :
    x.At now c' underway b := by
  have hstands : ∀ {handle}, x.Stands now c handle →
      c'.standing handle = c.standing handle := fun h => (hc _).trans (h.standing_receive hid r)
  have hstill : ∀ {handle}, x.Stands now c handle → x.Stands now c' handle := fun h => by
    unfold Stands
    rwa [hstands h]
  cases h with
  | fresh hnow => exact .fresh hnow
  | sending hm hnext htime h ticket => exact .sending hm hnext htime (hstill h) ticket
  | waiting h hmore halarm =>
    exact .waiting (hstill h) (fun hs => hmore ((hstands h).symm.trans hs)) halarm
  | ended h => exact .ended h

end Assignment

/-! ## How much can happen yet -/

/-- What a message in the queue can lead to: it wakes work and its lane, and a request is served. -/
def Message.load (m : Message) : Nat := if m.kind.isReply then 3 else 7

/-- What a message in a lane can lead to: a request is served, and its reply sent. -/
def Message.mailLoad (m : Message) : Nat := if m.kind.isReply then 0 else 4

/-- What the handling of a message can lead to. -/
def Program.load : Program Unit → Nat
  | .done _ | .crash _ | .ask (.plain (.noteReply ..)) _ => 0
  | .ask (.plain (.note _ m)) _ => m.mailLoad
  | _ => 4

/-- What a step can lead to: it registers a collection and sends its request. -/
def Branch.load : Branch → Nat
  | .ended _ | .going ⟨.ask (.collected _) _, _⟩ => 0
  | .going ⟨.ask (.send ..) _, _⟩ => 8
  | .going _ => 9

/-- What the messages in lanes count together. -/
def mailSum (f : Message → Nat) (lanes : List Lane) : Nat :=
  (lanes.map fun lane => (lane.inbox.map f).sum).sum

/-- How much can happen yet without another step. -/
def World.load (w : World) : Nat :=
  w.signals.length + (w.bus.queue.map Message.load).sum + mailSum Message.mailLoad w.bus.lanes
    + (w.handlings.map (·.thread.code.load)).sum + w.bus.collector.backlog

namespace World

variable (w : World)

/-- An answer that is put aside takes a collection off the backlog. -/
theorem load_withCollector {c : Collector} {more : Nat} (h : Collector.Pays more w.bus.collector c)
    (hresults : w.bus.collector.results <+: c.results) :
    (w.withCollector c).load ≤ w.load + more := by
  have hlength := hresults.length_le
  unfold Collector.Pays at h
  unfold load withCollector signalAll
  dsimp only
  rw [List.length_append, List.length_map, List.length_drop]
  omega

/-- A message that enters the queue wakes the delivery. -/
theorem load_accept (s : Scene) (gate : Gate) (m : Message) :
    (s.accept gate m).world.load = s.world.load + (m.load + 1) := by
  unfold load Scene.accept signal Bus.accept
  dsimp only
  rw [List.length_append, List.map_append, List.sum_append]
  simp only [List.length_singleton, List.map_singleton, List.sum_singleton]
  omega

end World

/-- A step has not sent its request yet. -/
def Branch.Unsent (b : Branch) : Prop := 0 < b.load

/-! ## Requests -/

/-- The number of requests that a step has not sent yet. -/
def Branch.unsent (b : Branch) : Nat := min b.load 1

namespace Assignment

variable (x : Assignment)

/-- What a message counts: one if it asks for the step. -/
def asked (m : Message) : Nat :=
  if m.kind.isReply = false ∧ m.requestId = x.call.requestId then 1 else 0

open Classical in
/-- What a thread counts: one if it serves the request of the step. -/
noncomputable def served (now : Nat) (t : Thread Unit) : Nat := if x.Serving now t then 1 else 0

/-- How many requests of the step there are: not sent yet, on their way, or being served. -/
noncomputable def requests (w : World) (ps : List (Assignment × Branch)) : Nat :=
  (w.bus.queue.map x.asked).sum + mailSum x.asked w.bus.lanes
    + (w.handlings.map fun h => x.served w.now h.thread).sum
    + (ps.map fun p => if p.1.call.requestId = x.call.requestId then p.2.unsent else 0).sum

/-- The step has a request, and nobody has begun to serve it. -/
structure Unserved (w : World) (ps : List (Assignment × Branch)) : Prop where
  requests : 0 < x.requests w ps
  begun : ∀ h ∈ w.handlings, x.Serving w.now h.thread → h.thread.parking = {}

variable {x} {m : Message} {now : Nat} {t : Thread Unit}

theorem asked_of_id_ne (h : m.requestId ≠ x.call.requestId) : x.asked m = 0 :=
  if_neg fun ⟨_, hid⟩ => h hid

theorem asked_of_isReply (h : m.kind.isReply = true) : x.asked m = 0 :=
  if_neg fun ⟨hreply, _⟩ => by rw [h] at hreply; cases hreply

theorem asked_le_one (x : Assignment) (m : Message) : x.asked m ≤ 1 := by
  unfold asked
  split <;> decide

theorem sum_asked_le (x : Assignment) (ms : List Message) : (ms.map x.asked).sum ≤ ms.length := by
  induction ms with
  | nil => exact Nat.le_refl 0
  | cons m ms ih =>
    have hfirst := x.asked_le_one m
    rw [List.map_cons, List.sum_cons, List.length_cons]
    omega

theorem sum_asked_eq_zero (x : Assignment) {ms : List Message} (h : ∀ m ∈ ms, x.asked m = 0) :
    (ms.map x.asked).sum = 0 :=
  List.sum_eq_zero_iff_forall_eq_nat.mpr (List.forall_mem_map.mpr h)

theorem served_of_serving (h : x.Serving now t) : x.served now t = 1 := if_pos h

theorem served_of_not_serving (h : ¬ x.Serving now t) : x.served now t = 0 := if_neg h

theorem serving_of_served (h : 0 < x.served now t) : x.Serving now t := by
  by_contra hnot
  rw [served_of_not_serving hnot] at h
  exact Nat.lt_irrefl 0 h

theorem served_le {k : Nat} (h : x.Serving now t → 1 ≤ k) : x.served now t ≤ k := by
  by_cases hserving : x.Serving now t
  · rw [served_of_serving hserving]
    exact h hserving
  · rw [served_of_not_serving hserving]
    exact Nat.zero_le _

end Assignment

/-- The handling of a reply, which nobody else notices. -/
structure Thread.Noting (t : Thread Unit) : Prop where
  code : t.code.Closing
  load : t.code.load = 0
  parking : t.parking = {}
  wave : t.wave = none
  permits : t.belongings.permits = []

/-! ## Rosters -/

/-- Steps that were dispatched on a network, which of them have been seen in its queue, how many
places that has, and how the breakers were in the beginning. -/
structure Roster where
  grounds : World.Grounds
  breakers : Nat → String → Option NamedBreaker
  places : Nat
  steps : List Assignment
  seen : Assignment → Prop

namespace Roster

/-- The user keeps the network, which is running, each step asks the agent that provides its
capability, whose breaker gave the answer that is expected in the beginning, and its request has an id
of its own. -/
structure Sound (r : Roster) : Prop where
  owned : r.grounds.owned = true
  running : r.grounds.running = true
  gone : r.grounds.gone = false
  places : 0 < r.places
  lanes : ∀ a ∈ r.grounds.layout.lanes, a < r.grounds.agents.length
  provides : ∀ x ∈ r.steps, r.grounds.Provides x.call.capability x.post
  free : ∀ x ∈ r.steps, x.call.assignedAgent = none
  clear : ∀ x ∈ r.steps, x.Clear
  ids : (r.steps.map (·.call.requestId)).Nodup
  capabilities : (r.steps.map (·.call.capability)).Nodup
  admits : ∀ x ∈ r.steps, NamedBreaker.admission
    (r.breakers x.post.agent x.call.capability) x.time = x.post.admission

theorem Sound.eq_of_id {r : Roster} (h : r.Sound) {x y : Assignment} (hx : x ∈ r.steps)
    (hy : y ∈ r.steps) (hid : x.call.requestId = y.call.requestId) : x = y :=
  List.inj_on_of_nodup_map h.ids hx hy hid

theorem Sound.eq_of_behind {r : Roster} (h : r.Sound) {x y : Assignment} (hx : x ∈ r.steps)
    (hy : y ∈ r.steps) {agent : Nat} {capability : String} (hbx : x.Behind agent capability)
    (hby : y.Behind agent capability) : x = y :=
  List.inj_on_of_nodup_map h.capabilities hx hy (hbx.2.trans hby.2.symm)

/-- Each step has one request at most, and until somebody begins to serve it the breaker of the step is
as it was in the beginning. -/
structure Guards (r : Roster) (w : World) (ps : List (Assignment × Branch)) : Prop where
  once : ∀ x ∈ r.steps, x.requests w ps ≤ 1
  breakers : ∀ agent capability,
    (∀ x ∈ r.steps, x.Behind agent capability → x.Unserved w ps) →
      w.breaker agent capability = r.breakers agent capability

/-- No request is added, no breaker is changed, and who has begun to serve a request goes on. -/
theorem Guards.mono {r : Roster} {w w' : World} {ps ps' : List (Assignment × Branch)}
    (h : r.Guards w ps) (hbreaker : w'.breaker = w.breaker)
    (hrequests : ∀ x ∈ r.steps, x.requests w' ps' ≤ x.requests w ps)
    (hserving : ∀ x ∈ r.steps, ∀ h₁ ∈ w.handlings, x.Serving w.now h₁.thread →
      h₁ ∈ w'.handlings ∧ x.Serving w'.now h₁.thread) : r.Guards w' ps' where
  once := fun x hx => Nat.le_trans (hrequests x hx) (h.once x hx)
  breakers := fun agent capability hall => by
    rw [hbreaker]
    refine h.breakers agent capability fun x hx hbehind => ?_
    obtain ⟨hpos, hbegun⟩ := hall x hx hbehind
    refine ⟨Nat.lt_of_lt_of_le hpos (hrequests x hx), fun h₁ hh hs => ?_⟩
    obtain ⟨hh', hs'⟩ := hserving x hx h₁ hh hs
    exact hbegun h₁ hh' hs'

theorem not_isReply_of_requests {x : Assignment} {m : Message} (hm : x.Requests m) :
    m.kind.isReply = false := by
  obtain ⟨stamp, rfl⟩ := hm
  rfl

theorem id_of_requests {x : Assignment} {m : Message} (hm : x.Requests m) :
    m.requestId = x.call.requestId := by
  obtain ⟨stamp, rfl⟩ := hm
  rfl

/-- The numbers in line of all work. -/
def tickets (hs : List Handling) (ps : List (Assignment × Branch)) : List Nat :=
  hs.filterMap (·.thread.parking.ticket) ++ ps.filterMap (·.2.parking.ticket)

/-- All that is under way belongs to steps of the roster and is on time; the places of the queue are
accounted for; no request is served twice; and no more can happen than a bound says. Beside the world
there are the steps of the wave that the user waits for. -/
structure Covers (r : Roster) (bound : Nat) (w : World) (ps : List (Assignment × Branch)) :
    Prop where
  grounds : w.grounds = r.grounds
  queue : ∀ m ∈ w.bus.queue, ∃ x ∈ r.steps, x.Asks w.now m ∨ x.Answers w.now m
  inbox : ∀ i lane, w.bus.lanes[i]? = some lane → ∀ m ∈ lane.inbox,
    m.kind.isReply = true ∨ ∃ x ∈ r.steps, x.Asks w.now m ∧ x.post.lane = i
  handlings : ∀ h ∈ w.handlings,
    h.thread.Noting ∨ ∃ x ∈ r.steps, x.Serving w.now h.thread
  numbers : (w.handlings.map (·.number)).Nodup ∧ ∀ h ∈ w.handlings, h.number < w.nextHandling
  distinct : (ps.map (·.1)).Nodup
  steps : ∀ p ∈ ps, p.1 ∈ r.steps ∧ p.1.At w.now w.bus.collector (p.1.Underway w) p.2
  table : w.bus.collector.Sound
  places : w.bus.gate.Accounts w.bus.queue.length r.places (tickets w.handlings ps)
  seen : ∀ x ∈ r.steps, r.seen x ∨ (∃ m ∈ w.bus.queue, x.Requests m) ∨
    ∃ b, (x, b) ∈ ps ∧ b.Unsent
  guards : r.Guards w ps
  load : w.load + (ps.map (·.2.load)).sum ≤ bound

end Roster

end Switchboard
