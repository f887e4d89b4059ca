import Switchboard.Agent.Scripted
import Switchboard.Proofs.World.Watch

/-!
# What the user does to a network

The user makes agents, lets them come and go, starts and stops the delivery and runs programs, one
after another. Whatever his programs and the agents do, what is sent arrives.

* `World.Deed`, `World.deed` : what the user does; `World.passage_deeds` : it is a passage of the
  network; `World.watchful_deeds` : and whoever has mail is called;
* `World.delivers` : what is sent arrives.
-/

namespace Switchboard

namespace World

/-- What the user does to a network. -/
inductive Deed where
  | create (a : Agent)
  | register (agent : Nat)
  | unregister (name : String)
  | start
  | stop
  /-- Send, broadcast or ask whatever, until it is done and nothing else can happen. -/
  | run {α : Type} (p : Program α)

def deed (w : World) : Deed → World
  | .create a => (w.create a).1
  | .register agent => w.register agent
  | .unregister name => (w.unregister name).1
  | .start => w.start
  | .stop => w.stop
  | .run p => (w.run p).1

/-- What a deed shows by itself. -/
def shows (w : World) : Deed → List Happening
  | .register agent =>
    ((w.actors[agent]?).map fun actor => .registered actor.agent.name).toList
  | .unregister name => [.unregistered name]
  | .start => [.started]
  | .stop => [.stopped]
  | .create _ | .run _ => []

/-- What some deeds show, one after another. -/
def shown (w : World) : List Deed → List Happening
  | [] => []
  | d :: deeds => w.shows d ++ (w.deed d).shown deeds

variable {w : World}

theorem passage_deed (w : World) (d : Deed) :
    ∃ xs, w.Passage xs (w.deed d) ∧ xs.filter (·.isDeed) = w.shows d := by
  have hleads : ∀ {w'}, Leads w w' → ∃ xs, w.Passage xs w' ∧ xs.filter (·.isDeed) = [] := by
    rintro w' ⟨xs, hpassage, hquiet⟩
    exact ⟨xs, hpassage, List.filter_eq_nil_iff.mpr fun x hx => by simp [hquiet x hx]⟩
  cases d with
  | create a => exact hleads (.of_same rfl rfl rfl rfl rfl)
  | register agent =>
    cases hactor : w.actors[agent]? with
    | none =>
      have hsame : w.register agent = w := by
        unfold register
        rw [hactor]
      refine ⟨[], ?_, ?_⟩
      · rw [deed, hsame]
        exact .stay
      · simp [shows, hactor]
    | some actor =>
      refine ⟨_, .single (.registers hactor), ?_⟩
      simp [shows, hactor, Happening.isDeed]
  | unregister name => exact ⟨_, .single (.unregisters w name), rfl⟩
  | start => exact ⟨_, .single (.starts w), rfl⟩
  | stop => exact ⟨_, .single (.stops w), rfl⟩
  | run p => exact hleads (w.leads_run p)

/-- Whatever the user does is a passage of the network that shows it. -/
theorem passage_deeds (w : World) (deeds : List Deed) :
    ∃ xs, w.Passage xs (deeds.foldl deed w) ∧ xs.filter (·.isDeed) = w.shown deeds := by
  induction deeds generalizing w with
  | nil => exact ⟨[], .stay, rfl⟩
  | cons d deeds ih =>
    obtain ⟨xs, hxs, hshows⟩ := w.passage_deed d
    obtain ⟨ys, hys, hshown⟩ := ih (w.deed d)
    exact ⟨xs ++ ys, hxs.trans hys, by rw [List.filter_append, hshows, hshown]; rfl⟩

theorem watchful_register (h : w.Watchful) (agent : Nat) : (w.register agent).Watchful := by
  unfold register
  cases hactor : w.actors[agent]? with
  | none => exact h
  | some actor =>
    refine ⟨h.owned, fun lane hlane => ?_, h.queue, fun i hi => h.inbox i ?_⟩
    · have hlength : (w.modifyActor agent fun a => { a with attached := true }).actors.length =
          w.actors.length := List.length_modify ..
      rw [hlength]
      rcases List.mem_append.mp hlane with hold | hnew
      · exact h.agents lane hold
      · obtain rfl := List.mem_singleton.mp hnew
        exact (List.getElem?_eq_some_iff.mp hactor).1
    · obtain ⟨lane, hlane, hmail⟩ := hi
      have hlane : (w.bus.lanes ++ [⟨agent, []⟩])[i]? = some lane := hlane
      rw [List.getElem?_append] at hlane
      split at hlane
      · exact ⟨lane, hlane, hmail⟩
      · obtain rfl := List.mem_singleton.mp (List.mem_of_getElem? hlane)
        exact absurd rfl hmail

theorem watchful_unregister (h : w.Watchful) (name : String) :
    (w.unregister name).1.Watchful := by
  have hmail := w.mail_unregister name
  have hlanes : (w.unregister name).1.bus.lanes = w.bus.lanes := congrArg Bus.Mail.lanes hmail
  have hqueue : (w.unregister name).1.bus.queue = w.bus.queue := congrArg Bus.Mail.queue hmail
  refine ⟨h.owned, fun lane hlane => h.agents lane (hlanes ▸ hlane), fun hruns hmore => ?_,
    fun i hi => h.inbox i ?_⟩
  · exact h.queue hruns (hqueue ▸ hmore)
  · unfold Bus.HasMail at hi ⊢
    rwa [hlanes] at hi

theorem watchful_start (h : w.Watchful) : w.start.Watchful := by
  unfold start
  split
  · exact h
  · refine ⟨h.owned, h.agents, fun _ _ => .inr ?_, fun i hi => (h.inbox i hi).imp id ?_⟩
    · exact List.mem_append_right _ List.mem_cons_self
    · exact fun hmem => List.mem_append_left _ hmem

theorem watchful_deed (h : w.Watchful) (d : Deed) : (w.deed d).Watchful := by
  cases d with
  | create a =>
    refine h.of_calls rfl rfl rfl ?_ fun _ hcalled => hcalled
    simp [deed, create]
  | register agent => exact watchful_register h agent
  | unregister name => exact watchful_unregister h name
  | start => exact watchful_start h
  | stop =>
    refine ⟨h.owned, h.agents, fun hruns => ?_, h.inbox⟩
    cases hruns
  | run p => exact watchful_run h p

theorem watchful_deeds (h : w.Watchful) (deeds : List Deed) : (deeds.foldl deed w).Watchful := by
  induction deeds generalizing w with
  | nil => exact h
  | cons d deeds ih => exact ih (watchful_deed h d)

/-- **What is sent arrives.** However the steps of a network follow each other, the messages that
begin to be handled by a registered agent are those that were taken off the queue for it while it had
its name, in the order in which they were accepted; what is in the queue at any time is taken later,
before all that is accepted later. Whatever the user does is such a passage. Whenever nobody is lined
up afterwards each agent has begun to handle all that was taken for it, and if messages are being
delivered all that was accepted has been taken; and while a run goes on nothing has to wait longer
than the hosts that are lined up. -/
theorem delivers (settings : Settings) :
    (∀ xs w, (opened settings).Passage xs w → Delivered xs w ∧
      ∀ ys w', w.Passage ys w' → w.bus.queue ++ acceptedIn ys = takenIn ys ++ w'.bus.queue) ∧
    ∀ deeds : List Deed,
      let w := deeds.foldl deed (opened settings)
      (∃ xs, (opened settings).Passage xs w ∧
        xs.filter (·.isDeed) = (opened settings).shown deeds) ∧
      (w.ready = [] → w.signals = [] → ∀ xs, (opened settings).Passage xs w →
        (∀ i, begunOn xs i = dueOn xs i) ∧ (w.running = true → takenIn xs = acceptedIn xs)) ∧
      ∀ {α : Type} (r : Run α), r.world = w →
        ∀ n, (∃ ys, w.Passage ys (r.go n).world) ∧ (r.go n).Serves := by
  refine ⟨fun xs w h => ⟨h.delivered, fun ys w' h' => ?_⟩, fun deeds => ?_⟩
  · have hall := (h.trans h').delivered.queue
    rw [acceptedIn_append, takenIn_append, h.delivered.queue, List.append_assoc,
      List.append_assoc] at hall
    exact List.append_cancel_left hall
  have hwatchful := watchful_deeds (.opened settings) deeds
  refine ⟨passage_deeds _ deeds, fun hready hsignals xs h => ?_, fun r hr n => ?_⟩
  · obtain ⟨hlanes, hqueue⟩ := hwatchful.no_mail hready hsignals
    refine ⟨fun i => ?_, fun hruns => ?_⟩
    · have hdue := h.delivered.lanes i
      rwa [hlanes, List.append_nil] at hdue
    · have haccepted := h.delivered.queue
      rw [hqueue hruns, List.append_nil] at haccepted
      exact haccepted.symm
  · rw [← hr] at hwatchful ⊢
    obtain ⟨ys, hpassage, -⟩ := r.leads_go n
    exact ⟨⟨ys, hpassage⟩, Run.serves (Run.watchful_go hwatchful n)⟩

/-- Two requests are sent to an agent that breaks off at the first one; then the delivery is
started. -/
def interrupted : List Deed :=
  let breaks : Behavior := { ending := .breakOff "the driver crashed" }
  let ask (requestId : String) : Program (List String) :=
    (Network.request "u" "a" .null requestId).program
  [.create (Agent.scripted "p" ["a"] [breaks, {}] []), .register 0, .run (ask "r"), .run (ask "s"),
    .start, .run (.done ())]

/-- The request after the one at which the agent broke off is handled, too. -/
theorem delivers_interrupted :
    let w := interrupted.foldl deed (opened {})
    w.ready = [] ∧ w.signals = [] ∧
      ∃ xs, (opened {}).Passage xs w ∧ (∀ i, begunOn xs i = dueOn xs i) ∧
        takenIn xs = acceptedIn xs ∧ (begunIn xs).length = 2 := by
  intro w
  have hready : w.ready = [] ∧ w.signals = [] := by decide +kernel
  have hruns : w.running = true ∧ w.nextHandling = 2 := by decide +kernel
  obtain ⟨hall, hdeeds⟩ := delivers {}
  obtain ⟨⟨xs, hpassage, -⟩, hrest, -⟩ := hdeeds interrupted
  obtain ⟨hbegun, htaken⟩ := hrest hready.1 hready.2 xs hpassage
  refine ⟨hready.1, hready.2, xs, hpassage, hbegun, htaken hruns.1, ?_⟩
  rw [← (hall xs w hpassage).1.nextHandling]
  exact hruns.2

end World

end Switchboard
