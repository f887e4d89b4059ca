import Switchboard.Proofs.Bus.Providers
import Switchboard.Proofs.Flow.Courses
import Switchboard.Proofs.Orchestrate.Deadlines
import Switchboard.Proofs.World.Notices

/-!
# Requests to the providers of a capability

Whoever asks for a capability reads the list of its providers and sends one request to each. He may
wait for a place in the queue before each of them, and for nothing else.

* `Network.Asked` : messages that ask agents, one after another, for the same;
* `Network.course_request` : how far a request has come after some exchanges;
* `Network.advance_request` : with places for all messages it ends at once;
* `World.registry_of_changes` : the directory after agents came and went, and whom a request asks.
-/

namespace Switchboard

/-- The messages that were sent in some exchanges. -/
def sentIn (xs : List Answered) : List Message :=
  xs.filterMap fun x => match x.operation with
    | .send m _ => some m
    | _ => none

/-- There is a place in the queue for some work: a free one, or the one that is kept for it. -/
def Scene.HasPlace (s : Scene) : Prop :=
  match s.parking.ticket with
  | none => s.world.bus.gate.places ≠ 0
  | some k => k ∈ s.world.bus.gate.granted

/-- Who sends without limit waits until there is a place, and then his message is the last one in
the queue. -/
theorem Scene.attempt_send {s : Scene} (h : s.parking = {} ∨ ∃ k, s.parking = { ticket := some k })
    (m : Message) :
    s.HasPlace ∧ (∃ gate, s.attempt (.send m none) = (s.accept gate m, some true)) ∨
    ¬ s.HasPlace ∧ ∃ s', s.attempt (.send m none) = (s', none) ∧
      s'.world.bus.queue = s.world.bus.queue := by
  unfold HasPlace
  rw [attempt]
  rcases h with h | ⟨k, h⟩
  · have hticket : s.parking.ticket = none := by rw [h]
    rw [hticket]
    cases htake : s.world.bus.gate.take? with
    | some gate =>
      refine .inl ⟨fun hfull => ?_, gate, send_free hticket htake m⟩
      simp [Gate.take?, hfull] at htake
    | none =>
      refine .inr ⟨fun hfree => ?_, _, send_full hticket htake m, rfl⟩
      simp [Gate.take?, hfree] at htake
  · have hticket : s.parking.ticket = some k := by rw [h]
    rw [hticket]
    cases hclaim : s.world.bus.gate.claim? k with
    | some gate =>
      refine .inl ⟨?_, gate, send_kept hticket hclaim m⟩
      unfold Gate.claim? at hclaim
      split at hclaim
      · rename_i hkept
        exact List.contains_iff_mem.mp hkept
      · cases hclaim
    | none =>
      refine .inr ⟨fun hkept => ?_, _, send_waits h hclaim m, rfl⟩
      simp [Gate.claim?, hkept] at hclaim

namespace Network

variable {sender c requestId : String} {data : Json} {names : List String}

/-- Messages that ask agents for a capability, one after another, with the same data under the same
request id. -/
def Asked (sender c : String) (data : Json) (requestId : String) (ms : List Message)
    (names : List String) : Prop :=
  List.Forall₂ (fun m name => ∃ stamp, m = .request stamp sender name c data requestId) ms names

/-- How far work has come that sends requests to agents: some were sent, in the order of the agents,
and it is at the next one unless these were all. -/
theorem course_sendRequests {β : Type} {b : β} {xs : List Answered} {r : Routine β}
    (h : Routine.Course
      ((sendRequests sender c data requestId names).bind fun _ => .done b) xs r) :
    ∃ n ≤ names.length, Asked sender c data requestId (sentIn xs) (names.take n) ∧
      (n = names.length ∧ r = .done b ∨
        n < names.length ∧ ∃ o next, r = .ask o next ∧ (o = .stamp ∨ ∃ m, o = .send m none)) := by
  induction names generalizing xs with
  | nil =>
    cases h
    exact ⟨0, Nat.le_refl 0, .nil, .inl ⟨rfl, rfl⟩⟩
  | cons name rest ih =>
    have hnone : Asked sender c data requestId (sentIn []) ((name :: rest).take 0) := .nil
    cases h with
    | stay => exact ⟨0, Nat.zero_le _, hnone, .inr ⟨Nat.succ_pos _, _, _, rfl, .inl rfl⟩⟩
    | go stamp h =>
    cases h with
    | stay => exact ⟨0, Nat.zero_le _, hnone, .inr ⟨Nat.succ_pos _, _, _, rfl, .inr ⟨_, rfl⟩⟩⟩
    | go sent h =>
    obtain ⟨n, hn, hasked, hend⟩ := ih h
    refine ⟨n + 1, Nat.succ_le_succ hn, .cons ⟨stamp, rfl⟩ hasked, ?_⟩
    simpa only [List.length_cons, Nat.add_right_cancel_iff, Nat.add_lt_add_iff_right] using hend

/-- A request that was told the providers has sent its messages to the first of them; it has ended
with all of them when it has sent its messages to all, and otherwise it is at the next one. -/
theorem course_request {xs : List Answered} {r : Routine (List String)}
    (h : (request sender c data requestId).Course (⟨.providers c, names⟩ :: xs) r) :
    ∃ n ≤ names.length, Asked sender c data requestId (sentIn xs) (names.take n) ∧
      (n = names.length ∧ r = .done names ∨
        n < names.length ∧ ∃ o next, r = .ask o next ∧ (o = .stamp ∨ ∃ m, o = .send m none)) := by
  cases h with
  | go answer h => exact course_sendRequests h

/-- With places for all messages they are sent without a pause. -/
theorem advance_sendRequests {β : Type} (k : Unit → Routine β) {s : Scene}
    (hplaces : names.length ≤ s.world.bus.gate.places) :
    ∃ s' ms, Routine.advance ((sendRequests sender c data requestId names).bind k) s =
        Routine.advance (k ()) s' ∧
      s'.world.bus.queue = s.world.bus.queue ++ ms ∧ Asked sender c data requestId ms names := by
  induction names generalizing s with
  | nil => exact ⟨s, [], rfl, by simp, .nil⟩
  | cons name rest ih =>
    rw [List.length_cons] at hplaces
    obtain ⟨stamped, stamp, hstamp, hbus⟩ : ∃ s' stamp, s.attempt .stamp = (s', some stamp) ∧
        s'.world.bus = s.world.bus := ⟨_, _, rfl, rfl⟩
    obtain ⟨gate, htake, hrest⟩ : ∃ gate, stamped.world.bus.gate.take? = some gate ∧
        rest.length ≤ gate.places := by
      rw [hbus, Gate.take?, if_neg (by omega)]
      exact ⟨_, rfl, by dsimp only; omega⟩
    have hsend := Scene.send_free (s := { stamped with parking := {} }) rfl htake
      (.request stamp sender name c data requestId)
    obtain ⟨s', ms, hadvance, hqueue, hasked⟩ :=
      ih (s := { Scene.accept { stamped with parking := {} } gate
        (.request stamp sender name c data requestId) with parking := {} }) hrest
    refine ⟨s', .request stamp sender name c data requestId :: ms, ?_, ?_, .cons ⟨stamp, rfl⟩ hasked⟩
    · rw [← hadvance]
      exact (Routine.advance_of_some hstamp).trans (Routine.advance_of_some hsend)
    · rw [hqueue]
      change stamped.world.bus.queue ++ [_] ++ ms = _
      rw [hbus, List.append_assoc, List.singleton_append]

/-- With places for all messages a request asks the providers without a pause, and ends with
them. -/
theorem advance_request {s : Scene}
    (hplaces : (s.world.bus.directory.providers c).length ≤ s.world.bus.gate.places) :
    ∃ s' ms, Routine.advance (request sender c data requestId) s =
        (s', .ended (s.world.bus.directory.providers c)) ∧
      s'.world.bus.queue = s.world.bus.queue ++ ms ∧
      Asked sender c data requestId ms (s.world.bus.directory.providers c) := by
  obtain ⟨s', ms, hadvance, hqueue, hasked⟩ : ∃ s' ms,
      Routine.advance ((sendRequests sender c data requestId
        (s.world.bus.directory.providers c)).bind
          fun _ => .done (s.world.bus.directory.providers c)) { s with parking := {} } =
        (s', .ended (s.world.bus.directory.providers c)) ∧
      s'.world.bus.queue = s.world.bus.queue ++ ms ∧
      Asked sender c data requestId ms (s.world.bus.directory.providers c) :=
    advance_sendRequests _ hplaces
  exact ⟨s', ms, (Routine.advance_of_some rfl).trans hadvance, hqueue, hasked⟩

end Network

/-- The directory says of these agents, and of no other, what they provide: each is listed once
under each of its capabilities, in this order, and no list is empty. -/
structure Bus.Registry (b : Bus) (current : List Agent) : Prop where
  members : b.members.map (·.name) = current.map (·.name)
  nodup : (current.map (·.name)).Nodup
  providers : ∀ c, b.directory.providers c =
    (current.filter (·.capabilities.contains c)).map (·.name)
  nodup_sorted : (b.directory.sorted.map (·.1)).Nodup
  mem_sorted_iff : ∀ entry, entry ∈ b.directory.sorted ↔
    b.directory.providers entry.1 = entry.2 ∧ entry.2 ≠ []
  has_iff : ∀ c, b.directory.has c = true ↔ ∃ a ∈ current, c ∈ a.capabilities

/-- A request for a capability asks these agents, and ends with them. -/
structure Network.AsksAll (sender c : String) (data : Json) (requestId : String) (b : Bus)
    (names : List String) : Prop where
  /-- Whatever happens meanwhile, the first ones were asked in this order, and it has ended with
  all of them when these were all; otherwise it is at the next message. -/
  inOrder : ∀ xs r, (request sender c data requestId).Course (⟨.providers c, names⟩ :: xs) r →
    ∃ n ≤ names.length, Asked sender c data requestId (sentIn xs) (names.take n) ∧
      (n = names.length ∧ r = .done names ∨
        n < names.length ∧ ∃ o next, r = .ask o next ∧ (o = .stamp ∨ ∃ m, o = .send m none))
  /-- With places for all messages it ends at once. -/
  atOnce : names.length ≤ b.gate.places → ∀ s : Scene, s.world.bus = b →
    ∃ s' ms, Routine.advance (request sender c data requestId) s = (s', .ended names) ∧
      s'.world.bus.queue = b.queue ++ ms ∧ Asked sender c data requestId ms names
  /-- A message waits for a place in the queue, and for nothing else. -/
  patient : ∀ (s : Scene) m, (s.parking = {} ∨ ∃ k, s.parking = { ticket := some k }) →
    s.HasPlace ∧ (∃ gate, s.attempt (.send m none) = (s.accept gate m, some true)) ∨
    ¬ s.HasPlace ∧ ∃ s', s.attempt (.send m none) = (s', none) ∧
      s'.world.bus.queue = s.world.bus.queue

namespace World

/-- **The directory is that of the latest registrations.** After agents came and went one after
another, the providers of a capability are the agents whose latest registration was not undone and
declared it, each once and in the order of these registrations. A request for a capability asks
exactly those who are listed, in this order and with the same data, and ends with them; it waits
before each message until there is a place in the queue. -/
theorem registry_of_changes {w : World} (hmembers : w.bus.members = [])
    (hdirectory : w.bus.directory = {}) (hsets : ∀ a ∈ w.agents, a.capabilities.Nodup)
    (changes : List Change) :
    (changes.foldl change w).bus.Registry (lasting w.agents changes) ∧
    ∀ sender c data requestId, Network.AsksAll sender c data requestId (changes.foldl change w).bus
      ((changes.foldl change w).bus.directory.providers c) := by
  have hlists := lists_changes hmembers hdirectory hsets changes
  refine ⟨?_, fun sender c data requestId => ?_⟩
  · refine
      { members := hlists.members
        nodup := nodup_lasting _ _
        providers := hlists.providers
        nodup_sorted := ((List.mergeSort_perm _ _).map _).nodup_iff.mpr hlists.tidy.nodup
        mem_sorted_iff := fun entry => hlists.tidy.mem_sorted_iff
        has_iff := fun c => ?_ }
    rw [Directory.has, hlists.providers]
    simp
  · refine
      { inOrder := fun xs r h => Network.course_request h
        atOnce := fun hplaces s hs => ?_
        patient := fun s m h => Scene.attempt_send h m }
    rw [← hs] at hplaces ⊢
    exact Network.advance_request hplaces

/-- Three agents, of which the first and the last have the same name. -/
def namesakes : World :=
  let agent (name : String) (capabilities : List String) : Agent :=
    { Agent.scripted name [] [] [] with capabilities }
  let (w, _) := (opened {}).create (agent "p" ["a"])
  let (w, _) := w.create (agent "q" ["a"])
  (w.create (agent "p" ["a", "b"])).1

/-- An agent that registers under a name in use comes after the other providers. -/
theorem registry_of_namesakes :
    let changes := [Change.register 0, .register 1, .register 2, .unregister "r"]
    (∀ a ∈ namesakes.agents, a.capabilities.Nodup) ∧
    (lasting namesakes.agents changes).map (fun a => (a.name, a.capabilities)) =
      [("q", ["a"]), ("p", ["a", "b"])] ∧
    (changes.foldl change namesakes).bus.Registry (lasting namesakes.agents changes) ∧
    (changes.foldl change namesakes).bus.directory.providers "a" = ["q", "p"] := by
  intro changes
  have hsets : ∀ a ∈ namesakes.agents, a.capabilities.Nodup := by decide +kernel
  obtain ⟨hregistry, -⟩ := registry_of_changes rfl rfl hsets changes
  exact ⟨hsets, by decide +kernel, hregistry, by decide +kernel⟩

end World

/-! ## A queue without a place -/

/-- Who gave up has never ended. -/
theorem Run.not_ended_of_stuck {α : Type} {r : Run α} {k : Nat} (h : (r.go k).user = .stuck)
    (n : Nat) (a : α) : (r.go n).user ≠ .ended a := by
  intro hended
  rcases Nat.le_total n k with hle | hle
  · have hstopped : ∀ t, (r.go n).user ≠ .going t := by simp [hended]
    have hsame := user_go_of_le hstopped hle
    rw [h, hended] at hsame
    cases hsame
  · have hstopped : ∀ t, (r.go k).user ≠ .going t := by simp [h]
    have hsame := user_go_of_le hstopped hle
    rw [h, hended] at hsame
    cases hsame

namespace Network

/-- The user asks both providers of a capability. -/
def asking (places : UInt64) : Run (List String) :=
  Run.start (Orchestrator.undelivered places) (request "o" "a" .null "r").program
    World.userPatience

/-- With one place in a queue that is not delivered the second message waits until the user gives
up, so the request never ends with its providers. -/
theorem unanswered_request :
    (Orchestrator.undelivered 1).bus.directory.providers "a" = ["p", "q"] ∧
      ∀ n names, ((asking 1).go n).user ≠ .ended names := by
  have hstuck : ((asking 1).go 4).user = .stuck := by
    have hkernel : (match ((asking 1).go 4).user with | .stuck => true | _ => false) = true := by
      decide +kernel
    split at hkernel
    · assumption
    · cases hkernel
  exact ⟨by decide +kernel, Run.not_ended_of_stuck hstuck⟩

end Network

end Switchboard
