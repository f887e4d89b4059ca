import Switchboard.Orchestrate.Run
import Switchboard.Proofs.Flow.Courses

/-!
# The course of a step

* `StepCall.run_eq`, `StepCall.dispatch_of_free` : what a step asks for, one after another;
* `StepCall.Requests`, `StepCall.requests_of_course` : all that a step sends is its request;
* `StepCall.EndedIn`, `StepCall.endedIn_of_course` : a step that ends had the answer of its
  collection;
* `StepOutcome.Plain`, `StepCall.plain_outcome` : what a step says that is timed out.
-/

namespace Switchboard

namespace StepCall

/-- Whom a step asks. -/
def targets (call : StepCall) (providers : List String) : List String :=
  match call.assignedAgent with
  | some agent => [agent]
  | none => providers

/-- How long a step that starts at a time may take. -/
def budget (call : StepCall) (now : Nat) : Nat := min call.timeout (call.deadline - now)

/-- The collection of a step. -/
def collection (call : StepCall) (providers : List String) (now : Nat) : Operation :=
  .collect call.requestId call.capability (call.targets providers) .first (some (call.budget now))

/-- A step waits for the answer of its collection. -/
def await (call : StepCall) (p : Pending) : Routine StepOutcome :=
  .ask (.collected p) fun (answer : Collected) => .done (call.outcome answer)

theorem run_eq (call : StepCall) :
    call.run =
      .ask (.providers call.capability) fun (providers : List String) =>
      .ask .clock fun (now : Nat) =>
      .ask (call.collection providers now) fun (p : Pending) =>
      call.dispatch.bind fun _ => call.await p := rfl

theorem dispatch_of_free {call : StepCall} (h : call.assignedAgent = none) :
    call.dispatch = .ask (.providers call.capability) fun (providers : List String) =>
      Network.sendRequests call.sender call.capability call.data call.requestId providers := by
  unfold dispatch
  rw [h]
  rfl

/-- The request that a step sends, to whomever. -/
def Requests (call : StepCall) (m : Message) : Prop :=
  ∃ stamp provider,
    m = .request stamp call.sender provider call.capability call.data call.requestId

/-- What a step may ask for: it sends nothing but its request, and waits only for its
collection. -/
def MayAsk (call : StepCall) : Operation → Prop
  | .providers _ | .clock | .stamp | .collected _ => True
  | .collect requestId .. => requestId = call.requestId
  | .send m patience => call.Requests m ∧ patience = none
  | _ => False

theorem only_sendRequests (call : StepCall) (expected : List String) :
    (Network.sendRequests call.sender call.capability call.data call.requestId expected).Only
      call.MayAsk := by
  induction expected with
  | nil => exact .done _
  | cons provider rest ih =>
    refine .ask (o := .stamp) trivial fun (stamp : Stamp) => ?_
    exact .ask (o := .send _ none) ⟨⟨stamp, provider, rfl⟩, rfl⟩ fun _ => ih

theorem only_dispatch (call : StepCall) : call.dispatch.Only call.MayAsk := by
  unfold dispatch
  split
  · exact call.only_sendRequests _
  · exact .ask (o := .providers _) trivial fun providers => call.only_sendRequests providers

theorem only_run (call : StepCall) : call.run.Only call.MayAsk := by
  rw [run_eq]
  refine .ask trivial fun providers => .ask trivial fun now => .ask rfl fun p => ?_
  exact call.only_dispatch.bind fun _ => .ask trivial fun answer => .done _

/-- All that a step sends is its request. -/
theorem requests_of_course {call : StepCall} {xs : List Answered} {r : Routine StepOutcome}
    (h : call.run.Course xs r) {x : Answered} (hx : x ∈ xs) {m : Message} {patience : Option Nat}
    (hsend : x.operation = .send m patience) : call.Requests m := by
  have hmay := (call.only_run.of_course h).1 x hx
  rw [hsend] at hmay
  exact hmay.1

/-- A step had the answer of its collection, and that is how it ended. -/
def EndedIn (call : StepCall) (xs : List Answered) (o : StepOutcome) : Prop :=
  ∃ providers now p answer,
    [⟨call.collection providers now, p⟩, ⟨.collected p, answer⟩].Sublist xs ∧
      o = call.outcome answer

theorem EndedIn.mono {call : StepCall} {xs ys : List Answered} {o : StepOutcome}
    (h : call.EndedIn xs o) (hsub : xs.Sublist ys) : call.EndedIn ys o := by
  obtain ⟨providers, now, p, answer, hxs, ho⟩ := h
  exact ⟨providers, now, p, answer, hxs.trans hsub, ho⟩

/-- A step that ends had the answer of its collection. -/
theorem endedIn_of_course {call : StepCall} {xs : List Answered} {o : StepOutcome}
    (h : call.run.Course xs (.done o)) : call.EndedIn xs o := by
  rw [run_eq] at h
  cases h with
  | go providers h =>
  cases h with
  | go now h =>
  cases h with
  | go p h =>
  rcases h.of_bind with ⟨q, -, hq⟩ | ⟨-, ys, zs, rfl, -, hawait⟩
  · cases q <;> cases hq
  · cases hawait with
    | go answer h =>
    cases h
    refine ⟨providers, now, p, answer, ?_, rfl⟩
    refine .cons _ (.cons _ (.cons_cons _ ?_))
    exact List.singleton_sublist.mpr (List.mem_append_right _ List.mem_cons_self)

/-! ## Outcomes -/

end StepCall

/-- A step that is timed out has a wording for its result, and nobody replied. -/
def StepOutcome.Plain (o : StepOutcome) : Prop :=
  o.timedOut = true → o.fromAgent = none ∧ ∃ text, o.result = failureOf text

theorem StepCall.plain_outcome (call : StepCall) (answer : Collected) :
    (call.outcome answer).Plain := by
  unfold outcome
  split
  · exact fun _ => ⟨rfl, _, rfl⟩
  · exact fun h => nomatch h

end Switchboard
