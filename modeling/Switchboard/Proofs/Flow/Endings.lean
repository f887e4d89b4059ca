import Switchboard.Proofs.Flow.Courses

/-!
# How flows end

A flow ends with a value, or it breaks off; what it is caught by tells which. Where a flow goes on
with the value of another one, the course of the whole is that of the one and then that of the other.

* `Flow.bind_assoc`, `Flow.attempt_bind`, `Flow.embed_bind` : flows one after another;
* `Flow.Unbroken` : a flow that cannot break off; `Flow.unbroken_attempt` : a flow that is caught;
* `Routine.Course.exists_of_bind`, `Program.Course.exists_of_bind` : two flows that have both ended;
* `Routine.Course.of_attempt`, `Program.Course.of_attempt` : how a flow ended that was caught;
* `StepCall.unbroken_run`, `Orchestrator.unbroken_execute`, `Orchestrator.unbroken_sequence` : what an
  orchestrator does cannot break off.
-/

namespace Switchboard

namespace Flow

variable {Op Op' : Type} {Answer : Op → Type} {Answer' : Op' → Type} {α β γ : Type}

/-- One flow after another, and a third one after both. -/
theorem bind_assoc (r : Flow Answer α) (f : α → Flow Answer β) (g : β → Flow Answer γ) :
    (r.bind f).bind g = r.bind fun a => (f a).bind g := by
  induction r with
  | done a => rfl
  | crash text => rfl
  | ask o next ih => exact congrArg (Flow.ask o) (funext ih)

theorem embed_bind (wrap : Op → Op') (back : (o : Op) → Answer' (wrap o) → Answer o)
    (r : Flow Answer α) (f : α → Flow Answer β) :
    (r.bind f).embed wrap back = (r.embed wrap back).bind fun a => (f a).embed wrap back := by
  induction r with
  | done a => rfl
  | crash text => rfl
  | ask o next ih => exact congrArg (Flow.ask (wrap o)) (funext fun answer => ih (back o answer))

theorem embed_attempt (wrap : Op → Op') (back : (o : Op) → Answer' (wrap o) → Answer o)
    (r : Flow Answer α) : r.attempt.embed wrap back = (r.embed wrap back).attempt := by
  induction r with
  | done a => rfl
  | crash text => rfl
  | ask o next ih => exact congrArg (Flow.ask (wrap o)) (funext fun answer => ih (back o answer))

/-- Two flows that are caught together: if the first one breaks off the second one does not begin. -/
theorem attempt_bind (r : Flow Answer α) (f : α → Flow Answer β) :
    (r.bind f).attempt = r.attempt.bind fun
      | .ok a => (f a).attempt
      | .error text => .done (.error text) := by
  induction r with
  | done a => rfl
  | crash text => rfl
  | ask o next ih => exact congrArg (Flow.ask o) (funext ih)

/-- What goes on with a flow that was caught is caught by itself. -/
theorem attempt_attempt_bind (r : Flow Answer α) (f : Except String α → Flow Answer β) :
    (r.attempt.bind f).attempt = r.attempt.bind fun result => (f result).attempt := by
  induction r with
  | done a => rfl
  | crash text => rfl
  | ask o next ih => exact congrArg (Flow.ask o) (funext ih)

/-- What a flow that has ended in a known way is. -/
def ending : Except String α → Flow Answer α
  | .ok a => .done a
  | .error text => .crash text

theorem eq_ending_of_attempt {r : Flow Answer α} {result : Except String α}
    (h : r.attempt = .done result) : r = ending result := by
  cases r with
  | done a =>
    cases h
    rfl
  | crash text =>
    cases h
    rfl
  | ask o next => cases h

theorem eq_done_of_bind {r : Flow Answer α} {f : α → Flow Answer β} {b : β}
    (h : r.bind f = .done b) : ∃ a, r = .done a ∧ f a = .done b := by
  cases r with
  | done a => exact ⟨a, rfl, h⟩
  | crash text => cases h
  | ask o next => cases h

/-- A flow that cannot break off. -/
inductive Unbroken : Flow Answer α → Prop
  | done (a : α) : Unbroken (.done a)
  | ask {o : Op} {next : Answer o → Flow Answer α} (h : ∀ answer, Unbroken (next answer)) :
      Unbroken (.ask o next)

theorem Unbroken.bind {r : Flow Answer α} (h : r.Unbroken) {f : α → Flow Answer β}
    (hf : ∀ a, (f a).Unbroken) : (r.bind f).Unbroken := by
  induction h with
  | done a => exact hf a
  | ask _ ih => exact .ask ih

theorem unbroken_attempt (r : Flow Answer α) : r.attempt.Unbroken := by
  induction r with
  | done a => exact .done _
  | crash text => exact .done _
  | ask o next ih => exact .ask ih

end Flow

theorem Routine.program_bind {α β : Type} (r : Routine α) (f : α → Routine β) :
    Routine.program (r.bind f) = r.program.bind fun a => (f a).program := Flow.embed_bind _ _ r f

theorem Routine.program_attempt {α : Type} (r : Routine α) :
    Routine.program r.attempt = Flow.attempt r.program := Flow.embed_attempt _ _ r

/-! ## Courses -/

namespace Routine.Course

variable {α β : Type} {r r' : Routine α} {xs : List Answered}

theorem unbroken (h : r.Course xs r') (hr : Flow.Unbroken r) : Flow.Unbroken r' := by
  induction h with
  | stay r => exact hr
  | go answer _ ih =>
    cases hr with
    | ask hnext => exact ih (hnext answer)

/-- A routine that has ended got an answer to what it asked first. -/
theorem exists_answer {o : Operation} {next : o.Answer → Routine α} {a : α}
    (h : Course (.ask o next) xs (.done a)) :
    ∃ answer ys, xs = ⟨o, answer⟩ :: ys ∧ (next answer).Course ys (.done a) := by
  cases h with
  | go answer h => exact ⟨answer, _, rfl, h⟩

/-- Of two routines one after another that have ended, both have ended. -/
theorem exists_of_bind {f : α → Routine β} {b : β}
    (h : Routine.Course (r.bind f) xs (.done b)) :
    ∃ a ys zs, xs = ys ++ zs ∧ r.Course ys (.done a) ∧ (f a).Course zs (.done b) := by
  rcases h.of_bind with ⟨q, hcourse, hend⟩ | hboth
  · obtain ⟨a, rfl, hlast⟩ := Flow.eq_done_of_bind hend.symm
    refine ⟨a, xs, [], (List.append_nil xs).symm, hcourse, ?_⟩
    rw [hlast]
    exact .stay _
  · exact hboth

/-- A routine that is caught asks and is told the same. -/
theorem of_attempt {q : Routine (Except String α)} (h : Routine.Course r.attempt xs q) :
    ∃ r', r.Course xs r' ∧ q = r'.attempt := by
  induction r generalizing xs with
  | done a =>
    cases h
    exact ⟨_, .stay _, rfl⟩
  | crash text =>
    cases h
    exact ⟨_, .stay _, rfl⟩
  | ask o next ih =>
    cases h with
    | stay => exact ⟨_, .stay _, rfl⟩
    | go answer h =>
      obtain ⟨r', hcourse, rfl⟩ := ih answer h
      exact ⟨r', .go answer hcourse, rfl⟩

/-- How a routine ended that was caught. -/
theorem ending_of_attempt {result : Except String α}
    (h : Routine.Course r.attempt xs (.done result)) : r.Course xs (Flow.ending result) := by
  obtain ⟨r', hcourse, hend⟩ := h.of_attempt
  rwa [Flow.eq_ending_of_attempt hend.symm] at hcourse

end Routine.Course

namespace Program.Course

variable {α β : Type} {p : Program α} {xs : List Answered}

/-- A program that has ended got an answer to what it asked first. -/
theorem exists_answer {o : Operation} {next : o.Answer → Program α} {a : α}
    (h : Course (.ask (.plain o) next) xs ⟨.done a, none⟩) :
    ∃ answer ys, xs = ⟨o, answer⟩ :: ys ∧ Course (next answer) ys ⟨.done a, none⟩ := by
  cases h with
  | plain answer h => exact ⟨answer, _, rfl, h⟩

theorem exists_of_bind {f : α → Program β} {b : β} (h : Course (p.bind f) xs ⟨.done b, none⟩) :
    ∃ a ys zs, xs = ys ++ zs ∧ Course p ys ⟨.done a, none⟩ ∧ Course (f a) zs ⟨.done b, none⟩ := by
  rcases h.of_bind with ⟨q, steps, hcourse, hend⟩ | hboth
  · obtain ⟨hcode, rfl⟩ := Program.Rest.mk.inj hend
    obtain ⟨a, rfl, hlast⟩ := Flow.eq_done_of_bind hcode.symm
    refine ⟨a, xs, [], (List.append_nil xs).symm, hcourse, ?_⟩
    rw [hlast]
    exact .stop _
  · exact hboth

/-- A program that is caught asks and is told the same. -/
theorem of_attempt {rest : Program.Rest (Except String α)}
    (h : Program.Course (Flow.attempt p) xs rest) :
    ∃ q steps, Course p xs ⟨q, steps⟩ ∧ rest = ⟨q.attempt, steps⟩ := by
  induction p generalizing xs with
  | done a =>
    cases h
    exact ⟨_, _, .stop _, rfl⟩
  | crash text =>
    cases h
    exact ⟨_, _, .stop _, rfl⟩
  | ask e next ih =>
    cases e with
    | plain o =>
      cases h with
      | stop => exact ⟨_, _, .stop _, rfl⟩
      | plain answer h =>
        obtain ⟨q, steps, hcourse, rfl⟩ := ih answer h
        exact ⟨q, steps, .plain answer hcourse, rfl⟩
    | wave calls =>
      cases h with
      | stop => exact ⟨_, _, .stop _, rfl⟩
      | within h => exact ⟨_, _, .within h, rfl⟩
      | wave h h' =>
        obtain ⟨q, steps, hcourse, rfl⟩ := ih _ h'
        exact ⟨q, steps, .wave h hcourse, rfl⟩

/-- How a program ended that was caught. -/
theorem ending_of_attempt {result : Except String α}
    (h : Program.Course (Flow.attempt p) xs ⟨.done result, none⟩) :
    Course p xs ⟨Flow.ending result, none⟩ := by
  obtain ⟨q, steps, hcourse, hend⟩ := h.of_attempt
  obtain ⟨hcode, rfl⟩ := Program.Rest.mk.inj hend
  rwa [Flow.eq_ending_of_attempt hcode.symm] at hcourse

/-- A routine that is seen as a program has its own courses. -/
theorem of_program {r : Routine α} {rest : Program.Rest α} (h : Course r.program xs rest) :
    ∃ r', r.Course xs r' ∧ rest = ⟨r'.program, none⟩ := by
  induction r generalizing xs with
  | done a =>
    cases h
    exact ⟨_, .stay _, rfl⟩
  | crash text =>
    cases h
    exact ⟨_, .stay _, rfl⟩
  | ask o next ih =>
    cases h with
    | stop => exact ⟨_, .stay _, rfl⟩
    | plain answer h =>
      obtain ⟨r', hcourse, rfl⟩ := ih answer h
      exact ⟨r', .go answer hcourse, rfl⟩

theorem done_of_program {r : Routine α} {a : α} (h : Course r.program xs ⟨.done a, none⟩) :
    r.Course xs (.done a) := by
  obtain ⟨r', hcourse, hend⟩ := h.of_program
  obtain ⟨hcode, -⟩ := Program.Rest.mk.inj hend
  cases r' with
  | done b =>
    cases hcode
    exact hcourse
  | crash text => cases hcode
  | ask o next => cases hcode

/-- A program that cannot break off has not broken off. -/
theorem unbroken {rest : Program.Rest α} (h : Course p xs rest) (hp : Flow.Unbroken p) :
    Flow.Unbroken rest.code := by
  induction h with
  | stop p => exact hp
  | plain answer _ ih =>
    cases hp with
    | ask hnext => exact ih (hnext answer)
  | within h => exact hp
  | wave h _ ih =>
    cases hp with
    | ask hnext => exact ih (hnext _)

end Program.Course

/-! ## Orchestrators -/

theorem Network.unbroken_sendRequests (sender capability : String) (data : Json) (requestId : String)
    (names : List String) :
    (sendRequests sender capability data requestId names).Unbroken := by
  induction names with
  | nil => exact .done _
  | cons provider rest ih => exact .ask fun stamp => .ask fun sent => ih

theorem StepCall.unbroken_dispatch (call : StepCall) : call.dispatch.Unbroken := by
  unfold dispatch
  split
  · exact Network.unbroken_sendRequests ..
  · exact .ask fun _ => Network.unbroken_sendRequests ..

theorem StepCall.unbroken_run (call : StepCall) : call.run.Unbroken :=
  .ask fun _ => .ask fun _ => .ask fun _ =>
    call.unbroken_dispatch.bind fun _ => .ask fun _ => .done _

namespace Orchestrator

variable (o : Orchestrator) (requestId : String)

theorem unbroken_runWaves (s : Schedule) (deadline n : Nat) (waves : List (List Nat))
    (p : Progress) : (o.runWaves requestId s deadline n waves p).Unbroken := by
  induction waves generalizing n p with
  | nil => exact .done p
  | cons wave rest ih =>
    unfold runWaves
    refine .ask fun now => ?_
    split
    · exact ih _ _
    · exact .ask fun outcomes => ih _ _

theorem unbroken_runSchedule (s : Schedule) : (o.runSchedule requestId s).Unbroken :=
  .ask fun _ => o.unbroken_runWaves requestId s _ _ _ _

theorem unbroken_execute (r : GraphRequest) : (o.execute r).Unbroken :=
  .ask fun _ => (o.unbroken_runSchedule _ _).bind fun _ => .done _

theorem unbroken_sequence (jobs : List Job) : (o.sequence requestId jobs).Unbroken :=
  .ask fun _ => .ask fun _ => (o.unbroken_runSchedule _ _).bind fun _ => .done _

end Orchestrator

end Switchboard
