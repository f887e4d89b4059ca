import Mathlib.Data.List.Basic
import Switchboard.Orchestrate.Run

/-!
# Courses

The course of some work is what it asks for and what it is told, whatever its surroundings are. The
steps of a wave go on side by side: between them their exchanges come in any order.

* `Answered` : an operation with its answer;
* `Routine.Course`, `SideBySide`, `Program.Course` : what is left of a routine, of several, and of a
  program after some exchanges;
* `Routine.Only` : all that a routine may ask for has a property;
* `SideBySide.course` : each of several routines has a course of its own;
* `Program.MadeOf` : what operations and steps a program consists of; `Program.Course.exists_of_mem` :
  each exchange is with one of them;
* `Program.Course.append`, `Program.Course.of_bind` : courses one after another.
-/

namespace Switchboard

/-- An operation and what it was answered. -/
structure Answered where
  operation : Operation
  answer : operation.Answer

/-! ## Routines -/

/-- What is left of a routine after some exchanges. -/
inductive Routine.Course {β : Type} : Routine β → List Answered → Routine β → Prop
  | stay (r : Routine β) : Course r [] r
  | go {o : Operation} {next : o.Answer → Routine β} {xs : List Answered} {r : Routine β}
      (answer : o.Answer) (h : Course (next answer) xs r) :
      Course (.ask o next) (⟨o, answer⟩ :: xs) r

theorem Routine.Course.append {β : Type} {r r' r'' : Routine β} {xs ys : List Answered}
    (h : r.Course xs r') (h' : r'.Course ys r'') : r.Course (xs ++ ys) r'' := by
  induction h with
  | stay r => exact h'
  | go answer _ ih => exact .go answer (ih h')

/-- All that a routine may ask for has a property. -/
inductive Routine.Only {β : Type} (P : Operation → Prop) : Routine β → Prop
  | done (a : β) : Only P (.done a)
  | crash (text : String) : Only P (.crash text)
  | ask {o : Operation} {next : o.Answer → Routine β} (ho : P o)
      (hnext : ∀ answer, Only P (next answer)) : Only P (.ask o next)

namespace Routine.Only

variable {β γ : Type} {P : Operation → Prop} {r r' : Routine β} {xs : List Answered}

theorem bind (h : r.Only P) {f : β → Routine γ} (hf : ∀ b, (f b).Only P) :
    Routine.Only P (r.bind f) := by
  induction h with
  | done b => exact hf b
  | crash text => exact .crash text
  | ask ho _ ih => exact .ask ho ih

theorem of_course (h : r.Only P) (hcourse : r.Course xs r') :
    (∀ x ∈ xs, P x.operation) ∧ r'.Only P := by
  induction hcourse with
  | stay r => exact ⟨by simp, h⟩
  | go answer _ ih =>
    cases h with
    | ask ho hnext =>
      obtain ⟨hall, hrest⟩ := ih (hnext answer)
      exact ⟨List.forall_mem_cons.mpr ⟨ho, hall⟩, hrest⟩

end Routine.Only

/-- A routine that goes on with the value of another one is in the course of that one, or past its
end. -/
theorem Routine.Course.of_bind {β γ : Type} {r : Routine β} {f : β → Routine γ}
    {r' : Routine γ} {xs : List Answered} (h : Routine.Course (r.bind f) xs r') :
    (∃ q, r.Course xs q ∧ r' = q.bind f) ∨
    ∃ b ys zs, xs = ys ++ zs ∧ r.Course ys (.done b) ∧ (f b).Course zs r' := by
  induction r generalizing xs with
  | done b => exact .inr ⟨b, [], xs, rfl, .stay _, h⟩
  | crash text =>
    cases h
    exact .inl ⟨.crash text, .stay _, rfl⟩
  | ask o next ih =>
    cases h with
    | stay => exact .inl ⟨_, .stay _, rfl⟩
    | go answer h =>
      rcases ih answer h with ⟨q, hcourse, rfl⟩ | ⟨b, ys, zs, rfl, hcourse, hrest⟩
      · exact .inl ⟨q, .go answer hcourse, rfl⟩
      · exact .inr ⟨b, _, zs, rfl, .go answer hcourse, hrest⟩

/-- Routines go on side by side, each exchange being with one of them. -/
inductive SideBySide {β : Type} : List (Routine β) → List Answered → List (Routine β) → Prop
  | stay (rs : List (Routine β)) : SideBySide rs [] rs
  | go {rs rs' : List (Routine β)} {xs : List Answered} {i : Nat} {o : Operation}
      {next : o.Answer → Routine β} (hi : rs[i]? = some (.ask o next)) (answer : o.Answer)
      (h : SideBySide (rs.set i (next answer)) xs rs') : SideBySide rs (⟨o, answer⟩ :: xs) rs'

namespace SideBySide

variable {β : Type} {rs rs' rs'' : List (Routine β)} {xs ys : List Answered}

theorem append (h : SideBySide rs xs rs') (h' : SideBySide rs' ys rs'') :
    SideBySide rs (xs ++ ys) rs'' := by
  induction h with
  | stay rs => exact h'
  | go hi answer _ ih => exact .go hi answer (ih h')

theorem length_eq (h : SideBySide rs xs rs') : rs'.length = rs.length := by
  induction h with
  | stay rs => rfl
  | go hi answer _ ih => rw [ih, List.length_set]

/-- Each of the routines has a course of its own. -/
theorem course (h : SideBySide rs xs rs') {i : Nat} {r r' : Routine β} (hr : rs[i]? = some r)
    (hr' : rs'[i]? = some r') : ∃ ys, ys.Sublist xs ∧ r.Course ys r' := by
  induction h generalizing r with
  | stay rs =>
    obtain rfl : r = r' := Option.some.inj (hr.symm.trans hr')
    exact ⟨[], .slnil, .stay r⟩
  | @go rs rs' xs j o next hj answer h ih =>
    by_cases hij : j = i
    · subst hij
      obtain rfl : r = .ask o next := Option.some.inj (hr.symm.trans hj)
      have hlt := (List.getElem?_eq_some_iff.mp hj).1
      obtain ⟨ys, hsub, hcourse⟩ := ih (List.getElem?_set_self hlt) hr'
      exact ⟨_, hsub.cons_cons _, .go answer hcourse⟩
    · obtain ⟨ys, hsub, hcourse⟩ := ih ((List.getElem?_set_ne hij).trans hr) hr'
      exact ⟨ys, hsub.cons _, hcourse⟩

/-- Each exchange belongs to one of the routines. -/
theorem exists_course_of_mem (h : SideBySide rs xs rs') {x : Answered} (hx : x ∈ xs) :
    ∃ (i : Nat) (r r' : Routine β) (ys : List Answered), rs[i]? = some r ∧ rs'[i]? = some r' ∧
      ys.Sublist xs ∧ r.Course ys r' ∧ x ∈ ys := by
  induction h with
  | stay rs => cases hx
  | @go rs rs' xs j o next hj answer h ih =>
    have hlt := (List.getElem?_eq_some_iff.mp hj).1
    rcases List.mem_cons.mp hx with rfl | hx
    · have hlt' : j < rs'.length := by rwa [h.length_eq, List.length_set]
      obtain ⟨ys, hsub, hcourse⟩ := h.course (List.getElem?_set_self hlt)
        (List.getElem?_eq_getElem hlt')
      exact ⟨j, _, _, _, hj, List.getElem?_eq_getElem hlt', hsub.cons_cons _, .go answer hcourse,
        List.mem_cons_self⟩
    · obtain ⟨i, r, r', ys, hr, hr', hsub, hcourse, hmem⟩ := ih hx
      by_cases hij : j = i
      · subst hij
        rw [List.getElem?_set_self hlt] at hr
        obtain rfl := Option.some.inj hr
        exact ⟨j, _, r', _, hj, hr', hsub.cons_cons _, .go answer hcourse,
          List.mem_cons_of_mem _ hmem⟩
      · rw [List.getElem?_set_ne hij] at hr
        exact ⟨i, r, r', ys, hr, hr', hsub.cons _, hcourse, hmem⟩

end SideBySide

/-! ## Programs -/

/-- All operations and all steps that a program may come to have a property. -/
inductive Program.MadeOf {α : Type} (P : Operation → Prop) (Q : StepCall → Prop) : Program α → Prop
  | done (a : α) : MadeOf P Q (.done a)
  | crash (text : String) : MadeOf P Q (.crash text)
  | plain {o : Operation} {next : o.Answer → Program α} (ho : P o)
      (hnext : ∀ answer, MadeOf P Q (next answer)) : MadeOf P Q (.ask (.plain o) next)
  | wave {calls : List StepCall} {next : List StepOutcome → Program α}
      (hcalls : ∀ call ∈ calls, Q call) (hnext : ∀ outcomes, MadeOf P Q (next outcomes)) :
      MadeOf P Q (.ask (.wave calls) next)

theorem Program.MadeOf.bind {α β : Type} {P : Operation → Prop} {Q : StepCall → Prop}
    {p : Program α} (h : p.MadeOf P Q) {f : α → Program β} (hf : ∀ a, (f a).MadeOf P Q) :
    Program.MadeOf P Q (p.bind f) := by
  induction h with
  | done a => exact hf a
  | crash text => exact .crash text
  | plain ho _ ih => exact .plain ho ih
  | wave hcalls _ ih => exact .wave hcalls ih

/-- What is left of a program: its code, and the steps of the wave that it waits for. -/
structure Program.Rest (α : Type) where
  code : Program α
  steps : Option (List (Routine StepOutcome)) := none

/-- What is left of a program after some exchanges. -/
inductive Program.Course {α : Type} : Program α → List Answered → Program.Rest α → Prop
  | stop (p : Program α) : Course p [] ⟨p, none⟩
  | plain {o : Operation} {next : o.Answer → Program α} {xs : List Answered} {r : Program.Rest α}
      (answer : o.Answer) (h : Course (next answer) xs r) :
      Course (.ask (.plain o) next) (⟨o, answer⟩ :: xs) r
  /-- The steps of a wave are under way. -/
  | within {calls : List StepCall} {next : List StepOutcome → Program α} {xs : List Answered}
      {steps : List (Routine StepOutcome)} (h : SideBySide (calls.map StepCall.run) xs steps) :
      Course (.ask (.wave calls) next) xs ⟨.ask (.wave calls) next, some steps⟩
  | wave {calls : List StepCall} {next : List StepOutcome → Program α} {xs ys : List Answered}
      {outcomes : List StepOutcome} {r : Program.Rest α}
      (h : SideBySide (calls.map StepCall.run) xs (outcomes.map .done))
      (h' : Course (next outcomes) ys r) : Course (.ask (.wave calls) next) (xs ++ ys) r

namespace Program.Course

variable {α β : Type} {p q : Program α} {xs ys : List Answered} {r : Program.Rest α}

theorem append (h : Course p xs ⟨q, none⟩) (h' : Course q ys r) : Course p (xs ++ ys) r := by
  generalize hrest : (⟨q, none⟩ : Program.Rest α) = rest at h
  induction h with
  | stop p =>
    cases hrest
    exact h'
  | plain answer _ ih => exact .plain answer (ih hrest)
  | within h => cases hrest
  | wave h _ ih =>
    rw [List.append_assoc]
    exact .wave h (ih hrest)

/-- The steps of a wave go on. -/
theorem append_within {calls : List StepCall} {next : List StepOutcome → Program α}
    {steps steps' : List (Routine StepOutcome)}
    (h : Course p xs ⟨.ask (.wave calls) next, some steps⟩) (h' : SideBySide steps ys steps') :
    Course p (xs ++ ys) ⟨.ask (.wave calls) next, some steps'⟩ := by
  generalize hrest : (⟨.ask (.wave calls) next, some steps⟩ : Program.Rest α) = rest at h
  induction h with
  | stop p => cases hrest
  | plain answer _ ih => exact .plain answer (ih hrest)
  | within h =>
    cases hrest
    exact .within (h.append h')
  | wave h _ ih =>
    rw [List.append_assoc]
    exact .wave h (ih hrest)

/-- The steps of a wave have ended. -/
theorem close {calls : List StepCall} {next : List StepOutcome → Program α}
    {outcomes : List StepOutcome}
    (h : Course p xs ⟨.ask (.wave calls) next, some (outcomes.map .done)⟩) :
    Course p xs ⟨next outcomes, none⟩ := by
  generalize hrest :
    (⟨.ask (.wave calls) next, some (outcomes.map .done)⟩ : Program.Rest α) = rest at h
  induction h with
  | stop p => cases hrest
  | plain answer _ ih => exact .plain answer (ih hrest)
  | within h =>
    cases hrest
    simpa using Course.wave h (.stop _)
  | wave h _ ih => exact .wave h (ih hrest)

/-- A program that goes on with the value of another one is in the course of that one, or past its
end. -/
theorem of_bind {f : α → Program β} {r : Program.Rest β} (h : Course (p.bind f) xs r) :
    (∃ q steps, Course p xs ⟨q, steps⟩ ∧ r = ⟨q.bind f, steps⟩) ∨
    ∃ a ys zs, xs = ys ++ zs ∧ Course p ys ⟨.done a, none⟩ ∧ Course (f a) zs r := by
  induction p generalizing xs with
  | done a => exact .inr ⟨a, [], xs, rfl, .stop _, h⟩
  | crash text =>
    cases h
    exact .inl ⟨.crash text, none, .stop _, rfl⟩
  | ask e next ih =>
    cases e with
    | plain o =>
      cases h with
      | stop => exact .inl ⟨_, none, .stop _, rfl⟩
      | plain answer h =>
        rcases ih answer h with ⟨q, steps, hcourse, rfl⟩ | ⟨a, ys, zs, rfl, hcourse, hrest⟩
        · exact .inl ⟨q, steps, .plain answer hcourse, rfl⟩
        · exact .inr ⟨a, _, zs, rfl, .plain answer hcourse, hrest⟩
    | wave calls =>
      cases h with
      | stop => exact .inl ⟨_, none, .stop _, rfl⟩
      | within h => exact .inl ⟨_, _, .within h, rfl⟩
      | wave h h' =>
        rcases ih _ h' with ⟨q, steps, hcourse, rfl⟩ | ⟨a, ys, zs, rfl, hcourse, hrest⟩
        · exact .inl ⟨q, steps, .wave h hcourse, rfl⟩
        · exact .inr ⟨a, _, zs, (List.append_assoc ..).symm, .wave h hcourse, hrest⟩

/-- Each exchange of a program is with one of its own operations, or in the course of a step. -/
theorem exists_of_mem {P : Operation → Prop} {Q : StepCall → Prop} (h : Course p xs r)
    (hmade : p.MadeOf P Q) {x : Answered} (hx : x ∈ xs) :
    P x.operation ∨ ∃ (call : StepCall) (ys : List Answered) (r' : Routine StepOutcome), Q call ∧
      ys.Sublist xs ∧ call.run.Course ys r' ∧ x ∈ ys := by
  have hside : ∀ {calls : List StepCall} {xs : List Answered} {steps : List (Routine StepOutcome)},
      SideBySide (calls.map StepCall.run) xs steps → (∀ call ∈ calls, Q call) → x ∈ xs →
        ∃ (call : StepCall) (ys : List Answered) (r' : Routine StepOutcome), Q call ∧
          ys.Sublist xs ∧ call.run.Course ys r' ∧ x ∈ ys := by
    intro calls xs steps h hcalls hx
    obtain ⟨i, r, r', ys, hr, -, hsub, hcourse, hmem⟩ := h.exists_course_of_mem hx
    obtain ⟨call, hcall, rfl⟩ := List.mem_map.mp (List.mem_of_getElem? hr)
    exact ⟨call, ys, r', hcalls call hcall, hsub, hcourse, hmem⟩
  induction h with
  | stop p => cases hx
  | plain answer _ ih =>
    cases hmade with
    | plain ho hnext =>
    rcases List.mem_cons.mp hx with rfl | hx
    · exact .inl ho
    · refine (ih (hnext answer) hx).imp_right ?_
      rintro ⟨call, ys, r', hcall, hsub, hrest⟩
      exact ⟨call, ys, r', hcall, hsub.cons _, hrest⟩
  | within h =>
    cases hmade with
    | wave hcalls hnext => exact .inr (hside h hcalls hx)
  | wave h _ ih =>
    cases hmade with
    | wave hcalls hnext =>
    rcases List.mem_append.mp hx with hx | hx
    · obtain ⟨call, ys, r', hcall, hsub, hrest⟩ := hside h hcalls hx
      exact .inr ⟨call, ys, r', hcall, hsub.trans (List.sublist_append_left _ _), hrest⟩
    · refine (ih (hnext _) hx).imp_right ?_
      rintro ⟨call, ys, r', hcall, hsub, hrest⟩
      exact ⟨call, ys, r', hcall, hsub.trans (List.sublist_append_right _ _), hrest⟩

/-- A program whose value is only converted in the end is in the course of that program. -/
theorem of_bind_done {f : α → β} {r : Program.Rest β}
    (h : Course (p.bind fun a => .done (f a)) xs r) :
    ∃ r', Course p xs r' ∧
      ∀ b, r = ⟨.done b, none⟩ → ∃ a, r' = ⟨.done a, none⟩ ∧ b = f a := by
  rcases h.of_bind with ⟨q, steps, hcourse, rfl⟩ | ⟨a, ys, zs, rfl, hcourse, hdone⟩
  · refine ⟨_, hcourse, fun b heq => ?_⟩
    obtain ⟨hcode, rfl⟩ := Program.Rest.mk.inj heq
    cases q with
    | done a =>
      cases hcode
      exact ⟨a, rfl, rfl⟩
    | crash text => cases hcode
    | ask e next => cases hcode
  · cases hdone
    refine ⟨_, by simpa using hcourse, fun b heq => ?_⟩
    cases heq
    exact ⟨a, rfl, rfl⟩

end Program.Course

end Switchboard
