/-!
# Flows

A flow is a computation that asks its surroundings one thing after another and goes on with each
answer. What the things are, and what answers them, is left open.

* `Flow` : a flow; it ends with a value or by a crash;
* `Flow.bind`, `Flow.attempt`, `Flow.embed` : one flow after another, a flow whose crash is caught,
  and a flow of other questions.
-/

namespace Switchboard

/-- A computation that asks things of type `Op` and is given answers. -/
inductive Flow {Op : Type} (Answer : Op → Type) (α : Type) : Type where
  | done (a : α)
  /-- The computation broke off, saying why. -/
  | crash (text : String)
  | ask (o : Op) (next : Answer o → Flow Answer α)

namespace Flow

variable {Op Op' : Type} {Answer : Op → Type} {Answer' : Op' → Type} {α β : Type}

/-- Go on with the value of a flow. -/
def bind : Flow Answer α → (α → Flow Answer β) → Flow Answer β
  | done a, f => f a
  | crash text, _ => crash text
  | ask o next, f => ask o fun answer => (next answer).bind f

instance : Monad (Flow Answer) where
  pure := done
  bind := bind

/-- Ask one thing. -/
def one (o : Op) : Flow Answer (Answer o) := ask o done

/-- Catch the crash of a flow. -/
def attempt : Flow Answer α → Flow Answer (Except String α)
  | done a => done (.ok a)
  | crash text => done (.error text)
  | ask o next => ask o fun answer => (next answer).attempt

/-- Ask the same things among others. -/
def embed (f : Op → Op') (back : (o : Op) → Answer' (f o) → Answer o) :
    Flow Answer α → Flow Answer' α
  | done a => done a
  | crash text => crash text
  | ask o next => ask (f o) fun answer => (next (back o answer)).embed f back

end Flow

end Switchboard
