import Switchboard.Message

/-!
# Waiting for the first reply

* `Waiters` : who waits for the first reply to which request, and the replies handed over;
* `Waiters.expect` : start to wait, in the place of whoever waited for the same request;
* `Waiters.offer` : hand a reply to the one who waits for it;
* `Waiters.wait` : what someone who waits obtains;
* `Waiters.remove` : clear the place for a request, whoever has it.
-/

namespace Switchboard

/-- What someone who waits for a reply holds. -/
structure Waiter where
  handle : Nat
  requestId : String
  deriving DecidableEq, Repr, Inhabited

/-- Who waits for the first reply to which request, and the replies handed over. -/
structure Waiters where
  entries : List (String × Nat) := []
  replies : List (Nat × Message) := []
  /-- The next handle. -/
  next : Nat := 0
  deriving DecidableEq, Inhabited

namespace Waiter

/-- The fault of waiting too long. -/
def lateFault (w : Waiter) (timeout : Nat) : Fault :=
  .timeout ("No response for request '" ++ w.requestId ++ "' within " ++ toString timeout ++ "ms")
    none

/-- The fault of someone whose place was taken. -/
def droppedFault (w : Waiter) : Fault :=
  .network ("response waiter for '" ++ w.requestId ++ "' was dropped")

end Waiter

namespace Waiters

/-- The handle of the one who waits for a request. -/
def handle? (ws : Waiters) (requestId : String) : Option Nat :=
  (ws.entries.find? (·.1 == requestId)).map (·.2)

/-- Nobody waits for a request any more, whoever did. -/
def remove (ws : Waiters) (requestId : String) : Waiters :=
  { ws with entries := ws.entries.filter (·.1 != requestId) }

/-- Start to wait for the reply to a request, in the place of whoever did. -/
def expect (ws : Waiters) (requestId : String) : Waiters × Waiter :=
  let rest := ws.remove requestId
  ({ rest with entries := rest.entries ++ [(requestId, ws.next)], next := ws.next + 1 },
    ⟨ws.next, requestId⟩)

/-- Hand a reply to the one who waits for it. -/
def offer (ws : Waiters) (m : Message) : Waiters :=
  match ws.handle? m.requestId with
  | none => ws
  | some handle =>
    let rest := ws.remove m.requestId
    { rest with replies := rest.replies ++ [(handle, m)] }

/-- The reply handed to someone. -/
def reply? (ws : Waiters) (w : Waiter) : Option Message :=
  (ws.replies.find? (·.1 == w.handle)).map (·.2)

/-- Whether someone still has his place. -/
def isOpen (ws : Waiters) (w : Waiter) : Bool := ws.entries.any (·.2 == w.handle)

/-- What someone obtains, if he need not wait any longer: the reply; that his place was taken; or,
when his time is up, that there was none. It leaves the table alone: whoever waited in vain clears
the place for his request afterwards. -/
def wait (ws : Waiters) (w : Waiter) (timeout : Nat) (timeIsUp : Bool) :
    Option (Except Fault Message) :=
  match ws.reply? w with
  | some m => some (.ok m)
  | none =>
    if !ws.isOpen w then some (.error w.droppedFault)
    else if timeIsUp then some (.error (w.lateFault timeout))
    else none

end Waiters

end Switchboard
