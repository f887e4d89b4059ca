import Switchboard.Flow.Operation

/-!
# Asking for capabilities

* `Network.request` : ask every provider of a capability;
* `Network.requestOrFallback` : ask the providers of another one when there are none;
* `Network.awaitReply` : wait for the first reply, and give up after some time;
* `Network.sendFor`, `Network.requestFor` : an agent sends a message, or asks for a capability and
  keeps a record of it.
-/

namespace Switchboard.Network

/-- Put a message into the queue, however long it takes. The queue of a network that somebody holds
is never closed, so in the end there is a place. -/
def send (m : Message) : Routine Unit := do
  let _ ← perform (.send m none)
  return ()

/-- Send a request to one provider after another. -/
def sendRequests (sender capability : String) (data : Json) (requestId : String) :
    List String → Routine Unit
  | [] => return ()
  | provider :: rest => do
    let stamp : Stamp ← perform .stamp
    send (.request stamp sender provider capability data requestId)
    sendRequests sender capability data requestId rest

/-- Ask every provider of a capability; who they are. -/
def request (sender capability : String) (data : Json) (requestId : String) :
    Routine (List String) := do
  let providers : List String ← perform (.providers capability)
  sendRequests sender capability data requestId providers
  return providers

/-- The data of a request that goes to a capability that was not asked for. -/
def rerouted (capability : String) : Json → Json
  | .obj fields => .obj (Fields.insert fields "original_capability" (.str capability))
  | other => .obj [("original_capability", .str capability), ("data", other)]

/-- Ask every provider of a capability, or of the fallback when there is none. -/
def requestOrFallback (fallback : Option String) (sender capability : String) (data : Json)
    (requestId : String) : Routine (Except Fault (List String)) := do
  let providers ← request sender capability data requestId
  if !providers.isEmpty then return .ok providers
  match fallback.filter (· != capability) with
  | none => return .error (.notAvailable capability)
  | some other =>
    let providers ← request sender other (rerouted capability data) requestId
    return if providers.isEmpty then .error (.notAvailable capability) else .ok providers

/-- Wait for the first reply. When the time is up, the place for the request is cleared; that is a
step of its own, and others may come in between. -/
def awaitReply (w : Waiter) (timeout : Nat) : Routine (Except Fault Message) := do
  let answer : Except Fault Message ← perform (.reply w timeout)
  match answer with
  | .error (.timeout ..) =>
    perform (.giveUp w)
    return answer
  | _ => return answer

/-- The fault of an agent without a network. -/
def detached (name : String) : Fault :=
  .agent ("agent '" ++ name ++ "' is not attached to a live network")

/-- Hold the network while something is done for an agent. -/
def holding {α : Type} (agent : Nat) (name : String) (work : Routine α) :
    Routine (Except Fault α) := do
  let attached : Bool ← perform (.attached agent)
  let live : Bool ← if attached then perform .hold else pure false
  if live then
    let a ← work
    perform .release
    return .ok a
  else return .error (detached name)

/-- An agent sends a message. -/
def sendFor (agent : Nat) (name : String) (draft : Stamp → Message) :
    Routine (Except Fault Unit) :=
  holding agent name do
    let stamp : Stamp ← perform .stamp
    send (draft stamp)

/-- An agent asks for a capability. The record of the request is there before the first reply can
be, and is given up if nobody provides the capability. -/
def requestFor (agent : Nat) (name capability : String) (data : Json) (requestId : String) :
    Routine (Except Fault (List String)) :=
  holding agent name do
    let expected : List String ← perform (.providers capability)
    if !expected.isEmpty then perform (.track agent requestId capability expected data)
    let providers ← request name capability data requestId
    if providers.isEmpty then perform (.untrack agent requestId)
    return providers

end Switchboard.Network
