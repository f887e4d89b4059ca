import Switchboard.Agent.Orchestrating
import Switchboard.Console.Transcript
import Switchboard.World.Run

/-!
# A scenario

Three agents switch lights on, read a calendar and send a summary, and a fourth orchestrates them.

* `lights`, `calendar`, `notify` : the capabilities; `Demo.world` : a network with their agents;
* `Demo.ask` : the request to the orchestrator;
* `demo` : the scenario and an account of it.
-/

namespace Switchboard.Console

namespace Demo

/-- Look into nested objects. -/
def dig (v : Json) (path : List String) : Json := path.foldl Json.getD v

/-- Switch the lights of a room on. -/
def lights : Capability where
  descriptor := ⟨"lights_on", "Switch the lights on"⟩
  run := fun _ data => do
    perform (.pause 200)
    let room := (dig data ["parameters", "room"]).string?.getD "living room"
    return .ok (.obj [("response", .str ("Lights on in the " ++ room)), ("room", .str room)])

/-- An event of a calendar. -/
def event (time title : String) : Json := .obj [("time", .str time), ("title", .str title)]

/-- Read today's calendar, which may be out of order. -/
def calendar (fails : Bool) : Capability where
  descriptor := ⟨"get_schedule", "Read today's calendar"⟩
  run := fun _ _ => do
    perform (.pause 300)
    if fails then return .error (.unavailable "calendar service is down" (some 30) none none)
    return .ok (.obj [
      ("response", .str "2 events today"),
      ("events", .arr [event "09:30" "Standup", event "14:00" "Dentist"])])

/-- What an earlier step came to. -/
def told (step : Json) : String :=
  match RunReport.errorOf (step.getD "result") with
  | some text => (step.getD "capability").string?.getD "?" ++ " failed: " ++ text
  | none => (dig step ["result", "response"]).string?.getD ""

/-- Send a summary of the earlier steps. -/
def notify : Capability where
  descriptor := ⟨"send_summary", "Notify the user"⟩
  run := fun _ data => do
    perform (.pause 50)
    let earlier := (dig data ["context", "previous_results"]).items?.getD []
    return .ok (.obj [("response", .str ("Sent summary: " ++ "; ".intercalate (earlier.map told)))])

/-- The agents of the scenario. -/
def agents (s : Settings) (failCalendar : Bool) : List Agent :=
  [ .offering "lights" [lights] "Home automation",
    .offering "calendar" [calendar failCalendar] "Calendar access"
      (some (.ofSettings s.resilience.breaker)),
    .offering "notify" [notify] "Notifications",
    .orchestrating "orchestrator" s.orchestrator]

/-- A running network with the agents of the scenario. -/
def world (s : Settings) (failCalendar : Bool) : World :=
  let w := (agents s failCalendar).foldl (fun w a =>
    let (w, agent) := w.create a
    w.register agent) (World.opened s)
  w.start.settle

/-- The names of the steps. -/
def steps : List String := ["lights_on", "get_schedule"]

/-- The request as jobs that are done one after another. -/
def sequenceData : Json :=
  .obj [("tasks", .arr [
    .obj [
      ("capability", .str "lights_on"),
      ("parameters", .obj [("room", .str "kitchen")])],
    .obj [("capability", .str "get_schedule")],
    .obj [("capability", .str "send_summary"), ("depends_on", Json.strings steps)]])]

/-- The request as a graph. -/
def graphData : Json :=
  .obj [
    ("dag", .obj [
      ("lights_on", .arr []),
      ("get_schedule", .arr []),
      ("send_summary", Json.strings steps)]),
    ("prompt", .str "Turn on the lights, check my calendar and send me a summary"),
    ("parameters", .obj [("lights_on", .obj [("room", .str "kitchen")])])]

/-- Ask the orchestrator, and wait for its reply a little longer than it may take. -/
def ask (s : Settings) (sequential : Bool) : Routine (Except Fault Message) := do
  let requestId := "demo"
  let waiter : Waiter ← perform (.expect requestId)
  let _ ← Network.request "cli" Agent.orchestrateCapability
    (if sequential then sequenceData else graphData) requestId
  Network.awaitReply waiter (s.orchestrator.requestTimeoutMs.toNat + 5000)

/-- Who provides what. -/
def agentLines (w : World) : List String :=
  ["Agents:"]
  ++ (w.bus.directory.sorted.map fun (capability, providers) =>
    "  " ++ padRight 18 capability ++ " " ++ ", ".intercalate providers)
  ++ [""]

/-- What the orchestrator replied. -/
def replyLines (reply : Message) : List String :=
  match reply.faultReport? with
  | some report => ["❌ Orchestration failed: " ++ report.message]
  | none =>
    let response := (reply.content.getD "response").string?.getD ""
    ["Response:"] ++ (splitLines response).map ("  " ++ ·)
    ++ ["", "Results:", (reply.content.getD "results").pretty]
    ++ (if (reply.content.getD "fell_back").bool?.getD false then
      ["⚠ dependency cycle detected, ran sequentially"] else [])

/-- The breakers of all agents. -/
def breakerLines (w : World) : List String :=
  w.actors.flatMap fun actor => (actor.breakers.map (·.sorted)).getD [] |>.map fun b =>
    "Breaker " ++ padRight 14 b.name ++ " " ++ b.breaker.state.name ++ " ("
      ++ toString b.breaker.failureCount ++ " failures)"

end Demo

/-- Run the scenario, its steps one after another or as a graph; nothing if there cannot be a
network of the settings. -/
def demo (sequential failCalendar : Bool) (h : Home) : Option Transcript :=
  match h.settings with
  | .error f => some { text := "", failure := some f, home := h }
  | .ok s =>
    if !Bus.canOpen s.network then none
    else
      let w := Demo.world s failCalendar
      let head := lines (Demo.agentLines w)
      let (later, user) := w.run (Demo.ask s sequential).program
      match user with
      | .ended (.ok reply) =>
        let elapsed := Span.ofMillis (later.now - w.now)
        some {
          text := head ++ lines (Demo.replyLines reply ++ ["", "Finished in " ++ elapsed.text]
            ++ Demo.breakerLines later)
          home := h }
      | .ended (.error f) => some { text := head, failure := some f, home := h }
      | _ => none

end Switchboard.Console
