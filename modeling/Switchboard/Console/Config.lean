import Switchboard.Console.Transcript
import Switchboard.Text.Blank

/-!
# Commands on the settings file

* `showConfig`, `configPath` : the settings in force, and where they are kept;
* `initConfig` : write the standard settings, asking before anything is overwritten;
* `configSchema` : the JSON schema of the settings.
-/

namespace Switchboard.Console

/-- The settings in force; `place` is the name of the settings file. -/
def showConfig (place : String) (h : Home) : Transcript :=
  match h.settings with
  | .error f => { text := "", failure := some f, home := h }
  | .ok s =>
    let note := if h.configFile.isThere then "" else " (not found, showing defaults)"
    { text := lines ["", "📋 Current Configuration", "  File: " ++ place ++ note, "", s.text]
      home := h }

/-- Where the settings are kept. -/
def configPath (place : String) (h : Home) : Transcript := { text := lines [place], home := h }

/-- The question before the settings file is overwritten. -/
def question : String := "Config already exists. Overwrite? [y/N] "

/-- What is printed once the settings are written. -/
def created (place : String) : String :=
  lines [
    "✓ Created config: " ++ place,
    "",
    "Next steps:",
    "  1. Edit " ++ place ++ " to tune timeouts and retry policy",
    "  2. Run `jarvis status` to verify configuration",
    "  3. Run `jarvis demo` to watch a request run across agents"]

/-- Write the standard settings; `printed` has been printed before. -/
def writeConfig (place printed : String) (h : Home) : Transcript :=
  match h.save {} with
  | .error f => { text := printed, failure := some f, home := h }
  | .ok home => { text := printed ++ created place, home }

/-- Whether a line means yes. -/
def isYes (line : String) : Bool :=
  let word := Text.trim line
  word == "y" || word == "Y"

/-- The first line of an input, if it is text. -/
def firstLine? (input : List UInt8) : Option String :=
  Utf8.decode? (input.takeWhile (· ≠ 10))

/-- Whether a question is asked before the standard settings are written. -/
def asksFirst (force : Bool) (h : Home) : Bool := h.configFile.isThere && !force

/-- Write the standard settings. What is there is overwritten by force, or if the line read from
`input` means yes. -/
def initConfig (place : String) (force : Bool) (input : List UInt8) (h : Home) : Transcript :=
  if asksFirst force h then
    match firstLine? input with
    | none => { text := question, failure := some (.io "the input is no text"), home := h }
    | some line =>
      if isYes line then writeConfig place question h
      else { text := question ++ lines ["Aborted."], home := h }
  else writeConfig place "" h

/-! ## The schema -/

/-- The schema of an object. -/
def objectSchema (properties : Fields) : Json :=
  .obj [("type", .str "object"), ("properties", .obj properties)]

/-- The schema of a value of a type, with a standard value and a description where there is one. -/
def valueSchema (type : String) (standard : Option Json := none)
    (description : Option String := none) : Json :=
  .obj ([("type", .str type)] ++ (standard.map fun v => ("default", v)).toList
    ++ (description.map fun d => ("description", Json.str d)).toList)

/-- The schema of an integer. -/
def integerSchema (standard : Nat) (description : Option String := none) : Json :=
  valueSchema "integer" (some (.nat standard)) description

/-- The schema of a list. -/
def listSchema (type : String) (more : Fields) : Json :=
  .obj ([("type", .str "array"), ("items", .obj [("type", .str type)])] ++ more)

/-- The schema of the settings of external services. -/
def resilienceSchema : Json :=
  objectSchema [
    ("breaker", objectSchema [
      ("failureThreshold", integerSchema 5),
      ("recoveryTimeoutMs", integerSchema 60000),
      ("halfOpenMaxCalls", integerSchema 1)]),
    ("retry", objectSchema [
      ("maxRetries", integerSchema 3),
      ("baseDelayMs", integerSchema 1000),
      ("maxDelayMs", integerSchema 60000),
      ("exponentialBase", valueSchema "number" (some (.double 2.0))),
      ("retryOnTimeout", valueSchema "boolean" (some (.bool true))),
      ("retryOnConnectionError", valueSchema "boolean" (some (.bool true))),
      ("retryOnStatusCodes", listSchema "integer"
        [("default", .arr ([429, 500, 502, 503, 504].map Json.nat))])]),
    ("proxy", valueSchema "string" none (some "Proxy URL for outbound HTTP")),
    ("noProxy", listSchema "string" [("description", .str "Hosts that bypass the proxy")]),
    ("requestTimeoutMs", integerSchema 30000)]

/-- The schema of the settings. -/
def schema : Json :=
  .obj [
    ("$schema", .str "http://json-schema.org/draft-07/schema#"),
    ("title", .str "JarvisConfig"),
    ("description", .str "jarvis configuration file (~/.jarvis/config.json)"),
    ("type", .str "object"),
    ("properties", .obj [
      ("network", objectSchema [
        ("queueSize", integerSchema 1000 (some "Capacity of the central message queue")),
        ("fallbackCapability", valueSchema "string" (some (.str "chat"))
          (some "Capability asked when nobody provides the requested one; empty disables"))]),
      ("aggregator", objectSchema [
        ("defaultTimeoutMs", integerSchema 30000),
        ("sweepIntervalMs",
          integerSchema 1000 (some "How often expired aggregations are resolved"))]),
      ("orchestrator", objectSchema [
        ("capabilityTimeoutMs", integerSchema 15000 (some "Wait per capability request")),
        ("requestTimeoutMs",
          integerSchema 60000 (some "Deadline for a whole orchestrated request"))]),
      ("resilience", resilienceSchema)])]

/-- The JSON schema of the settings. -/
def configSchema (h : Home) : Transcript := { text := lines [schema.pretty], home := h }

end Switchboard.Console
