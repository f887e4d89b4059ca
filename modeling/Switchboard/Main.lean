import Switchboard.Console.Config
import Switchboard.Console.Demo
import Switchboard.Console.Status

/-!
# The command line

* `Console.command?` : the command that the arguments name;
* `main` : read the settings file, run the command, print its text and write what it changed.
-/

namespace Switchboard.Console

/-- A command. -/
inductive Command where
  | status
  | showConfig
  | configPath
  | initConfig (force : Bool)
  | configSchema
  | demo (sequential failCalendar : Bool)
  deriving DecidableEq, Repr, Inhabited

/-- The command that the arguments name. -/
def command? (arguments : List String) : Option Command :=
  let (flags, words) := arguments.partition (·.startsWith "-")
  match words with
  | ["status"] => some .status
  | ["config", "show"] => some .showConfig
  | ["config", "path"] => some .configPath
  | ["config", "init"] => some (.initConfig (flags.contains "--force"))
  | ["config", "schema"] => some .configSchema
  | ["demo"] => some (.demo (flags.contains "--sequential") (flags.contains "--fail-calendar"))
  | _ => none

/-- Run a command; nothing if the settings allow no network. -/
def Command.run (c : Command) (place : String) (input : List UInt8) (h : Home) :
    Option Transcript :=
  match c with
  | status => some (Console.status place h)
  | showConfig => some (Console.showConfig place h)
  | configPath => some (Console.configPath place h)
  | initConfig force => some (Console.initConfig place force input h)
  | configSchema => some (Console.configSchema h)
  | demo sequential failCalendar => Console.demo sequential failCalendar h

/-- Whether a command asks a question first. -/
def Command.asks (c : Command) (h : Home) : Bool :=
  match c with
  | initConfig force => asksFirst force h
  | _ => false

/-- What stands at a place. -/
def readPlace (place : String) : IO ConfigFile := do
  try
    return .file (← IO.FS.readBinFile place).toList
  catch
    | .noFileOrDirectory .. => return .missing
    | _ => return .directory

/-- What stands where settings are kept. -/
def readHome (base place : String) : IO Home := do
  match ← readPlace base with
  | .file _ => return { isBlocked := true }
  | _ => return { config := ← readPlace place }

/-- Ask the question that comes first, and read the answer. -/
def readAnswer : IO (List UInt8) := do
  let stdout ← IO.getStdout
  stdout.putStr question
  stdout.flush
  return Utf8.encode (← (← IO.getStdin).getLine)

/-- Run the command that the arguments name. -/
def runCommand (arguments : List String) : IO UInt32 := do
  let base := (← IO.getEnv "HOME").getD "." ++ "/.jarvis"
  let place := base ++ "/config.json"
  match command? arguments with
  | none =>
    IO.eprintln "usage: jarvis status | config show|path|init|schema | demo"
    return 2
  | some command =>
    let home ← readHome base place
    let asks := command.asks home
    let input ← if asks then readAnswer else pure []
    match command.run place input home with
    | none =>
      IO.eprintln "Error: the settings allow no network"
      return 1
    | some t =>
      IO.print (if asks then (t.text.drop question.length).toString else t.text)
      if t.home ≠ home then
        if let .file bytes := t.home.config then
          IO.FS.createDirAll base
          IO.FS.writeBinFile place ⟨bytes.toArray⟩
      match t.failure with
      | none => return 0
      | some f =>
        IO.eprintln ("Error: " ++ f.message)
        return 1

end Switchboard.Console

/-- Run the command that the arguments name. -/
def main (arguments : List String) : IO UInt32 := Switchboard.Console.runCommand arguments
