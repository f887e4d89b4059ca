import Switchboard.Fault
import Switchboard.Json.Reader
import Switchboard.Json.Printer
import Switchboard.Settings

/-!
# Where settings are kept

* `ConfigFile` : what stands at the place of the settings file; `Home` : that, and whether there can
  be such a place;
* `ConfigFile.load` : the settings, those of a missing file being the standard ones;
* `Settings.text` : the text that is saved; `Home.save` : save it.
-/

namespace Switchboard

/-- What stands at the place of the settings file. -/
inductive ConfigFile where
  | missing
  | directory
  | file (bytes : List UInt8)
  deriving DecidableEq, Repr, Inhabited

/-- The settings in a text. -/
def Settings.parse (text : String) : Except Fault Settings :=
  match (Written.ofBytes? (Utf8.encode text)).bind (Reading.ofText? Settings.read) with
  | some s => .ok s
  | none => .error (.json "the text holds no settings")

/-- The text of settings in a file. -/
def Settings.text (s : Settings) : String := s.toJson.pretty

namespace ConfigFile

/-- Whether there is anything. -/
def isThere : ConfigFile → Bool
  | missing => false
  | _ => true

/-- The settings of the file, or the standard ones if there is no file. -/
def load : ConfigFile → Except Fault Settings
  | missing => .ok {}
  | directory => .error (.io "the settings file is a directory")
  | file bytes =>
    match Utf8.decode? bytes with
    | some text => Settings.parse text
    | none => .error (.io "the settings file is no text")

end ConfigFile

/-- The place where settings are kept. -/
structure Home where
  /-- A plain file stands where the directory of the settings should be. -/
  isBlocked : Bool := false
  config : ConfigFile := .missing
  deriving DecidableEq, Repr, Inhabited

namespace Home

/-- What stands at the place of the settings file. -/
def configFile (h : Home) : ConfigFile := if h.isBlocked then .missing else h.config

/-- The settings that are in force. -/
def settings (h : Home) : Except Fault Settings := h.configFile.load

/-- Save settings; the place must not be blocked, nor be a directory. -/
def save (h : Home) (s : Settings) : Except Fault Home :=
  if h.isBlocked then .error (.io "the directory of the settings is a file")
  else match h.config with
    | .directory => .error (.io "the settings file is a directory")
    | _ => .ok { h with config := .file (Utf8.encode s.text) }

end Home

end Switchboard
