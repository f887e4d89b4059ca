import Switchboard.Console.Home

/-!
# What a command prints

* `Transcript` : the printed text, how the command failed if it did, and the place where settings
  are kept afterwards;
* `lines`, `padRight`, `splitLines` : text in lines and columns.
-/

namespace Switchboard.Console

/-- What a command did. -/
structure Transcript where
  text : String
  failure : Option Fault := none
  home : Home
  deriving DecidableEq, Inhabited

/-- Texts on a line each. -/
def lines (texts : List String) : String := String.join (texts.map (· ++ "\n"))

/-- A text in a column of at least `width` characters. -/
def padRight (width : Nat) (s : String) : String := s ++ "".pushn ' ' (width - s.length)

/-- A line without the carriage return that belongs to the break after it. -/
def dropReturn (line : String) : String :=
  if line.toList.getLast? = some '\r' then String.ofList line.toList.dropLast else line

/-- The lines of a text, without the line breaks; a break at the end starts no line. -/
def splitLines (s : String) : List String :=
  let parts := s.splitOn "\n"
  let last := parts.getLast?.getD ""
  parts.dropLast.map dropReturn ++ if last.isEmpty then [] else [last]

/-- Yes or no. -/
def truth (b : Bool) : String := if b then "true" else "false"

end Switchboard.Console
