import Switchboard.Json.Numeral

/-!
# Printing JSON

* `Json.quoted` : a string with its escapes;
* `Json.compact` : a value on one line without blanks;
* `Json.pretty` : a value with one item a line, two blanks a level.
-/

namespace Switchboard.Json

/-- A hexadecimal digit in lower case. -/
def hexChar (n : Nat) : Char := Char.ofNat (if n < 10 then 48 + n else 87 + n)

/-- A character of a quoted string: the quote, the backslash and the characters below U+0020 are
escaped. -/
def escaped (c : Char) : String :=
  if c = '"' then "\\\""
  else if c = '\\' then "\\\\"
  else if c = '\n' then "\\n"
  else if c = '\r' then "\\r"
  else if c = '\t' then "\\t"
  else if c = '\x08' then "\\b"
  else if c = '\x0c' then "\\f"
  else if c.toNat < 32 then
    "\\u00" ++ String.ofList [hexChar (c.toNat / 16), hexChar (c.toNat % 16)]
  else String.singleton c

/-- A string in quotes. -/
def quoted (s : String) : String :=
  s.toList.foldl (fun text c => text ++ escaped c) "\"" ++ "\""

mutual

/-- A value on one line. -/
def compact : Json → String
  | .null => "null"
  | .bool b => if b then "true" else "false"
  | .num n => n.text
  | .str s => quoted s
  | .arr items => "[" ++ ",".intercalate (compactItems items) ++ "]"
  | .obj fields => "\x7b" ++ ",".intercalate (compactFields fields) ++ "\x7d"

/-- Items on one line each. -/
def compactItems : List Json → List String
  | [] => []
  | v :: rest => compact v :: compactItems rest

/-- Entries on one line each. -/
def compactFields : List (String × Json) → List String
  | [] => []
  | (key, v) :: rest => (quoted key ++ ":" ++ compact v) :: compactFields rest

end

/-- The start of a line at a level. -/
def indent (level : Nat) : String := "\n" ++ "".pushn ' ' (2 * level)

mutual

/-- A value whose lines stand at a level. -/
def prettyAt (level : Nat) : Json → String
  | .arr (v :: rest) =>
    "[" ++ ",".intercalate (prettyItems (level + 1) (v :: rest)) ++ indent level ++ "]"
  | .obj (entry :: rest) =>
    "\x7b" ++ ",".intercalate (prettyFields (level + 1) (entry :: rest)) ++ indent level ++ "\x7d"
  | .arr [] => "[]"
  | .obj [] => "\x7b\x7d"
  | .null => "null"
  | .bool b => if b then "true" else "false"
  | .num n => n.text
  | .str s => quoted s

/-- Items, each on a line of its own. -/
def prettyItems (level : Nat) : List Json → List String
  | [] => []
  | v :: rest => (indent level ++ prettyAt level v) :: prettyItems level rest

/-- Entries, each on a line of its own. -/
def prettyFields (level : Nat) : List (String × Json) → List String
  | [] => []
  | (key, v) :: rest =>
    (indent level ++ quoted key ++ ": " ++ prettyAt level v) :: prettyFields level rest

end

/-- A value with one item a line. -/
def pretty (v : Json) : String := prettyAt 0 v

end Switchboard.Json
