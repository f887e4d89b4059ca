import Switchboard.Json.Written

/-!
# Records in JSON

A record is written as an object or, positionally, as an array of its fields in order. An object
may hold fields that nobody knows, but none of the known ones twice; an array may end before the
fields that have a default, and may not be longer than the record.

* `Reading` : a reader of one type, given how many levels of nesting are left;
* `Record` : the fields that were written; `Record.of?` : the fields of a text;
* `Record.required?`, `Record.optional?`, `Record.orElse?` : a field that must be there, one that
  may be null or absent, one with a default;
* `Reading.string`, `Reading.bool`, `Reading.word64`, … : readers of plain values.
-/

namespace Switchboard

/-- A reader of one type: how many levels of arrays and objects are left, and the text. -/
abbrev Reading (α : Type) := Nat → Written → Option α

/-- The fields of a record that were written. -/
structure Record where
  /-- Written as an array. -/
  positional : Bool
  /-- Levels of nesting left for the fields. -/
  room : Nat
  fields : List (String × Written)

namespace Record

/-- The known members of an object; nothing if a key is no string or a known one comes twice. -/
def known? (names : List String) : List (Option String × Written) → Option (List (String × Written))
  | [] => some []
  | (key, value) :: rest => do
    let key ← key
    let fields ← known? names rest
    if !names.contains key then some fields
    else if fields.any (·.1 == key) then none
    else some ((key, value) :: fields)

/-- The fields of a text, given the names of all fields in order. -/
def of? (names : List String) : Reading Record
  | room + 1, .obj members => (known? names members).map (⟨false, room, ·⟩)
  | room + 1, .arr items =>
    if items.length ≤ names.length then some ⟨true, room, names.zip items⟩ else none
  | _, _ => none

/-- The text of a field. -/
def find? (r : Record) (name : String) : Option Written :=
  (r.fields.find? (·.1 == name)).map (·.2)

/-- A field that must be there. -/
def required? {α : Type} (r : Record) (name : String) (read : Reading α) : Option α := do
  read r.room (← r.find? name)

/-- A field that may be null, and absent from an object but not from an array. -/
def optional? {α : Type} (r : Record) (name : String) (read : Reading α) : Option (Option α) :=
  match r.find? name with
  | none => if r.positional then none else some none
  | some .null => some none
  | some w => (read r.room w).map some

/-- A field with a default. -/
def orElse? {α : Type} (r : Record) (name : String) (default : α) (read : Reading α) : Option α :=
  match r.find? name with
  | none => some default
  | some w => read r.room w

end Record

namespace Reading

/-- Any value. -/
def value : Reading Json := Written.toJson?

/-- A string. -/
def string : Reading String
  | _, .str s => s
  | _, _ => none

/-- A boolean. -/
def bool : Reading Bool
  | _, .bool b => some b
  | _, _ => none

/-- An integer below a bound. -/
def below (bound : Nat) : Reading Nat
  | _, .num (some (.int i)) => if 0 ≤ i ∧ i < bound then some i.toNat else none
  | _, _ => none

/-- An unsigned integer of 64 bits. -/
def word64 : Reading UInt64 := fun room w => (below UInt64.size room w).map UInt64.ofNat

/-- An unsigned integer of 32 bits. -/
def word32 : Reading UInt32 := fun room w => (below UInt32.size room w).map UInt32.ofNat

/-- An unsigned integer of 16 bits. -/
def word16 : Reading UInt16 := fun room w => (below UInt16.size room w).map UInt16.ofNat

/-- A number as a double. -/
def double : Reading Float
  | _, .num (some n) => some n.toFloat
  | _, _ => none

/-- A value or null. -/
def nullable {α : Type} (read : Reading α) : Reading (Option α)
  | _, .null => some none
  | room, w => (read room w).map some

/-- An array of items of one type. -/
def list {α : Type} (read : Reading α) : Reading (List α)
  | room + 1, .arr items => items.mapM (read room)
  | _, _ => none

/-- A name out of a few, written as a string or as the only key of an object with value null. -/
def choice {α : Type} (names : List (String × α)) : Reading α
  | _, .str (some name) => (names.find? (·.1 == name)).map (·.2)
  | _ + 1, .obj [(some name, .null)] => (names.find? (·.1 == name)).map (·.2)
  | _, _ => none

/-- Read a whole text. -/
def ofText? {α : Type} (read : Reading α) (w : Written) : Option α := read nestingLimit w

/-- Read a value, however deep it nests. -/
def ofJson? {α : Type} (read : Reading α) (v : Json) : Option α := read (v.depth + 1) v.written

end Reading

end Switchboard
