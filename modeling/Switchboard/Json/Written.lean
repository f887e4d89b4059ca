import Switchboard.Json.Basic

/-!
# JSON as it is written

A text says more than its value: a key may be written twice, and parts that nobody looks at may
hold numbers out of range and unpaired surrogates. `Written` keeps all of it, so that a reader of
one type can refuse what concerns it and pass over the rest.

* `Written` : a syntactically correct text;
* `Written.toJson?` : its value, if every part has one and it nests at most so many levels deep;
* `Json.written` : a value seen as a text; `Json.depth` : how deep it nests.
-/

namespace Switchboard

/-- A syntactically correct JSON text. -/
inductive Written where
  | null
  | bool (b : Bool)
  /-- A number, if it is in range. -/
  | num (n : Option Number)
  /-- A string, if its bytes and escapes spell characters. -/
  | str (s : Option String)
  | arr (items : List Written)
  | obj (members : List (Option String × Written))
  deriving Inhabited

/-- How many levels of arrays and objects a text may nest. -/
def nestingLimit : Nat := 127

namespace Written

mutual

/-- The value of a text that nests at most `room` levels. -/
def toJson? : Nat → Written → Option Json
  | _, .null => some .null
  | _, .bool b => some (.bool b)
  | _, .num n => n.map .num
  | _, .str s => s.map .str
  | 0, .arr _ => none
  | room + 1, .arr items => (itemsToJson? room items).map .arr
  | 0, .obj _ => none
  | room + 1, .obj members => (membersToJson? room members).map (.obj ∘ Fields.ofEntries)

/-- The values of the items of an array. -/
def itemsToJson? : Nat → List Written → Option (List Json)
  | _, [] => some []
  | room, w :: rest => do
    let v ← toJson? room w
    let vs ← itemsToJson? room rest
    return v :: vs

/-- The entries of an object as they are written. -/
def membersToJson? : Nat → List (Option String × Written) → Option (List (String × Json))
  | _, [] => some []
  | room, (key, w) :: rest => do
    let key ← key
    let v ← toJson? room w
    let vs ← membersToJson? room rest
    return (key, v) :: vs

end

end Written

namespace Json

mutual

/-- A value seen as a text. -/
def written : Json → Written
  | .null => .null
  | .bool b => .bool b
  | .num n => .num (some n)
  | .str s => .str (some s)
  | .arr items => .arr (writtenItems items)
  | .obj fields => .obj (writtenFields fields)

/-- Items seen as texts. -/
def writtenItems : List Json → List Written
  | [] => []
  | v :: rest => written v :: writtenItems rest

/-- Entries seen as texts. -/
def writtenFields : List (String × Json) → List (Option String × Written)
  | [] => []
  | (key, v) :: rest => (some key, written v) :: writtenFields rest

end

mutual

/-- How many levels of arrays and objects a value nests. -/
def depth : Json → Nat
  | .null | .bool _ | .num _ | .str _ => 0
  | .arr items => depthItems items + 1
  | .obj fields => depthFields fields + 1

/-- The depth of the deepest item. -/
def depthItems : List Json → Nat
  | [] => 0
  | v :: rest => max (depth v) (depthItems rest)

/-- The depth of the deepest entry. -/
def depthFields : List (String × Json) → Nat
  | [] => 0
  | (_, v) :: rest => max (depth v) (depthFields rest)

end

end Json

end Switchboard
