/-!
# JSON values

Objects keep their keys in the order in which they were first written, because that order is
visible: it decides the order of a dependency graph and the text of every printed value.

* `Number` : an integer or a double; integers are kept apart from doubles of equal value;
* `Json` : a value; `Fields` : the entries of an object;
* `Fields.get?`, `Fields.insert` : look a key up; replace its value in place or append it;
* `Json.get?`, `Json.getD` : a field of a value, absent unless the value is an object;
* `Json.string?`, `Json.word?`, `Json.items?`, `Json.fields?` : the value read as one kind.
-/

namespace Switchboard

/-- A number as JSON tells it apart: written as an integer or not. -/
inductive Number where
  | int (i : Int)
  | double (x : Float)
  deriving DecidableEq, Inhabited

/-- The double nearest to a number. -/
def Number.toFloat : Number → Float
  | .int i => Float.ofInt i
  | .double x => x

/-- A JSON value. -/
inductive Json where
  | null
  | bool (b : Bool)
  | num (n : Number)
  | str (s : String)
  | arr (items : List Json)
  | obj (fields : List (String × Json))
  deriving Inhabited

/-- The entries of an object, in the order in which their keys were first written. -/
abbrev Fields := List (String × Json)

namespace Fields

/-- The value under a key. -/
def get? (fields : Fields) (key : String) : Option Json :=
  (fields.find? (·.1 == key)).map (·.2)

/-- Whether a key is present. -/
def has (fields : Fields) (key : String) : Bool :=
  fields.any (·.1 == key)

/-- Give a key a value: an existing key keeps its position, a new one goes to the end. -/
def insert : Fields → String → Json → Fields
  | [], key, value => [(key, value)]
  | (k, v) :: rest, key, value =>
    if k == key then (k, value) :: rest else (k, v) :: insert rest key value

/-- Entries written one after another, a repeated key counting as a new value for the first. -/
def ofEntries (entries : List (String × Json)) : Fields :=
  entries.foldl (fun fields entry => fields.insert entry.1 entry.2) []

end Fields

namespace Json

/-- An integer. -/
abbrev int (i : Int) : Json := .num (.int i)

/-- A natural number. -/
abbrev nat (n : Nat) : Json := .num (.int n)

/-- A double. -/
abbrev double (x : Float) : Json := .num (.double x)

/-- A double that may not be finite, null standing for one that is not. -/
def ofFloat (x : Float) : Json := if x.isFinite then .double x else .null

/-- A list of strings. -/
def strings (items : List String) : Json := .arr (items.map .str)

/-- A value that may be absent, absent ones being null. -/
def ofOption {α : Type} (encode : α → Json) : Option α → Json
  | none => .null
  | some a => encode a

/-- A field of an object; nothing for any other value. -/
def get? : Json → String → Option Json
  | .obj fields, key => Fields.get? fields key
  | _, _ => none

/-- A field of an object, null where there is none. -/
def getD (v : Json) (key : String) : Json := (v.get? key).getD .null

/-- The text of a string value. -/
def string? : Json → Option String
  | .str s => some s
  | _ => none

/-- The truth value of a boolean. -/
def bool? : Json → Option Bool
  | .bool b => some b
  | _ => none

/-- An integer that fits an unsigned 64-bit word. -/
def word? : Json → Option UInt64
  | .num (.int i) => if 0 ≤ i ∧ i < UInt64.size then some (UInt64.ofNat i.toNat) else none
  | _ => none

/-- The items of an array. -/
def items? : Json → Option (List Json)
  | .arr items => some items
  | _ => none

/-- The entries of an object. -/
def fields? : Json → Option Fields
  | .obj fields => some fields
  | _ => none

/-- Whether a value is null. -/
def isNull : Json → Bool
  | .null => true
  | _ => false

/-! ## Equality -/

mutual

/-- Equality of values is decidable. -/
def decEq : (a b : Json) → Decidable (a = b)
  | .null, b => by cases b <;> first | exact isTrue rfl | exact isFalse (by simp)
  | .bool x, b => by
    cases b with
    | bool y =>
      exact if h : x = y then isTrue (by rw [h]) else isFalse (by simpa using h)
    | _ => exact isFalse (by simp)
  | .num x, b => by
    cases b with
    | num y =>
      exact if h : x = y then isTrue (by rw [h]) else isFalse (by simpa using h)
    | _ => exact isFalse (by simp)
  | .str x, b => by
    cases b with
    | str y =>
      exact if h : x = y then isTrue (by rw [h]) else isFalse (by simpa using h)
    | _ => exact isFalse (by simp)
  | .arr xs, b => by
    cases b with
    | arr ys =>
      exact match decEqItems xs ys with
        | isTrue h => isTrue (by rw [h])
        | isFalse h => isFalse (by simpa using h)
    | _ => exact isFalse (by simp)
  | .obj xs, b => by
    cases b with
    | obj ys =>
      exact match decEqFields xs ys with
        | isTrue h => isTrue (by rw [h])
        | isFalse h => isFalse (by simpa using h)
    | _ => exact isFalse (by simp)

/-- Equality of lists of values is decidable. -/
def decEqItems : (xs ys : List Json) → Decidable (xs = ys)
  | [], [] => isTrue rfl
  | [], _ :: _ => isFalse (by simp)
  | _ :: _, [] => isFalse (by simp)
  | x :: xs, y :: ys =>
    match decEq x y, decEqItems xs ys with
    | isTrue h, isTrue h' => isTrue (by rw [h, h'])
    | isFalse h, _ => isFalse (by simp [h])
    | _, isFalse h => isFalse (by simp [h])

/-- Equality of object entries is decidable. -/
def decEqFields : (xs ys : List (String × Json)) → Decidable (xs = ys)
  | [], [] => isTrue rfl
  | [], _ :: _ => isFalse (by simp)
  | _ :: _, [] => isFalse (by simp)
  | (k, x) :: xs, (l, y) :: ys =>
    if hk : k = l then
      match decEq x y, decEqFields xs ys with
      | isTrue h, isTrue h' => isTrue (by rw [hk, h, h'])
      | isFalse h, _ => isFalse (by simp [h])
      | _, isFalse h => isFalse (by simp [h])
    else isFalse (by simp [hk])

end

instance : DecidableEq Json := decEq

end Json

end Switchboard
