import Switchboard.Json.Numeral
import Switchboard.Json.Written
import Switchboard.Text.Utf8

/-!
# Reading JSON

* `Written.read?` : the syntax of JSON over bytes, blanks allowed around every token;
* `Written.ofBytes?` : a whole text; `Json.ofBytes?`, `Json.parse?` : its value.
-/

namespace Switchboard

namespace Written

/-- Drop leading blanks. -/
def skipBlanks : List UInt8 → List UInt8
  | [] => []
  | b :: rest =>
    if b = 32 ∨ b = 9 ∨ b = 10 ∨ b = 13 then skipBlanks rest else b :: rest

/-- The value of a hexadecimal digit. -/
def hexDigit? (b : UInt8) : Option Nat :=
  if 48 ≤ b ∧ b ≤ 57 then some (b.toNat - 48)
  else if 97 ≤ b ∧ b ≤ 102 then some (b.toNat - 87)
  else if 65 ≤ b ∧ b ≤ 70 then some (b.toNat - 55)
  else none

/-- Four hexadecimal digits. -/
def hex4? (a b c d : UInt8) : Option Nat := do
  let a ← hexDigit? a
  let b ← hexDigit? b
  let c ← hexDigit? c
  let d ← hexDigit? d
  return ((a * 16 + b) * 16 + c) * 16 + d

/-- A unit that opens a surrogate pair. -/
def isHighSurrogate (n : Nat) : Bool := 0xD800 ≤ n && n ≤ 0xDBFF

/-- A unit that closes a surrogate pair. -/
def isLowSurrogate (n : Nat) : Bool := 0xDC00 ≤ n && n ≤ 0xDFFF

/-- The bytes of a character. -/
def charBytes (n : Nat) : List UInt8 := Utf8.encode (String.singleton (Char.ofNat n))

/-- What a one-letter escape stands for. -/
def escape? (b : UInt8) : Option UInt8 :=
  if b = 34 ∨ b = 92 ∨ b = 47 then some b
  else if b = 98 then some 8
  else if b = 102 then some 12
  else if b = 110 then some 10
  else if b = 114 then some 13
  else if b = 116 then some 9
  else none

/-- A piece of a string: a byte, or the sixteen bits of an escape. -/
inductive Piece where
  | byte (b : UInt8)
  | unit (n : Nat)

/-- The pieces of a string after its opening quote, behind those already read in reverse, and
what follows the closing quote. Characters below U+0020 have to be escaped. -/
def pieces? : List Piece → List UInt8 → Option (List Piece × List UInt8)
  | _, [] => none
  | acc, 34 :: rest => some (acc.reverse, rest)
  | acc, 92 :: 117 :: a :: b :: c :: d :: rest =>
    match hex4? a b c d with
    | some n => pieces? (.unit n :: acc) rest
    | none => none
  | acc, 92 :: b :: rest =>
    match escape? b with
    | some b => pieces? (.byte b :: acc) rest
    | none => none
  | acc, b :: rest => if b < 32 ∨ b = 92 then none else pieces? (.byte b :: acc) rest

/-- The bytes that pieces spell, in reverse behind `acc`; nothing if a surrogate is unpaired. -/
def spell? : List UInt8 → List Piece → Option (List UInt8)
  | acc, [] => some acc
  | acc, .byte b :: rest => spell? (b :: acc) rest
  | acc, .unit n :: .unit m :: rest =>
    if isHighSurrogate n then
      if isLowSurrogate m then
        spell? ((charBytes (0x10000 + (n - 0xD800) * 0x400 + (m - 0xDC00))).reverse ++ acc) rest
      else none
    else if isLowSurrogate n then none
    else spell? ((charBytes n).reverse ++ acc) (.unit m :: rest)
  | acc, .unit n :: rest =>
    if isHighSurrogate n || isLowSurrogate n then none
    else spell? ((charBytes n).reverse ++ acc) rest

/-- A string after its opening quote. -/
def string? (text : List UInt8) : Option (Option String × List UInt8) := do
  let (pieces, rest) ← pieces? [] text
  return ((spell? [] pieces).bind fun bytes => Utf8.decode? bytes.reverse, rest)

mutual

/-- A value at the start of a text, and the rest. -/
def value? : Nat → List UInt8 → Option (Written × List UInt8)
  | 0, _ => none
  | fuel + 1, text =>
    match skipBlanks text with
    | 110 :: 117 :: 108 :: 108 :: rest => some (.null, rest)
    | 116 :: 114 :: 117 :: 101 :: rest => some (.bool true, rest)
    | 102 :: 97 :: 108 :: 115 :: 101 :: rest => some (.bool false, rest)
    | 34 :: rest => (string? rest).map fun (s, rest) => (.str s, rest)
    | 91 :: rest =>
      match skipBlanks rest with
      | 93 :: rest => some (.arr [], rest)
      | rest => (items? fuel rest).map fun (items, rest) => (.arr items, rest)
    | 123 :: rest =>
      match skipBlanks rest with
      | 125 :: rest => some (.obj [], rest)
      | rest => (members? fuel rest).map fun (members, rest) => (.obj members, rest)
    | text => (Numeral.read? text).map fun (n, rest) => (.num n.value?, rest)

/-- The items of an array up to its closing bracket. -/
def items? : Nat → List UInt8 → Option (List Written × List UInt8)
  | 0, _ => none
  | fuel + 1, text => do
    let (item, rest) ← value? fuel text
    match skipBlanks rest with
    | 44 :: rest => do
      let (items, rest) ← items? fuel rest
      return (item :: items, rest)
    | 93 :: rest => return ([item], rest)
    | _ => none

/-- The members of an object up to its closing brace. -/
def members? : Nat → List UInt8 → Option (List (Option String × Written) × List UInt8)
  | 0, _ => none
  | fuel + 1, text => do
    let (key, rest) ← match skipBlanks text with
      | 34 :: rest => string? rest
      | _ => none
    let rest ← match skipBlanks rest with
      | 58 :: rest => some rest
      | _ => none
    let (v, rest) ← value? fuel rest
    match skipBlanks rest with
    | 44 :: rest => do
      let (members, rest) ← members? fuel rest
      return ((key, v) :: members, rest)
    | 125 :: rest => return ([(key, v)], rest)
    | _ => none

end

/-- A whole text: one value with nothing but blanks around it. -/
def ofBytes? (bytes : List UInt8) : Option Written := do
  let (w, rest) ← value? (bytes.length + 1) bytes
  if skipBlanks rest = [] then some w else none

end Written

namespace Json

/-- The value of a text in bytes. -/
def ofBytes? (bytes : List UInt8) : Option Json := do
  (← Written.ofBytes? bytes).toJson? nestingLimit

/-- The value of a text. -/
def parse? (text : String) : Option Json := ofBytes? (Utf8.encode text)

end Json

end Switchboard
