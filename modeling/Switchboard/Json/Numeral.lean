import Switchboard.Json.Basic
import Switchboard.Decimal.Shortest

/-!
# Numbers as JSON text

* `Numeral` : a number as it is spelled, `Numeral.read?` : its grammar;
* `Numeral.value?` : what it stands for. Plain integers that fit 64 bits stay integers; every
  other numeral is a double, its first digits that fit 64 bits scaled by a power of ten in double
  arithmetic, and one beyond the range of doubles stands for nothing;
* `DoubleFormat` : where positional notation ends; `Number.text` : the text of a number.
-/

namespace Switchboard

/-- A number as it is spelled. -/
structure Numeral where
  negative : Bool
  whole : List Nat
  fraction : List Nat
  /-- Sign and digits of the exponent. -/
  exponent : Option (Bool × List Nat)
  /-- Neither point nor exponent. -/
  plain : Bool
  deriving DecidableEq, Repr, Inhabited

namespace Numeral

/-- The value of a decimal digit. -/
def digit? (b : UInt8) : Option Nat :=
  if 48 ≤ b ∧ b ≤ 57 then some (b.toNat - 48) else none

/-- The leading digits of a text, and the rest. -/
def digits : List UInt8 → List Nat × List UInt8
  | [] => ([], [])
  | b :: rest =>
    match digit? b with
    | some d => let (ds, tail) := digits rest; (d :: ds, tail)
    | none => ([], b :: rest)

/-- An optional point and the digits after it, of which there is at least one. -/
def fraction? : List UInt8 → Option (Option (List Nat) × List UInt8)
  | 46 :: rest =>
    match digits rest with
    | ([], _) => none
    | (ds, tail) => some (some ds, tail)
  | text => some (none, text)

/-- An optional sign, true for minus. -/
def sign : List UInt8 → Bool × List UInt8
  | 43 :: rest => (false, rest)
  | 45 :: rest => (true, rest)
  | text => (false, text)

/-- An optional exponent with at least one digit. -/
def exponent? : List UInt8 → Option (Option (Bool × List Nat) × List UInt8)
  | [] => some (none, [])
  | b :: rest =>
    if b = 101 ∨ b = 69 then
      let (negative, rest) := sign rest
      match digits rest with
      | ([], _) => none
      | (ds, tail) => some (some (negative, ds), tail)
    else some (none, b :: rest)

/-- A numeral at the start of a text, and the rest. The whole part is a single zero or starts
with another digit. -/
def read? (text : List UInt8) : Option (Numeral × List UInt8) := do
  let (negative, text) := match text with
    | 45 :: rest => (true, rest)
    | text => (false, text)
  let (whole, text) := digits text
  match whole with
  | [] => none
  | 0 :: _ :: _ => none
  | _ => pure ()
  let (fraction, text) ← fraction? text
  let (exponent, text) ← exponent? text
  return (⟨negative, whole, fraction.getD [], exponent, fraction.isNone && exponent.isNone⟩, text)

/-- Append digits to a significand as long as it fits `limit`; the significand and the digits
that did not fit. -/
def absorb (limit : Nat) : Nat → List Nat → Nat × List Nat
  | significand, [] => (significand, [])
  | significand, d :: ds =>
    if significand * 10 + d ≤ limit then absorb limit (significand * 10 + d) ds
    else (significand, d :: ds)

/-- The largest unsigned 64-bit word. -/
def wordMax : Nat := UInt64.size - 1

/-- A power of ten as a double. -/
def pow10 (n : Nat) : Float := Float.ofScientific 1 false n

/-- A significand scaled by a power of ten, one double operation at a time; nothing when the
result is too large for a double. -/
def scale? (significand : Nat) (exponent : Int) : Option Float :=
  let x := Float.ofNat significand
  if significand = 0 then some x
  else if 308 < exponent then none
  else if 0 ≤ exponent then
    let y := x * pow10 exponent.toNat
    if y.isInf then none else some y
  else if -308 ≤ exponent then some (x / pow10 (-exponent).toNat)
  else if -616 ≤ exponent then some (x / pow10 308 / pow10 (-exponent - 308).toNat)
  else some (Float.ofNat 0)

/-- The double that a significand, its power of ten and the written exponent stand for. An
exponent too long for 31 bits leaves zero, or nothing when it is positive. -/
def double? (significand : Nat) (places : Int) : Option (Bool × List Nat) → Option Float
  | none => scale? significand places
  | some (negative, ds) =>
    match absorb (Nat.pow 2 31 - 1) 0 ds with
    | (e, []) => scale? significand (if negative then places - e else places + e)
    | (_, _ :: _) => if significand ≠ 0 ∧ !negative then none else some (Float.ofNat 0)

/-- What a numeral stands for. -/
def value? (n : Numeral) : Option Number :=
  let (significand, dropped) := absorb wordMax 0 n.whole
  if n.plain ∧ dropped = [] ∧ !n.negative then some (.int significand)
  else if n.plain ∧ dropped = [] ∧ significand ≠ 0 ∧ significand ≤ Nat.pow 2 63 then
    some (.int (-(significand : Int)))
  else
    let (all, ignored) := absorb wordMax significand n.fraction
    let places : Int := (dropped.length : Int) - ((n.fraction.length : Int) - ignored.length)
    (double? all places n.exponent).map fun x => .double (if n.negative then -x else x)

end Numeral

/-! ## Writing -/

/-- Where the point of a positional double may stand, counted in digits after the leading one,
and from where on an exponent is written. -/
structure DoubleFormat where
  /-- The smallest power of ten of a positional leading digit. -/
  least : Int
  /-- The largest power of ten of a positional leading digit. -/
  greatest : Int
  deriving Repr

/-- JSON doubles are positional from `10 ^ -5` up to below `10 ^ 16`. -/
def Json.doubleFormat : DoubleFormat := ⟨-5, 15⟩

/-- A decimal in the given format: at least one digit on either side of a point, or a leading
digit, the other digits after a point, and an exponent with its sign. -/
def Decimal.text (format : DoubleFormat) (d : Decimal) : String :=
  let digits := toString d.digits
  let count := digits.length
  let first : Int := d.exponent + count - 1
  if format.least ≤ first ∧ first ≤ format.greatest then
    if 0 ≤ d.exponent then digits ++ "".pushn '0' d.exponent.toNat ++ ".0"
    else if 0 ≤ first then
      (digits.take (first.toNat + 1)).toString ++ "." ++ (digits.drop (first.toNat + 1)).toString
    else "0." ++ "".pushn '0' (-first - 1).toNat ++ digits
  else
    let tail := (digits.drop 1).toString
    (digits.take 1).toString ++ (if tail.isEmpty then "" else "." ++ tail)
      ++ (if first < 0 then "e-" else "e+") ++ toString first.natAbs

/-- The text of a double: the shortest decimal that reads back; null for one that is not
finite. -/
def Number.doubleText (x : Float) : String :=
  if x.isNaN || x.isInf then "null"
  else
    let sign := if x.toBits < 0x8000000000000000 then "" else "-"
    let magnitude := Binary.ofBits (x.toBits % 0x8000000000000000)
    if magnitude.significand = 0 then sign ++ "0.0"
    else sign ++ magnitude.shortest.text Json.doubleFormat

/-- The text of a number. -/
def Number.text : Number → String
  | .int i => toString i
  | .double x => Number.doubleText x

end Switchboard
