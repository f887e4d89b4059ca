/-!
# The shortest decimal that reads back

A finite double stands for an interval of reals, those that round to it. Of the decimals in this
interval the ones with the fewest digits are kept, and of those the one nearest to the double.
Everything is exact arithmetic on natural numbers.

* `Decimal` : `digits · 10 ^ exponent`;
* `Binary` : `significand · 2 ^ exponent`, `Binary.ofBits` : the magnitude of a double;
* `Binary.shortest` : the shortest decimal, an exact tie going to the even digit.
-/

namespace Switchboard

/-- The number `digits · 10 ^ exponent`. -/
structure Decimal where
  digits : Nat
  exponent : Int
  deriving DecidableEq, Repr, Inhabited

/-- Move trailing zeros of the digits into the exponent. -/
def Decimal.strip (d : Decimal) : Decimal :=
  go d.digits d d.digits
where
  /-- Strip at most `fuel` zeros. -/
  go : Nat → Decimal → Nat → Decimal
    | 0, d, _ => d
    | fuel + 1, d, n =>
      if n ≠ 0 ∧ n % 10 = 0 then go fuel ⟨n / 10, d.exponent + 1⟩ (n / 10) else d

/-- The number `significand · 2 ^ exponent`; `narrow` when the gap below it is half the gap
above, which is so at a power of two. -/
structure Binary where
  significand : Nat
  exponent : Int
  narrow : Bool
  deriving DecidableEq, Repr, Inhabited

namespace Binary

/-- The magnitude of the finite double with the given bits. -/
def ofBits (bits : UInt64) : Binary :=
  let fraction : Nat := bits.toNat % Nat.pow 2 52
  let biased : Nat := bits.toNat / Nat.pow 2 52 % Nat.pow 2 11
  if biased = 0 then ⟨fraction, -1074, false⟩
  else ⟨Nat.pow 2 52 + fraction, (biased : Int) - 1075, fraction = 0 && biased != 1⟩

/-- A quarter of the gap above the number is `unit.1 / unit.2`. -/
def unit (b : Binary) : Nat × Nat :=
  if 0 ≤ b.exponent then (Nat.pow 2 b.exponent.toNat, 4)
  else (1, 4 * Nat.pow 2 (-b.exponent).toNat)

/-- The number itself, counted in units. -/
def inUnits (b : Binary) : Nat := 4 * b.significand

/-- Half the gap below the number, counted in units. -/
def below (b : Binary) : Nat := if b.narrow then 1 else 2

/-- The position of the leading digit: the largest `e` with `10 ^ e` at most `num / den`. -/
def leading (num den : Nat) : Int :=
  if den ≤ num then ((toString (num / den)).length : Int) - 1 else down 400 1 (num * 10)
where
  /-- Count the places after the point before the first digit. -/
  down : Nat → Nat → Nat → Int
    | 0, places, _ => -(places : Int)
    | fuel + 1, places, scaled =>
      if den ≤ scaled then -(places : Int) else down fuel (places + 1) (scaled * 10)

/-- Whether `digits · num` over `den`, counted in units, rounds back to the number. -/
def covers (b : Binary) (digits num den : Nat) : Bool :=
  let lower := (b.inUnits - b.below) * den
  let upper := (b.inUnits + 2) * den
  let point := digits * num
  if b.significand % 2 = 0 then lower ≤ point && point ≤ upper
  else lower < point && point < upper

/-- The decimal with its last digit at place `exponent` that rounds back to the number, if there
is one: the nearer of the two neighbours on that grid, the even one at a tie. -/
def onGrid (b : Binary) (exponent : Int) : Option Decimal :=
  let (unitNum, unitDen) := b.unit
  let num := unitDen * Nat.pow 10 exponent.toNat
  let den := unitNum * Nat.pow 10 (-exponent).toNat
  let floor := b.inUnits * den / num
  let lowerGap := b.inUnits * den - floor * num
  let upperGap := (floor + 1) * num - b.inUnits * den
  let low : Decimal := ⟨floor, exponent⟩
  let high : Decimal := ⟨floor + 1, exponent⟩
  match floor ≠ 0 && b.covers floor num den, b.covers (floor + 1) num den with
  | true, true =>
    if lowerGap < upperGap || (lowerGap = upperGap && floor % 2 = 0) then some low else some high
  | true, false => some low
  | false, true => some high
  | false, false => none

/-- The shortest decimal that rounds back to the number. -/
def shortest (b : Binary) : Decimal :=
  if b.significand = 0 then ⟨0, 0⟩
  else
    let (unitNum, unitDen) := b.unit
    let first := leading (b.inUnits * unitNum) unitDen
    match (List.range 17).findSome? fun (i : Nat) => b.onGrid (first - i) with
    | some d => d.strip
    | none => ⟨0, 0⟩

end Binary

end Switchboard
