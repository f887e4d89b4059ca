import Switchboard.Text.Blank

/-!
# Timestamps

Points in time on the proleptic Gregorian calendar, read and written as RFC 3339 has it.

* `Timestamp` : seconds since 1970 and nanoseconds, a leap second having more than a billion;
* `daysFromCivil`, `civilFromDays` : calendar dates counted in days since 1970;
* `Timestamp.parse?` : dates are separated by hyphens, times by colons, blanks may stand around
  the parts, and the offset is `Z`, `UTC` or hours and minutes;
* `Timestamp.text` : the time in UTC with as many of 0, 3, 6 or 9 decimals as it needs.
-/

namespace Switchboard

/-- A point in time. -/
structure Timestamp where
  /-- Seconds since the start of 1970. -/
  seconds : Int
  /-- Nanoseconds within the second; a billion more inside a leap second. -/
  nanos : Nat
  deriving DecidableEq, Repr, Inhabited

namespace Timestamp

/-! ## The calendar -/

/-- Days from the start of 1970 to a date. -/
def daysFromCivil (year : Int) (month day : Nat) : Int :=
  let y := if month ≤ 2 then year - 1 else year
  let era := y.fdiv 400
  let yearOfEra := y - era * 400
  let monthIndex : Int := (month + 9) % 12
  let dayOfYear := (153 * monthIndex + 2) / 5 + day - 1
  let dayOfEra := yearOfEra * 365 + yearOfEra / 4 - yearOfEra / 100 + dayOfYear
  era * 146097 + dayOfEra - 719468

/-- The date so many days from the start of 1970. -/
def civilFromDays (days : Int) : Int × Nat × Nat :=
  let z := days + 719468
  let era := z.fdiv 146097
  let dayOfEra := z - era * 146097
  let yearOfEra := (dayOfEra - dayOfEra / 1460 + dayOfEra / 36524 - dayOfEra / 146096) / 365
  let dayOfYear := dayOfEra - (365 * yearOfEra + yearOfEra / 4 - yearOfEra / 100)
  let monthIndex := (5 * dayOfYear + 2) / 153
  let day := dayOfYear - (153 * monthIndex + 2) / 5 + 1
  let month := if monthIndex < 10 then monthIndex + 3 else monthIndex - 9
  (yearOfEra + era * 400 + (if month ≤ 2 then 1 else 0), month.toNat, day.toNat)

/-- Whether a year has a 29 February. -/
def isLeap (year : Int) : Bool := year % 4 = 0 && (year % 100 != 0 || year % 400 = 0)

/-- How many days a month has. -/
def monthLength (year : Int) (month : Nat) : Nat :=
  if month = 2 then (if isLeap year then 29 else 28)
  else if month = 4 ∨ month = 6 ∨ month = 9 ∨ month = 11 then 30 else 31

/-- The first and the last year of the calendar. -/
def yearRange : Int × Int := (-262143, 262142)

/-! ## Reading -/

/-- A decimal digit. -/
def isDigit (c : Char) : Bool := '0' ≤ c && c ≤ '9'

/-- The number that digits spell. -/
def ofDigits (ds : List Char) : Nat := ds.foldl (fun n c => n * 10 + (c.toNat - 48)) 0

/-- At least one digit and at most `width`, and the rest. -/
def digits? (width : Nat) (cs : List Char) : Option (List Char × List Char) :=
  let ds := (cs.takeWhile isDigit).take width
  if ds.isEmpty then none else some (ds, cs.drop ds.length)

/-- A number of at most `width` digits after blanks. -/
def number? (width : Nat) (cs : List Char) : Option (Nat × List Char) := do
  let (ds, rest) ← digits? width (Text.trimStart cs)
  return (ofDigits ds, rest)

/-- A year: four digits at most, or any number after a sign. -/
def year? (cs : List Char) : Option (Int × List Char) :=
  match Text.trimStart cs with
  | '-' :: rest => (digits? rest.length rest).map fun (ds, rest) => (-(ofDigits ds : Int), rest)
  | '+' :: rest => (digits? rest.length rest).map fun (ds, rest) => ((ofDigits ds : Int), rest)
  | rest => (digits? 4 rest).map fun (ds, rest) => ((ofDigits ds : Int), rest)

/-- A separator after blanks. -/
def separator? (c : Char) (cs : List Char) : Option (List Char) :=
  match Text.trimStart cs with
  | d :: rest => if d = c then some rest else none
  | [] => none

/-- An optional decimal fraction of a second, in nanoseconds; digits after the ninth do not
count. -/
def nanos? : List Char → Option (Nat × List Char)
  | '.' :: rest => do
    let (ds, _) ← digits? 9 rest
    return (ofDigits ds * Nat.pow 10 (9 - ds.length), rest.dropWhile isDigit)
  | cs => some (0, cs)

/-- An offset from UTC in seconds. -/
def offset? : List Char → Option (Int × List Char)
  | [] => none
  | c :: rest =>
    if c = 'Z' ∨ c = 'z' then some (0, rest)
    else if (c :: rest.take 2).map Char.toUpper = ['U', 'T', 'C'] then some (0, rest.drop 2)
    else if c = '+' ∨ c = '-' ∨ c = '−' then do
      let (hours, rest) ← two? rest
      let (minutes, rest) ← two? (rest.dropWhile fun c => c = ':' || Text.isBlank c)
      if 60 ≤ minutes then none
      else
        let seconds : Int := hours * 3600 + minutes * 60
        some (if c = '+' then seconds else -seconds, rest)
    else none
where
  /-- Exactly two digits. -/
  two? : List Char → Option (Nat × List Char)
    | a :: b :: rest => if isDigit a && isDigit b then some (ofDigits [a, b], rest) else none
    | _ => none

/-- A date, a `T` or a blank, a time of day and an offset. A sixtieth second is a leap second. -/
def parse? (s : String) : Option Timestamp := do
  let (year, cs) ← year? s.toList
  let cs ← separator? '-' cs
  let (month, cs) ← number? 2 cs
  let cs ← separator? '-' cs
  let (day, cs) ← number? 2 cs
  let cs ← match cs with
    | c :: rest => if c = 'T' ∨ c = 't' ∨ c = ' ' then some rest else none
    | [] => none
  let (hour, cs) ← number? 2 cs
  let cs ← separator? ':' cs
  let (minute, cs) ← number? 2 cs
  let cs ← separator? ':' cs
  let (second, cs) ← number? 2 cs
  let (nanos, cs) ← nanos? cs
  let (offset, cs) ← offset? (Text.trimStart cs)
  if !(Text.trimStart cs).isEmpty then none
  if month < 1 ∨ 12 < month ∨ day < 1 ∨ monthLength year month < day then none
  if 23 < hour ∨ 59 < minute ∨ 60 < second ∨ 86400 ≤ offset.natAbs then none
  if year < yearRange.1 ∨ yearRange.2 < year then none
  let leap := second = 60
  let time : Int := hour * 3600 + minute * 60 + (if leap then 59 else second)
  let seconds := daysFromCivil year month day * 86400 + time - offset
  let (year, _, _) := civilFromDays (seconds.fdiv 86400)
  if year < yearRange.1 ∨ yearRange.2 < year then none
  return ⟨seconds, if leap then nanos + 1000000000 else nanos⟩

/-! ## Writing -/

/-- A number in at least `width` digits. -/
def padded (width n : Nat) : String :=
  let digits := toString n
  "".pushn '0' (width - digits.length) ++ digits

/-- A year in four digits, or with a sign and at least four. -/
def yearText (year : Int) : String :=
  if 0 ≤ year ∧ year ≤ 9999 then padded 4 year.toNat
  else (if year < 0 then "-" else "+") ++ padded 4 year.natAbs

/-- A fraction of a second in as few groups of three digits as it needs. -/
def fractionText (nanos : Nat) : String :=
  if nanos = 0 then ""
  else if nanos % 1000000 = 0 then "." ++ padded 3 (nanos / 1000000)
  else if nanos % 1000 = 0 then "." ++ padded 6 (nanos / 1000)
  else "." ++ padded 9 nanos

/-- A timestamp in UTC. -/
def text (t : Timestamp) : String :=
  let (year, month, day) := civilFromDays (t.seconds.fdiv 86400)
  let time := (t.seconds.fmod 86400).toNat
  let leap := 1000000000 ≤ t.nanos
  let second := time % 60 + (if leap then 1 else 0)
  let nanos := if leap then t.nanos - 1000000000 else t.nanos
  yearText year ++ "-" ++ padded 2 month ++ "-" ++ padded 2 day ++ "T" ++ padded 2 (time / 3600)
    ++ ":" ++ padded 2 (time / 60 % 60) ++ ":" ++ padded 2 second ++ fractionText nanos ++ "Z"

/-- Milliseconds since the start of 1970. -/
def millis (t : Timestamp) : Int := t.seconds * 1000 + t.nanos / 1000000

/-- The time so many milliseconds after the start of 1970. -/
def ofMillis (ms : Nat) : Timestamp := ⟨ms / 1000, ms % 1000 * 1000000⟩

end Timestamp

end Switchboard
