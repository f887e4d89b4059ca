/-!
# Places in a queue of bounded size

Whoever sends takes a place first. When there is none he waits in line, and a place that becomes
free goes to the first in line, who keeps it until he uses it or gives up.

* `Gate` : free places, the line, and places kept for those who were in line;
* `Gate.take?`, `Gate.line`, `Gate.claim?` : take a free place; wait in line; use a kept place;
* `Gate.release`, `Gate.leave` : a place becomes free; someone gives up.
-/

namespace Switchboard

/-- Places of a queue of bounded size. -/
structure Gate where
  places : Nat
  /-- Who waits, first in line first. -/
  waiting : List Nat := []
  /-- For whom a place is kept. -/
  granted : List Nat := []
  /-- The next number in line. -/
  next : Nat := 0
  deriving DecidableEq, Repr, Inhabited

namespace Gate

/-- How many places there can be. -/
def most : Nat := Nat.pow 2 61 - 1

/-- Take a free place. -/
def take? (g : Gate) : Option Gate :=
  if g.places = 0 then none else some { g with places := g.places - 1 }

/-- Wait in line. -/
def line (g : Gate) : Gate × Nat :=
  ({ g with waiting := g.waiting ++ [g.next], next := g.next + 1 }, g.next)

/-- A place becomes free: it is kept for the first in line, if anybody waits. -/
def release (g : Gate) : Gate × Option Nat :=
  match g.waiting with
  | [] => ({ g with places := g.places + 1 }, none)
  | ticket :: rest => ({ g with waiting := rest, granted := g.granted ++ [ticket] }, some ticket)

/-- Use the place that is kept for a number. -/
def claim? (g : Gate) (ticket : Nat) : Option Gate :=
  if g.granted.contains ticket then some { g with granted := g.granted.erase ticket } else none

/-- Give up a number in line, and with it the place that is kept for it. -/
def leave (g : Gate) (ticket : Nat) : Gate × Option Nat :=
  match g.claim? ticket with
  | some g => g.release
  | none => ({ g with waiting := g.waiting.erase ticket }, none)

end Gate

end Switchboard
