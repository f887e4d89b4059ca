import Switchboard.Text.CaseTable

/-!
# Lower case

* `lowerChar` : the lower-case form of a character on its own;
* `lower` : the lower-case form of a text. A capital sigma at the end of a word becomes the final
  sigma, and the dotted capital I becomes two characters; every other character has one form.
-/

namespace Switchboard.Text

/-- Whether a list of ranges holds a character. -/
def inRanges (ranges : List (Nat × Nat)) (c : Char) : Bool :=
  ranges.any fun (first, last) => first ≤ c.toNat && c.toNat ≤ last

/-- Whether a character has a case. -/
def isCased (c : Char) : Bool := inRanges CaseTable.cased c

/-- Whether a character is passed over when the end of a word is sought. -/
def isCaseIgnorable (c : Char) : Bool := inRanges CaseTable.ignorable c

/-- The lower-case form of a character on its own. -/
def lowerChar (c : Char) : List Char :=
  if c.toNat < 128 then [c.toLower]
  else if c.toNat = 0x130 then ['i', Char.ofNat 0x307]
  else match CaseTable.toLower.find? (·.holds c.toNat) with
    | some run => [Char.ofNat (c.toNat + run.shift).toNat]
    | none => [c]

/-- Whether the nearest character that is not passed over has a case. -/
def meetsCased (cs : List Char) : Bool :=
  match cs.dropWhile isCaseIgnorable with
  | c :: _ => isCased c
  | [] => false

/-- The lower-case form of characters that stand after `before`, which is in reverse. -/
def lowerAfter : List Char → List Char → List Char
  | _, [] => []
  | before, c :: rest =>
    let form :=
      if c.toNat = 0x3A3 then
        [Char.ofNat (if meetsCased before && !meetsCased rest then 0x3C2 else 0x3C3)]
      else lowerChar c
    form ++ lowerAfter (c :: before) rest

/-- The lower-case form of a text. -/
def lower (s : String) : String := String.ofList (lowerAfter [] s.toList)

end Switchboard.Text
