/-!
# UTF-8 text in bytes

* `Utf8.scalars` : the characters that bytes spell, with a hole for every longest run of bytes
  that begins a character but does not finish it;
* `Utf8.decode?` : the text, if there is no hole; `Utf8.decodeLossy` : the text with U+FFFD in
  every hole.
-/

namespace Switchboard.Utf8

/-- A byte that continues a character. -/
def isTail (b : UInt8) : Bool := 0x80 ≤ b && b ≤ 0xBF

/-- The second bytes that may follow the first byte of a three-byte character. -/
def second3 (a b : UInt8) : Bool :=
  if a = 0xE0 then 0xA0 ≤ b && b ≤ 0xBF
  else if a = 0xED then 0x80 ≤ b && b ≤ 0x9F
  else isTail b

/-- The second bytes that may follow the first byte of a four-byte character. -/
def second4 (a b : UInt8) : Bool :=
  if a = 0xF0 then 0x90 ≤ b && b ≤ 0xBF
  else if a = 0xF4 then 0x80 ≤ b && b ≤ 0x8F
  else isTail b

/-- Six low bits of a continuing byte. -/
def low6 (b : UInt8) : Nat := b.toNat % 64

/-- The characters that bytes spell, `none` standing for a longest unfinished character. -/
def scalars : List UInt8 → List (Option Char)
  | [] => []
  | a :: rest =>
    if a < 0x80 then some (Char.ofNat a.toNat) :: scalars rest
    else if 0xC2 ≤ a ∧ a ≤ 0xDF then
      match rest with
      | b :: rest' =>
        if isTail b then some (Char.ofNat (a.toNat % 32 * 64 + low6 b)) :: scalars rest'
        else none :: scalars (b :: rest')
      | [] => [none]
    else if 0xE0 ≤ a ∧ a ≤ 0xEF then
      match rest with
      | b :: c :: rest' =>
        if second3 a b then
          if isTail c then
            some (Char.ofNat ((a.toNat % 16 * 64 + low6 b) * 64 + low6 c)) :: scalars rest'
          else none :: scalars (c :: rest')
        else none :: scalars (b :: c :: rest')
      | [b] => if second3 a b then [none] else none :: scalars [b]
      | [] => [none]
    else if 0xF0 ≤ a ∧ a ≤ 0xF4 then
      match rest with
      | b :: c :: d :: rest' =>
        if second4 a b then
          if isTail c then
            if isTail d then
              some (Char.ofNat (((a.toNat % 8 * 64 + low6 b) * 64 + low6 c) * 64 + low6 d))
                :: scalars rest'
            else none :: scalars (d :: rest')
          else none :: scalars (c :: d :: rest')
        else none :: scalars (b :: c :: d :: rest')
      | [b, c] =>
        if second4 a b then (if isTail c then [none] else none :: scalars [c])
        else none :: scalars [b, c]
      | [b] => if second4 a b then [none] else none :: scalars [b]
      | [] => [none]
    else none :: scalars rest
termination_by bytes => bytes.length
decreasing_by all_goals simp_wf; try omega

/-- The text that bytes spell, if every byte belongs to a character. -/
def decode? (bytes : List UInt8) : Option String :=
  ((scalars bytes).mapM id).map String.ofList

/-- The text that bytes spell, every unfinished character replaced by U+FFFD. -/
def decodeLossy (bytes : List UInt8) : String :=
  String.ofList ((scalars bytes).map (·.getD (Char.ofNat 0xFFFD)))

/-- The bytes of a text. -/
def encode (s : String) : List UInt8 := s.toUTF8.toList

end Switchboard.Utf8
