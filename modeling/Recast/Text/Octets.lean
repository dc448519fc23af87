/-!
Text from octets in UTF-8. Reading never fails: octets that belong to no character give the
replacement character, one for each longest run that could have begun a character.
-/

set_option autoImplicit false

namespace Recast.Text

/-- The character that stands for octets which belong to none. -/
def replacement : Char := Char.ofNat 0xfffd

/-- A character begun: the bits so far, how many octets are owed, and the bounds of the next one. -/
structure Begun where
  bits : Nat
  owed : Nat
  low : Nat
  high : Nat

/-- An octet that stands between characters: a character by itself, the beginning of one, or of
none. -/
def lead (b : Nat) : List Char × Option Begun :=
  if b < 0x80 then ([Char.ofNat b], none)
  else if b < 0xc2 then ([replacement], none)
  else if b < 0xe0 then ([], some ⟨b - 0xc0, 1, 0x80, 0xbf⟩)
  else if b < 0xf0 then
    ([], some ⟨b - 0xe0, 2, if b = 0xe0 then 0xa0 else 0x80, if b = 0xed then 0x9f else 0xbf⟩)
  else if b < 0xf5 then
    ([], some ⟨b - 0xf0, 3, if b = 0xf0 then 0x90 else 0x80, if b = 0xf4 then 0x8f else 0xbf⟩)
  else ([replacement], none)

/-- One more octet: the characters it completes, and the character begun after it. -/
def feed (state : Option Begun) (b : Nat) : List Char × Option Begun :=
  match state with
  | none => lead b
  | some p =>
    if p.low ≤ b ∧ b ≤ p.high then
      let bits := 64 * p.bits + (b - 0x80)
      if p.owed = 1 then ([Char.ofNat bits], none) else ([], some ⟨bits, p.owed - 1, 0x80, 0xbf⟩)
    else
      let (cs, next) := lead b
      (replacement :: cs, next)

/-- The characters of octets, with a character begun before them. -/
def charsFrom : Option Begun → List Nat → List Char
  | none, [] => []
  | some _, [] => [replacement]
  | state, b :: rest =>
    let (cs, next) := feed state b
    cs ++ charsFrom next rest

/-- The characters of octets. -/
def charsOfOctets (octets : List Nat) : List Char := charsFrom none octets

/-- The octets of a character. -/
def octetsOf (c : Char) : List Nat := (String.singleton c).toUTF8.toList.map UInt8.toNat

end Recast.Text
