/-!
Texts as code points. Octets that are sent as a text stand for code points in one of three unit
sizes; which one is told by a mark in front, or else by the zeros among the first four octets, since
the text begins with a character of ASCII. Half of a pair of code units may stand alone, for no
character; everything else that is not well formed is refused.
-/

set_option autoImplicit false

namespace Recast.Text

/-- The code points of a text; `none` stands for half of a pair that stands alone. -/
abbrev Points := List (Option Char)

/-- The code points of a string, which are all characters. -/
def pointsOf (s : String) : Points := s.toList.map some

/-- A number is one of the halves of a pair. -/
def isHalf (n : Nat) : Bool := 0xd800 ≤ n && n ≤ 0xdfff

/-- The code point of a number. -/
def point (n : Nat) : Option Char := if isHalf n then none else some (Char.ofNat n)

/-- An octet that goes on with a character, never one that begins one. -/
def goesOn (b : Nat) : Bool := 0x80 ≤ b && b ≤ 0xbf

/-- The code points of octets in units of eight bits. Halves of pairs are read like characters. -/
def points8? : List Nat → Option Points
  | [] => some []
  | a :: rest =>
    if a < 0x80 then (points8? rest).map (point a :: ·)
    else if a < 0xc0 then none
    else if a < 0xe0 then
      match rest with
      | b :: rest =>
        let n := 64 * (a - 0xc0) + (b - 0x80)
        if goesOn b && 0x80 ≤ n then (points8? rest).map (point n :: ·) else none
      | [] => none
    else if a < 0xf0 then
      match rest with
      | b :: c :: rest =>
        let n := 64 * (64 * (a - 0xe0) + (b - 0x80)) + (c - 0x80)
        if goesOn b && goesOn c && 0x800 ≤ n then (points8? rest).map (point n :: ·) else none
      | _ => none
    else if a < 0xf8 then
      match rest with
      | b :: c :: d :: rest =>
        let n := 64 * (64 * (64 * (a - 0xf0) + (b - 0x80)) + (c - 0x80)) + (d - 0x80)
        if goesOn b && goesOn c && goesOn d && 0x10000 ≤ n && n ≤ 0x10ffff then
          (points8? rest).map (point n :: ·)
        else none
      | _ => none
    else none

/-- The number of a group of octets; the first counts most if the high octet comes first. -/
def number (highFirst : Bool) (octets : List Nat) : Nat :=
  (if highFirst then octets else octets.reverse).foldl (fun n b => 256 * n + b) 0

/-- The units of sixteen bits. -/
def units16? (highFirst : Bool) : List Nat → Option (List Nat)
  | [] => some []
  | a :: b :: rest => (units16? highFirst rest).map (number highFirst [a, b] :: ·)
  | [_] => none

/-- The code points of units of sixteen bits: a high half with a low half after it is one. -/
def joinHalves : List Nat → Points
  | [] => []
  | [n] => [point n]
  | n :: m :: rest =>
    if 0xd800 ≤ n && n ≤ 0xdbff && 0xdc00 ≤ m && m ≤ 0xdfff then
      some (Char.ofNat (0x10000 + (n - 0xd800) * 0x400 + (m - 0xdc00))) :: joinHalves rest
    else point n :: joinHalves (m :: rest)

/-- The code points of octets in units of thirty-two bits. -/
def points32? (highFirst : Bool) : List Nat → Option Points
  | [] => some []
  | a :: b :: c :: d :: rest =>
    let n := number highFirst [a, b, c, d]
    if n ≤ 0x10ffff then (points32? highFirst rest).map (point n :: ·) else none
  | _ => none

/-- The size of the units of a text, and which octet of a unit comes first. -/
inductive Encoding where
  | eight
  | sixteen (highFirst : Bool)
  | thirtyTwo (highFirst : Bool)
  deriving DecidableEq

/-- The encoding of a text that begins with a character of ASCII, from its zeros. -/
def encodingOfZeros : List Nat → Encoding
  | a :: b :: c :: d :: _ =>
    if a = 0 then if b = 0 then .thirtyTwo true else .sixteen true
    else if b = 0 then if c = 0 && d = 0 then .thirtyTwo false else .sixteen false
    else .eight
  | [a, b] => if a = 0 then .sixteen true else if b = 0 then .sixteen false else .eight
  | _ => .eight

/-- The encoding of octets, and what follows the mark that may stand in front. -/
def encodingOf (octets : List Nat) : Encoding × List Nat :=
  match octets with
  | 0x00 :: 0x00 :: 0xfe :: 0xff :: rest => (.thirtyTwo true, rest)
  | 0xff :: 0xfe :: 0x00 :: 0x00 :: rest => (.thirtyTwo false, rest)
  | 0xfe :: 0xff :: rest => (.sixteen true, rest)
  | 0xff :: 0xfe :: rest => (.sixteen false, rest)
  | 0xef :: 0xbb :: 0xbf :: rest => (.eight, rest)
  | octets => (encodingOfZeros octets, octets)

/-- The code points that octets stand for. -/
def pointsOfOctets? (octets : List Nat) : Option Points :=
  match encodingOf octets with
  | (.eight, rest) => points8? rest
  | (.sixteen highFirst, rest) => (units16? highFirst rest).map joinHalves
  | (.thirtyTwo highFirst, rest) => points32? highFirst rest

end Recast.Text
