/-!
Blank characters and the trimming of blanks from both ends of a text. A character is blank when it
is a Unicode space, a line or paragraph separator, or one of the control characters that separate
lines, fields or records.
-/

set_option autoImplicit false

namespace Recast.Text

/-- White space, the information separators U+001C to U+001F, NEXT LINE and the Unicode spaces. -/
def isBlank (c : Char) : Bool :=
  let n := c.toNat
  (9 ≤ n && n ≤ 13) || (28 ≤ n && n ≤ 32) || n == 0x85 || n == 0xa0 || n == 0x1680 ||
    (0x2000 ≤ n && n ≤ 0x200a) || n == 0x2028 || n == 0x2029 || n == 0x202f || n == 0x205f ||
    n == 0x3000

/-- Drop the blanks at the front. -/
def trimFront (s : List Char) : List Char :=
  s.dropWhile isBlank

/-- Drop the blanks at both ends. -/
def trimChars (s : List Char) : List Char :=
  (trimFront (trimFront s).reverse).reverse

/-- Drop the blanks at both ends of a text. -/
def trim (s : String) : String :=
  String.ofList (trimChars s.toList)

/-- Cut a list at every occurrence of a character; there is always at least one piece. -/
def splitAt (mark : Char) : List Char → List (List Char)
  | [] => [[]]
  | c :: rest =>
    if c = mark then [] :: splitAt mark rest
    else match splitAt mark rest with
      | [] => [[c]]
      | piece :: pieces => (c :: piece) :: pieces

/-- Cut a text at every occurrence of a character. -/
def split (mark : Char) (s : String) : List String :=
  (splitAt mark s.toList).map String.ofList

end Recast.Text
