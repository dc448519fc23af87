import Recast.Text.IdentifierTable

/-!
Names: one starting character, then continuing characters. The reserved words of the path notation
are not names of attributes.
-/

set_option autoImplicit false

namespace Recast.Text

/-- A character that may start a name. -/
def isNameStart (c : Char) : Bool :=
  if c.toNat < 128 then c.isAlpha || c == '_' else nameStart.has c.toNat

/-- A character that may stand in a name after the first. -/
def isNamePart (c : Char) : Bool :=
  if c.toNat < 128 then c.isAlphanum || c == '_'
  else nameStart.has c.toNat || nameContinue.has c.toNat

/-- A name is not empty, starts with a starting character and goes on with name characters. -/
def isNameChars : List Char → Bool
  | [] => false
  | c :: rest => isNameStart c && rest.all isNamePart

/-- A text that is a name. -/
def isName (s : String) : Bool :=
  isNameChars s.toList

/-- Words that cannot name an attribute. -/
def reservedWords : List String :=
  ["False", "None", "True", "and", "as", "assert", "async", "await", "break", "class", "continue",
    "def", "del", "elif", "else", "except", "finally", "for", "from", "global", "if", "import",
    "in", "is", "lambda", "nonlocal", "not", "or", "pass", "raise", "return", "try", "while",
    "with", "yield"]

/-- A word that cannot name an attribute. -/
def isReserved (s : String) : Bool :=
  reservedWords.contains s

/-- One step of an attribute path: a name that is not a reserved word. -/
def isSegment (s : String) : Bool :=
  isName s && !isReserved s

end Recast.Text
