import Recast.Decimal.Shortest
import Recast.Text.Quoted

/-!
Structured text: values of the interchange notation with the members of objects in the order in
which they were written, and their compact written form. A text in the notation may stand for
something that is no text at all, half of a pair of code units; such a text is kept as `broken`, and
an object in which it is a name as `misnamed`.
-/

set_option autoImplicit false

namespace Recast

/-- A value of the interchange notation. -/
inductive Json where
  | null
  | bool (b : Bool)
  | int (n : Int)
  | float (x : Decimal.Double)
  | text (s : String)
  /-- A text that holds half of a pair of code units. -/
  | broken
  | array (items : List Json)
  | object (members : List (String × Json))
  /-- An object with a member whose name holds half of a pair of code units. -/
  | misnamed

instance : Inhabited Json := ⟨.null⟩

namespace Json

/-- The member of an object with a name. -/
def member? (j : Json) (name : String) : Option Json :=
  match j with
  | .object members => members.lookup name
  | _ => none

/-- Four hexadecimal digits. -/
def hexFour (n : Nat) : List Char := 'u' :: Text.hex 4 n

/-- A character beyond ASCII, as one escape or as a pair. -/
def escapeWide (n : Nat) : List Char :=
  if n < 0x10000 then Text.backslash :: hexFour n
  else
    let m := n - 0x10000
    Text.backslash :: hexFour (0xd800 + m / 0x400) ++
      Text.backslash :: hexFour (0xdc00 + m % 0x400)

/-- How a character is written in a text; `ascii` says whether all others are escaped. -/
def escape (ascii : Bool) (c : Char) : List Char :=
  if c = Text.doubleQuote ∨ c = Text.backslash then [Text.backslash, c]
  else if c = '\n' then [Text.backslash, 'n']
  else if c = '\r' then [Text.backslash, 'r']
  else if c = '\t' then [Text.backslash, 't']
  else if c.toNat = 8 then [Text.backslash, 'b']
  else if c.toNat = 12 then [Text.backslash, 'f']
  else if c.toNat < 32 then Text.backslash :: hexFour c.toNat
  else if ascii && 127 ≤ c.toNat then
    if c.toNat = 127 then [c] else escapeWide c.toNat
  else [c]

/-- A text in the notation. -/
def quote (ascii : Bool) (s : String) : String :=
  String.ofList (Text.doubleQuote :: s.toList.flatMap (escape ascii) ++ [Text.doubleQuote])

/-- The text of a number; those that are not finite have names. -/
def numberText (x : Decimal.Double) : String :=
  if x.isNaN then "NaN"
  else if x.isInfinite then if x.isNegative then "-Infinity" else "Infinity"
  else x.render

mutual

/-- The written form, with a space after commas and colons. -/
def render (ascii : Bool) : Json → String
  | .null => "null"
  | .bool b => if b then "true" else "false"
  | .int n => toString n
  | .float x => numberText x
  | .text s => quote ascii s
  | .broken => quote ascii ""
  | .array items => "[" ++ ", ".intercalate (renderItems ascii items) ++ "]"
  | .object members => "\x7b" ++ ", ".intercalate (renderMembers ascii members) ++ "\x7d"
  | .misnamed => "\x7b\x7d"

/-- The written forms of items. -/
def renderItems (ascii : Bool) : List Json → List String
  | [] => []
  | j :: rest => render ascii j :: renderItems ascii rest

/-- The written forms of members. -/
def renderMembers (ascii : Bool) : List (String × Json) → List String
  | [] => []
  | (name, j) :: rest => (quote ascii name ++ ": " ++ render ascii j) :: renderMembers ascii rest

end

end Json

end Recast
