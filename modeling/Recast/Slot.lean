import Recast.Text.Blank
import Recast.Text.Identifier

/-!
Slots: where in a target a computed value lands. A slot is a path of attribute names, the empty
path being the whole target. Its key is the path in dotted form, rooted at the word `target`. Two
slots overlap when one path begins with the other.
-/

set_option autoImplicit false

namespace Recast

/-- The address of a place in a target: attribute names from the outside in. -/
structure Slot where
  path : List String
  deriving DecidableEq, Inhabited

namespace Slot

/-- The word that stands for the target itself. -/
def root : String := "target"

/-- Texts joined by single dots. -/
def dotted : List String → String
  | [] => ""
  | [s] => s
  | s :: rest => s ++ "." ++ dotted rest

/-- The canonical text of a slot, rooted at the target. -/
def key (s : Slot) : String := dotted (root :: s.path)

/-- The slot of the target itself. -/
def isWhole (s : Slot) : Bool := s.path.isEmpty

/-- One path begins with the other. -/
def overlaps (x y : Slot) : Bool :=
  let shortest := min x.path.length y.path.length
  x.path.take shortest == y.path.take shortest

/-- The slot further down a path. -/
def extend (s : Slot) (more : List String) : Slot := ⟨s.path ++ more⟩

/-- What a rule may give to name a slot: a text, a slot itself, or something that is neither, known
by how it is shown. -/
inductive Descriptor where
  | text (s : String)
  | slot (s : Slot)
  | other (shown : String)
  deriving DecidableEq

/-- The text of a descriptor in messages. -/
def Descriptor.shown : Descriptor → String
  | .text s => s
  | .slot s => s.key
  | .other shown => shown

/-- Why a descriptor names no slot of the wanted shape. -/
inductive ShapeError where
  /-- It is neither a text nor a slot. -/
  | notText (shown : String)
  /-- Some step of the path is not a plain attribute name. -/
  | notPath (shown : String)
  /-- A field was wanted and this is the whole target. -/
  | notField (shown : String)
  /-- The whole target was wanted and this is a field. -/
  | notWhole (shown : String)
  deriving DecidableEq

/-- The steps named by a text: blanks around it do not count, and neither does the word `target` in
front. -/
def stepsOf (s : String) : List String :=
  match Text.split '.' (Text.trim s) with
  | [] => []
  | first :: rest => if first = root then rest else first :: rest

/-- The slot that a descriptor names; a slot stands for itself. -/
def parse : Descriptor → Except ShapeError Slot
  | .slot s => .ok s
  | .other shown => .error (.notText shown)
  | .text s =>
    let steps := stepsOf s
    if steps.all Text.isSegment then .ok ⟨steps⟩ else .error (.notPath s)

/-- What a rule writes: one field of the target, or the target as a whole. -/
inductive Kind where
  | field
  | whole
  deriving DecidableEq, Inhabited

/-- The name of a kind in logs and answers. -/
def Kind.name : Kind → String
  | .field => "field"
  | .whole => "whole_object"

/-- The slot that a descriptor names, if its shape fits the kind. -/
def parseAs (kind : Kind) (d : Descriptor) : Except ShapeError Slot :=
  match parse d with
  | .error e => .error e
  | .ok s =>
    match kind, s.isWhole with
    | .field, true => .error (.notField d.shown)
    | .whole, false => .error (.notWhole d.shown)
    | _, _ => .ok s

end Slot

end Recast
