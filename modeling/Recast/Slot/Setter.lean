import Recast.Errors
import Recast.Store.Attribute

/-!
Writing a value into a slot. The objects along the path are read from the outside in; nothing at
all in the place of an object is refused with the shortest path that leads to it. The old value at
the end of the path is never read.
-/

set_option autoImplicit false

namespace Recast

namespace Action

/-- Read the object at a step of a path. A step given as a slot's own segment may hold dots, and
then names several attributes. -/
def readStep (v : Value) (step : String) : Action Value :=
  followNames v (Text.split '.' step)

/-- The object that a path leads to from a value. `walked` is the path so far, for the message. -/
def reach (key : String) (walked : List String) (v : Value) : List String → Action Value
  | [] => done v
  | step :: rest =>
    bind (readStep v step) fun w =>
    match w with
    | .null => fail (Fault.slotPath key (Slot.dotted (Slot.root :: (walked ++ [step]))))
    | _ => reach key (walked ++ [step]) w rest

end Action

namespace Slot

/-- Write a value into a slot of a target; the result is the target, or for the whole target the
value itself. -/
def write (s : Slot) (target value : Value) : Action Value :=
  match s.path.getLast? with
  | none => Action.done value
  | some name =>
    Action.bind (Action.reach s.key [] target s.path.dropLast) fun object =>
    Action.bind (Action.writeAttribute object name value) fun _ => Action.done target

end Slot

/-- A slot together with the place where it is noted that its setter has been used. -/
structure Binder where
  slot : Slot
  cell : Cell

namespace Binder

/-- Whether the setter has been used. -/
def isCompiled (b : Binder) (s : Store) : Bool := s.compiled.contains b.cell

/-- Note that the setter is in use. -/
def compile (b : Binder) : Action Unit :=
  Action.change fun s =>
    if s.compiled.contains b.cell then s else { s with compiled := b.cell :: s.compiled }

/-- Write a value; the setter counts as used even when the write fails. -/
def write (b : Binder) (target value : Value) : Action Value :=
  Action.bind b.compile fun _ => b.slot.write target value

/-- How a binder is shown. -/
def shown (b : Binder) : String := "SlotBinder(" ++ Text.quoted b.slot.key ++ ")"

end Binder

end Recast
