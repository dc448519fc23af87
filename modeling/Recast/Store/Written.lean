import Recast.Json
import Recast.Store.Display

/-!
Values in the interchange notation. Strictly, only values that the notation has a form for can be
written. Otherwise those that it has no form for are written as text; a record is written plainly,
as text, or in full, as an object of its fields.
-/

set_option autoImplicit false

namespace Recast

namespace Store

mutual

/-- A value in the interchange notation, records being written by the given function. -/
def writtenWith (s : Store) (record : Nat → String → Json) : Value → Json
  | .null => .null
  | .bool b => .bool b
  | .int n => .int n
  | .float x => .float x
  | .text t => .text t
  | .moment m => .text m.render
  | .list _ vs => .array (s.writtenItems record vs)
  | .tuple _ vs => .array (s.writtenItems record vs)
  | .dict _ es => .object (s.writtenEntries record es)
  | .bytes bs => .text (Text.quotedBytes bs)
  | .slot _ path => .text (Slot.mk path).key
  | .record ref type => record ref type
  | .fault _ f => .text (s.faultText f)
  | .function _ _ => .text "function"
  | .awaitable _ _ => .text "awaitable"
  | .stream _ => .text "stream"

/-- Items in the interchange notation. -/
def writtenItems (s : Store) (record : Nat → String → Json) : List Value → List Json
  | [] => []
  | v :: rest => s.writtenWith record v :: s.writtenItems record rest

/-- The entries of a dictionary as the members of an object. -/
def writtenEntries (s : Store) (record : Nat → String → Json) :
    List (Value × Value) → List (String × Json)
  | [] => []
  | (k, v) :: rest => (s.plain k, s.writtenWith record v) :: s.writtenEntries record rest

end

/-- A value with records as text. -/
def writtenPlainly (s : Store) (v : Value) : Json :=
  s.writtenWith (fun ref type => .text (s.plain (.record ref type))) v

/-- A record as an object of its fields, down to a depth. -/
def writtenRecord (s : Store) : Nat → Nat → String → Json
  | 0, _, _ => .null
  | depth + 1, ref, _ =>
    match s.records[ref]? with
    | some r => .object ((s.visibleFields r).map fun (n, v) =>
        (n, s.writtenWith (s.writtenRecord depth) v))
    | none => .null

/-- A value with records as objects of their fields. -/
def writtenFully (s : Store) (v : Value) : Json :=
  s.writtenWith (s.writtenRecord (s.records.size + 1)) v

/-- The fault of a value that the notation has no form for. -/
def unwritable (v : Value) : Fault :=
  let name := ((Text.split '.' v.typeName).getLast?).getD ""
  Fault.typeError ("Object of type " ++ name ++ " is not JSON serializable")

/-- The name of a member for a key of a dictionary. -/
def memberName : Value → Except Fault String
  | .text t => .ok t
  | .null => .ok "null"
  | .bool b => .ok (if b then "true" else "false")
  | .int n => .ok (toString n)
  | .float x => .ok (Json.numberText x)
  | v =>
    let name := ((Text.split '.' v.typeName).getLast?).getD ""
    .error (Fault.typeError ("keys must be str, int, float, bool or None, not " ++ name))

mutual

/-- A value in the interchange notation, if the notation has a form for it and all within. -/
def written? : Value → Except Fault Json
  | .null => .ok .null
  | .bool b => .ok (.bool b)
  | .int n => .ok (.int n)
  | .float x =>
    if x.isFinite then .ok (.float x)
    else .error (.general "ValueError" [.text "Out of range float values are not JSON compliant"])
  | .text t => .ok (.text t)
  | .list _ vs => (writtenItems? vs).map .array
  | .tuple _ vs => (writtenItems? vs).map .array
  | .dict _ es => (writtenEntries? es).map .object
  | v => .error (unwritable v)

/-- Items in the interchange notation. -/
def writtenItems? : List Value → Except Fault (List Json)
  | [] => .ok []
  | v :: rest =>
    match written? v with
    | .ok j => (writtenItems? rest).map (j :: ·)
    | .error f => .error f

/-- The entries of a dictionary as the members of an object. -/
def writtenEntries? : List (Value × Value) → Except Fault (List (String × Json))
  | [] => .ok []
  | (k, v) :: rest =>
    match memberName k, written? v with
    | .ok name, .ok j => (writtenEntries? rest).map ((name, j) :: ·)
    | .error f, _ => .error f
    | _, .error f => .error f

end

end Store

end Recast
