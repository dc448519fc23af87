import Recast.Store

/-!
Reading and writing attributes. Which attributes may be written depends on the type: a model takes
its declared fields, a declared type what its mode allows, and values that are not records take
none.
-/

set_option autoImplicit false

namespace Recast

namespace Store

/-- The attribute of a record. -/
def field? (s : Store) (ref : Nat) (name : String) : Option Value :=
  s.records[ref]? >>= fun r => r.fields.lookup name

/-- The store with an attribute of a record set. -/
def setField (s : Store) (ref : Nat) (name : String) (v : Value) : Store :=
  { s with records := s.records.modify ref fun r => { r with fields := assign r.fields name v } }

/-- The type that keeps a value from being a key, if any: lists, dictionaries and models have no
fixed place in a table. -/
def unhashable? (s : Store) (v : Value) : Option String :=
  v.unhashableType? fun type => (s.type? type).isNone && (Model.find? type).isSome

end Store

namespace Value

/-- The parts of a moment that can be read by name. -/
def momentPart? (m : Moment) (name : String) : Option Value :=
  match name with
  | "year" => some (.int m.year)
  | "month" => some (.int m.month)
  | "day" => some (.int m.day)
  | "hour" => some (.int m.hour)
  | "minute" => some (.int m.minute)
  | "second" => some (.int m.second)
  | "microsecond" => some (.int m.micro)
  | _ => none

/-- The parts of one of this library's faults that can be read by name. -/
def faultPart? (f : Fault) (name : String) : Option Value :=
  match f, name with
  | .application _ message _ _ _, "message" => some message
  | .application _ _ status _ _, "status_code" => some status
  | .application _ _ _ code _, "error_code" => some code
  | .application _ _ _ _ details, "details" => some details
  | _, _ => none

end Value

namespace Action

/-- The value of an attribute. A read-only property that holds nothing reads as nothing. -/
def readAttribute (v : Value) (name : String) : Action Value := fun s =>
  let missing := refuse (.noAttribute v.typeName name) s
  match v with
  | .record ref type =>
    match s.field? ref name with
    | some w => (.ok w, s)
    | none =>
      match s.type? type with
      | some decl => if decl.readOnly.contains name then (.ok .null, s) else missing
      | none => missing
  | .moment m =>
    match Value.momentPart? m name with
    | some w => (.ok w, s)
    | none => missing
  | .fault _ f =>
    match Value.faultPart? f name with
    | some w => (.ok w, s)
    | none => missing
  | _ => missing

/-- Read attributes one after the other. -/
def followNames (v : Value) : List String → Action Value
  | [] => done v
  | name :: rest => bind (readAttribute v name) fun w => followNames w rest

/-- Whether an attribute of a model's record may be written: a declared field, a private name, or
any name where the model takes undeclared fields. -/
def modelTakes (m : Model) (name : String) : Bool :=
  m.fieldNames.contains name || m.extra || name.startsWith "_"

/-- Why an attribute of a declared type's record may not be written. -/
def declared? (t : TypeDecl) (name : String) : Option OperandError :=
  match t.mode with
  | .frozen => some (.frozenField name)
  | .closed =>
    if t.readOnly.contains name then some (.readOnly t.name name)
    else if (t.fields.map Prod.fst).contains name then none
    else some (.noAttribute t.name name)
  | _ => if t.readOnly.contains name then some (.readOnly t.name name) else none

/-- Why an attribute of a record of this type may not be written; `none` when it may. -/
def writeRefusal? (s : Store) (type name : String) : Option OperandError :=
  match s.type? type with
  | some t => declared? t name
  | none =>
    match Model.find? type with
    | some m => if modelTakes m name then none else some (.unknownField type name)
    | none => none

/-- Whether writes to records of this type are noted as events. -/
def isTraced (s : Store) (type : String) : Bool :=
  match s.type? type with
  | some t => t.traced
  | none => false

/-- Set an attribute. Values other than records take no attributes. -/
def writeAttribute (v : Value) (name : String) (w : Value) : Action Unit := fun s =>
  match v with
  | .record ref type =>
    match writeRefusal? s type name with
    | some e => refuse e s
    | none =>
      let s' := s.setField ref name w
      if isTraced s type then note (type ++ "." ++ name) "write" s' else (.ok (), s')
  | .slot .. => refuse (.frozenField name) s
  | _ => refuse (.noAttribute v.typeName name) s

end Action

end Recast
