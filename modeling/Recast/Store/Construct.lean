import Recast.Schema.Validation
import Recast.Store.Attribute

/-!
Making values: records of a type from nothing, and values from templates. Every use makes new
objects, down to the innermost default of a field.
-/

set_option autoImplicit false

namespace Recast

namespace Action

/-- The fault of a use of a variable that has no value. -/
def undefinedVariable {α : Type} (name : String) : Action α :=
  fail (.general "Undefined" [.text name])

/-- The item of a container at a position given in text. -/
def itemAt (items : List Value) (step : String) : Action Value :=
  match Decimal.readInt? step.toList with
  | some n =>
    let position := if n < 0 then n + items.length else n
    match (if position < 0 then none else items[position.toNat]?) with
    | some v => done v
    | none => refuse (.outOfRange "list")
  | none => refuse (.noAttribute "list" step)

/-- One step from a value: an item of a list or tuple, an entry of a dictionary, or an attribute. -/
def follow (v : Value) (step : String) : Action Value :=
  match v with
  | .list _ items | .tuple _ items => itemAt items step
  | .dict _ entries =>
    match Value.lookup entries (.text step) with
    | some w => done w
    | none => readAttribute v step
  | _ => readAttribute v step

/-- Follow a path of attributes and positions. -/
def followAll (v : Value) : List String → Action Value
  | [] => done v
  | step :: rest => bind (follow v step) fun w => followAll w rest

/-- The value of a variable. -/
def readVariable (name : String) : Action Value := fun s =>
  match s.binding? name with
  | some v => (.ok v, s)
  | none => undefinedVariable name s

/-- Give a variable a value. -/
def setVariable (name : String) (v : Value) : Action Unit :=
  change fun s => { s with bindings := assign s.bindings name v }

/-- The fault of a kind, made from arguments. -/
def makeFault (kind : String) (args : List Value) : Action Fault := fun s =>
  match Fault.ofKind s kind args with
  | .ok f => (.ok f, s)
  | .error f => fail f s

/-- Set fields of a record as they are. -/
def overwrite (v : Value) (fields : List (String × Value)) : Action Value :=
  match v with
  | .record ref _ => bind (change fun s =>
      fields.foldl (fun s (name, w) => s.setField ref name w) s) fun _ => done v
  | _ => done v

/-- A record of a type with fields given: a model validates them, a declared type is made from
nothing and then overwritten. -/
def recordOf (construct : String → Action Value) (type : String) (fields : List (String × Value)) :
    Action Value := fun s =>
  match s.type? type, Model.find? type with
  | none, some m => m.make (fields.map fun (n, v) => (.text n, v)) s
  | _, _ => bind (construct type) (fun v => overwrite v fields) s

/-- A record of a type with fields that are not validated. -/
def rawRecordOf (construct : String → Action Value) (type : String)
    (fields : List (String × Value)) : Action Value := fun s =>
  match s.type? type, Model.find? type with
  | none, some m => m.makeRaw fields s
  | _, _ => bind (construct type) (fun v => overwrite v fields) s

/-- Refuse a value that cannot be a key. -/
def hashable (key : Value) : Action Unit := fun s =>
  match s.unhashable? key with
  | some type => refuse (.unhashable type) s
  | none => (.ok (), s)

mutual

/-- The value of a template, given how records of a type are made from nothing. -/
def ofTemplate (construct : String → Action Value) : Template → Action Value
  | .null => done .null
  | .bool b => done (.bool b)
  | .int n => done (.int n)
  | .float x => done (.float x)
  | .text s => done (.text s)
  | .bytes bs => done (.bytes bs)
  | .moment m => done (.moment m)
  | .list items => bind (ofTemplates construct items) newList
  | .tuple items => bind (ofTemplates construct items) newTuple
  | .dict entries => bind (ofEntries construct entries) fun es => newDict (Value.dictOf es)
  | .slot path => bind fresh fun id => done (.slot id path)
  | .fault kind args =>
    bind (ofTemplates construct args) fun vs =>
    bind (makeFault kind vs) fun f =>
    bind fresh fun id => done (.fault id f)
  | .record type fields => bind (ofFields construct fields) (recordOf construct type)
  | .blank type => construct type
  | .raw type fields => bind (ofFields construct fields) (rawRecordOf construct type)
  | .variable name path => bind (readVariable name) fun v => followAll v path

/-- The values of templates, in order. -/
def ofTemplates (construct : String → Action Value) : List Template → Action (List Value)
  | [] => done []
  | t :: rest =>
    bind (ofTemplate construct t) fun v =>
    bind (ofTemplates construct rest) fun vs => done (v :: vs)

/-- The entries of a dictionary template, in order. -/
def ofEntries (construct : String → Action Value) :
    List (Template × Template) → Action (List (Value × Value))
  | [] => done []
  | (k, v) :: rest =>
    bind (ofTemplate construct k) fun k =>
    bind (ofTemplate construct v) fun v =>
    bind (hashable k) fun _ =>
    bind (ofEntries construct rest) fun es => done ((k, v) :: es)

/-- The fields of a record template. -/
def ofFields (construct : String → Action Value) :
    List (String × Template) → Action (List (String × Value))
  | [] => done []
  | (n, t) :: rest =>
    bind (ofTemplate construct t) fun v =>
    bind (ofFields construct rest) fun vs => done ((n, v) :: vs)

end

/-- Note that a record of a labelled type was made. -/
def noteNew (t : TypeDecl) : Action Unit :=
  match t.newLabel with
  | some label => note label "new"
  | none => done ()

/-- A record of a declared type, given how the records in its defaults are made. -/
def ofDeclared (construct : String → Action Value) (t : TypeDecl) : Action Value :=
  match t.mode with
  | .failing kind args =>
    bind (ofTemplates construct args) fun vs => bind (makeFault kind vs) fail
  | .needsArgument =>
    fail (Fault.typeError
      (t.name ++ ".__init__() missing 1 required positional argument: 'x'"))
  | _ =>
    bind (ofFields construct t.fields) fun fields =>
    bind (newRecord t.name fields) fun v => bind (noteNew t) fun _ => done v

/-- The value of a type of general values, made from nothing. -/
def ofBuiltin (type : String) : Action Value :=
  match type with
  | "dict" => newDict []
  | "list" => newList []
  | "tuple" => newTuple []
  | "str" => done (.text "")
  | "int" => done (.int 0)
  | "float" => done (.float ⟨0⟩)
  | "bool" => done (.bool false)
  | "bytes" => done (.bytes [])
  | _ => undefinedVariable type

/-- A value of a type made from nothing, with records in records down to a depth. -/
def constructAt : Nat → String → Action Value
  | 0, _ => fail (.await .tooDeep)
  | depth + 1, type => fun s =>
    match s.type? type with
    | some t => ofDeclared (constructAt depth) t s
    | none =>
      match Model.find? type with
      | some m => m.make [] s
      | none => ofBuiltin type s

/-- A value of a type made from nothing. A chain of records in records that is longer than the
number of declared types never ends, and is refused. -/
def construct (type : String) : Action Value := fun s =>
  constructAt (s.types.length + 1) type s

/-- The value of a template. -/
def build (t : Template) : Action Value := ofTemplate construct t

end Action

end Recast
