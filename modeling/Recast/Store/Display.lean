import Recast.Store

/-!
How values are shown. The shown form of a value is its written form in the notation of the path
language: quoted texts, brackets for lists, braces for dictionaries. The plain form is the same
except that texts, moments and faults stand for themselves. Records are shown by their fields; a
record inside itself is cut short.
-/

set_option autoImplicit false

namespace Recast

namespace Value

/-- Texts separated by commas. -/
def commas (parts : List String) : String := ", ".intercalate parts

/-- The text of a truth value. -/
def boolText (b : Bool) : String := if b then "True" else "False"

/-- How a moment is shown. -/
def momentText (m : Moment) : String :=
  let seconds := if m.second = 0 ∧ m.micro = 0 then [] else [m.second]
  let micros := if m.micro = 0 then [] else [m.micro]
  let parts := [m.year, m.month, m.day, m.hour, m.minute] ++ seconds ++ micros
  let zone := match m.offset with
    | none => []
    | some 0 => ["tzinfo=datetime.timezone.utc"]
    | some n => ["tzinfo=datetime.timezone(datetime.timedelta(seconds=" ++ toString n ++ "))"]
  "datetime.datetime(" ++ commas (parts.map toString ++ zone) ++ ")"

/-- The opening brace. -/
def openBrace : String := "\x7b"

/-- The closing brace. -/
def closeBrace : String := "\x7d"

mutual

/-- How a value is shown, given how records are. -/
def shownWith (record : Nat → String → String) : Value → String
  | .null => "None"
  | .bool b => boolText b
  | .int n => toString n
  | .float x => x.render
  | .text s => Text.quoted s
  | .bytes bs => Text.quotedBytes bs
  | .moment m => momentText m
  | .list _ items => "[" ++ commas (shownItems record items) ++ "]"
  | .tuple _ items =>
    let parts := shownItems record items
    match parts with
    | [one] => "(" ++ one ++ ",)"
    | _ => "(" ++ commas parts ++ ")"
  | .dict _ entries => openBrace ++ commas (shownEntries record entries) ++ closeBrace
  | .slot _ path =>
    let parts := path.map Text.quoted
    let inner := match parts with
      | [one] => "(" ++ one ++ ",)"
      | _ => "(" ++ commas parts ++ ")"
    "Slot(path=" ++ inner ++ ")"
  | .record ref type => record ref type
  | .fault _ f => shownFault record f
  | v => "<" ++ v.typeName ++ " object>"

/-- How the items of a container are shown. -/
def shownItems (record : Nat → String → String) : List Value → List String
  | [] => []
  | v :: rest => shownWith record v :: shownItems record rest

/-- How the entries of a dictionary are shown. -/
def shownEntries (record : Nat → String → String) : List (Value × Value) → List String
  | [] => []
  | (k, v) :: rest => (shownWith record k ++ ": " ++ shownWith record v) :: shownEntries record rest

/-- How a fault object is shown. -/
def shownFault (record : Nat → String → String) : Fault → String
  | .application cls message _ _ _ => cls.name ++ "(" ++ shownWith record message ++ ")"
  | .general kind args => kind ++ "(" ++ commas (shownItems record args) ++ ")"
  | .operand e => e.kind ++ "(" ++ Text.quoted e.message ++ ")"
  | .await e => e.kind ++ "(" ++ Text.quoted e.message ++ ")"
  | .cancelled => "CancelledError()"
  | .invalid model issues =>
    toString issues.length ++ " validation error" ++ (if issues.length == 1 then "" else "s") ++
      " for " ++ model

end

end Value

namespace Store

/-- The attributes of a record that are told to others: all but undeclared ones of a model. -/
def visibleFields (s : Store) (r : Record) : List (String × Value) :=
  match s.type? r.type, Model.find? r.type with
  | none, some m =>
    if m.extra then r.fields.filter fun (n, _) => m.fieldNames.contains n else r.fields
  | _, _ => r.fields

/-- How the fields of a model's record are shown. -/
def shownFields (r : Record) (show' : Value → String) : List String :=
  match Model.find? r.type with
  | some m =>
    (r.fields.filter fun (n, _) => m.extra || m.fieldNames.contains n).map fun (n, v) =>
      n ++ "=" ++ show' v
  | none => []

/-- How a record is shown, down to a depth. -/
def shownRecord (s : Store) : Nat → Nat → String → String
  | 0, _, _ => "..."
  | depth + 1, ref, type =>
    match s.records[ref]? with
    | none => "..."
    | some r =>
      if (Model.find? type).isSome then
        type ++ "(" ++ Value.commas (shownFields r (Value.shownWith (s.shownRecord depth))) ++ ")"
      else "<" ++ type ++ " object>"

/-- How a value is shown. -/
def shown (s : Store) (v : Value) : String :=
  Value.shownWith (s.shownRecord (s.records.size + 1)) v

/-- The text of the arguments of a fault: none, one, or all of them as a tuple. -/
def argumentText (s : Store) (plain : Value → String) (kind : String) : List Value → String
  | [] => ""
  | [v] => if kind == "KeyError" then s.shown v else plain v
  | vs => s.shown (.tuple 0 vs)

/-- The plain text of a value, with a bound on how deep faults are nested in faults. -/
def plainAt (s : Store) : Nat → Value → String
  | 0, v => s.shown v
  | depth + 1, v =>
    match v with
    | .text t => t
    | .moment m => (m.render).replace "T" " "
    | .slot _ path => (Slot.mk path).key
    | .record ref type =>
      match s.records[ref]?, Model.find? type with
      | some r, some _ => " ".intercalate (shownFields r s.shown)
      | _, _ => s.shown v
    | .fault _ f =>
      match f with
      | .application _ message _ _ _ => s.plainAt depth message
      | .general kind args => s.argumentText (s.plainAt depth) kind args
      | .operand e => e.message
      | .await e => e.message
      | .cancelled => ""
      | .invalid .. => s.shown v
    | _ => s.shown v

/-- The plain text of a value. -/
def plain (s : Store) (v : Value) : String := s.plainAt 16 v

/-- The text of a fault. -/
def faultText (s : Store) (f : Fault) : String := s.plain (.fault 0 f)

end Store

end Recast
