import Recast.Decimal.Shortest
import Recast.Slot
import Recast.Text.Quoted
import Recast.Value.Moment

/-!
Values that rules read, compute and write, and the faults that computing may end in. Containers and
faults carry an identity number, so that the same container can be told from an equal one; records
are kept in a store and are referred to by position. A fault is itself a value and may be computed,
stored and raised later.
-/

set_option autoImplicit false

namespace Recast

/-- The classes of the library's own errors, from general to special. -/
inductive ErrorClass where
  | application
  | configuration
  | slotShape
  | duplicateSlot
  | noRules
  | asynchronousRule
  | transformation
  | mappingField
  | slotPath
  | source
  | sourceTimeout
  | sourceConnection
  | notFound
  deriving DecidableEq, Inhabited

/-- One step into the data that failed validation. -/
inductive Place where
  | field (name : String)
  | index (n : Nat)
  deriving DecidableEq

/-- A finding of validation: where, and of which type. -/
structure Issue where
  place : List Place
  type : String
  deriving DecidableEq

/-- Operations that a value does not support. -/
inductive OperandError where
  | noAttribute (type name : String)
  | unknownField (model name : String)
  | frozenField (name : String)
  | readOnly (type name : String)
  | cannotJoin (left right : String)
  | unsupported (operator left right : String)
  | notSubscriptable (type : String)
  | badIndex (container index : String)
  | outOfRange (container : String)
  | wideIndex
  | wideInteger
  | unhashable (type : String)
  | noLength (type : String)
  | notCallable (type : String)
  | notIterable (type : String)
  | notRaisable
  | badIntegerText (shown : String)
  | notNumeric (type : String)
  | notWhole (x : String)
  | wrongReceiver (method owner type : String)
  | missingArgument (text : String)
  deriving DecidableEq

/-- Ways in which waiting goes wrong. -/
inductive AwaitError where
  | alreadyAwaited
  | beingAwaited
  | stoppedIteration
  | tooDeep
  deriving DecidableEq

/-- What an awaitable is: a computation that runs when first awaited, one that runs by itself, a
result still to come, or an object with its own way of being awaited. -/
inductive AwaitableKind where
  | coroutine
  | task
  | future
  | custom
  deriving DecidableEq, Inhabited

mutual

/-- Values. -/
inductive Value where
  | null
  | bool (b : Bool)
  | int (n : Int)
  | float (x : Decimal.Double)
  | text (s : String)
  | bytes (bs : List UInt8)
  | moment (m : Moment)
  | list (id : Nat) (items : List Value)
  | tuple (id : Nat) (items : List Value)
  | dict (id : Nat) (entries : List (Value × Value))
  | slot (id : Nat) (path : List String)
  | record (ref : Nat) (type : String)
  | fault (id : Nat) (f : Fault)
  | function (id : Nat) (asynchronous : Bool)
  | awaitable (kind : AwaitableKind) (id : Nat)
  | stream (id : Nat)

/-- Faults, by cause. -/
inductive Fault where
  /-- An error of this library: its class, message, status, code and details. -/
  | application (cls : ErrorClass) (message status code details : Value)
  /-- An error of a general kind, with the arguments it was made with. -/
  | general (kind : String) (args : List Value)
  /-- An operation on a value that does not support it. -/
  | operand (e : OperandError)
  /-- A failure of waiting. -/
  | await (e : AwaitError)
  /-- The computation was cancelled. -/
  | cancelled
  /-- Data did not fit a model. -/
  | invalid (model : String) (issues : List Issue)

end

instance : Inhabited Value := ⟨.null⟩

/-- A fault that was raised, with the identity of the fault object. -/
structure Raised where
  id : Nat
  fault : Fault

/-- How a computation ended. -/
abbrev Outcome := Except Raised Value

/-- Cancellation makes its fault object anew each time, so it has the number of no object. -/
def Raised.cancelled : Raised := ⟨0, .cancelled⟩

/-- The fault object of a raised fault. -/
def Raised.toValue (r : Raised) : Value := .fault r.id r.fault

namespace ErrorClass

/-- The name of a class. -/
def name : ErrorClass → String
  | .application => "AppException"
  | .configuration => "MappingConfigurationException"
  | .slotShape => "InvalidSlotShapeException"
  | .duplicateSlot => "DuplicateSlotException"
  | .noRules => "NoRulesDefinedException"
  | .asynchronousRule => "AsynchronousRuleDeclaredException"
  | .transformation => "TransformationException"
  | .mappingField => "MappingFieldException"
  | .slotPath => "SlotPathException"
  | .source => "SourceAPIException"
  | .sourceTimeout => "SourceAPITimeoutException"
  | .sourceConnection => "SourceAPIConnectionException"
  | .notFound => "NotFoundException"

/-- The class right above a class. -/
def parent : ErrorClass → Option ErrorClass
  | .application => none
  | .slotShape | .duplicateSlot | .noRules | .asynchronousRule => some .configuration
  | .mappingField | .slotPath => some .transformation
  | .sourceTimeout | .sourceConnection => some .source
  | .configuration | .transformation | .source | .notFound => some .application

/-- A class and the classes above it; no class is more than two steps below the top. -/
def lineage (c : ErrorClass) : List ErrorClass :=
  match c.parent with
  | none => [c]
  | some p =>
    match p.parent with
    | none => [c, p]
    | some q => [c, p, q]

/-- All classes. -/
def all : List ErrorClass :=
  [.application, .configuration, .slotShape, .duplicateSlot, .noRules, .asynchronousRule,
    .transformation, .mappingField, .slotPath, .source, .sourceTimeout, .sourceConnection,
    .notFound]

/-- The class with a name. -/
def ofName? (s : String) : Option ErrorClass :=
  all.find? fun c => c.name == s

end ErrorClass

namespace OperandError

/-- The kind of fault. -/
def kind : OperandError → String
  | .noAttribute .. | .readOnly .. => "AttributeError"
  | .unknownField .. | .badIntegerText .. => "ValueError"
  | .frozenField .. => "FrozenInstanceError"
  | .outOfRange .. | .wideIndex => "IndexError"
  | .wideInteger => "OverflowError"
  | .notWhole x => if x == "nan" then "ValueError" else "OverflowError"
  | _ => "TypeError"

/-- The wording. -/
def message : OperandError → String
  | .noAttribute type name => "'" ++ type ++ "' object has no attribute '" ++ name ++ "'"
  | .unknownField model name => "\"" ++ model ++ "\" object has no field \"" ++ name ++ "\""
  | .frozenField name => "cannot assign to field '" ++ name ++ "'"
  | .readOnly type name => "property '" ++ name ++ "' of '" ++ type ++ "' object has no setter"
  | .cannotJoin left right =>
    if left == "bytes" then "can't concat " ++ right ++ " to bytes"
    else "can only concatenate " ++ left ++ " (not \"" ++ right ++ "\") to " ++ left
  | .unsupported operator left right =>
    "unsupported operand type(s) for " ++ operator ++ ": '" ++ left ++ "' and '" ++ right ++ "'"
  | .notSubscriptable type => "'" ++ type ++ "' object is not subscriptable"
  | .badIndex container index =>
    if container == "str" then "string indices must be integers, not '" ++ index ++ "'"
    else if container == "bytes" then "byte indices must be integers or slices, not " ++ index
    else container ++ " indices must be integers or slices, not " ++ index
  | .outOfRange container =>
    (if container == "str" then "string"
      else if container == "bytes" then "index"
      else container ++ " index")
      ++ (if container == "str" then " index out of range" else " out of range")
  | .wideIndex => "cannot fit 'int' into an index-sized integer"
  | .wideInteger => "int too large to convert to float"
  | .unhashable type => "unhashable type: '" ++ type ++ "'"
  | .noLength type => "object of type '" ++ type ++ "' has no len()"
  | .notCallable type => "'" ++ type ++ "' object is not callable"
  | .notIterable type => "'" ++ type ++ "' object is not iterable"
  | .notRaisable => "exceptions must derive from BaseException"
  | .badIntegerText shown => "invalid literal for int() with base 10: " ++ shown
  | .notNumeric type =>
    "int() argument must be a string, a bytes-like object or a real number, not '" ++ type ++ "'"
  | .notWhole x =>
    if x == "nan" then "cannot convert float NaN to integer"
    else "cannot convert float infinity to integer"
  | .wrongReceiver method owner type =>
    "descriptor '" ++ method ++ "' for '" ++ owner ++ "' objects doesn't apply to a '" ++ type
      ++ "' object"
  | .missingArgument text => text

end OperandError

namespace AwaitError

/-- The kind of fault. -/
def kind : AwaitError → String
  | .tooDeep => "RecursionError"
  | _ => "RuntimeError"

/-- The wording. -/
def message : AwaitError → String
  | .alreadyAwaited => "cannot reuse already awaited coroutine"
  | .beingAwaited => "coroutine is being awaited already"
  | .stoppedIteration => "coroutine raised StopIteration"
  | .tooDeep => "maximum recursion depth exceeded"

end AwaitError

namespace Fault

/-- The kind of a fault, as logs and answers name it. -/
def kind : Fault → String
  | .application cls .. => cls.name
  | .general kind _ => kind
  | .operand e => e.kind
  | .await e => e.kind
  | .cancelled => "CancelledError"
  | .invalid .. => "ValidationError"

/-- A type error with the given wording. -/
def typeError (text : String) : Fault := .general "TypeError" [.text text]

end Fault

namespace Value

/-- The name of an awaitable's type. -/
def awaitableType : AwaitableKind → String
  | .coroutine => "coroutine"
  | .task => "_asyncio.Task"
  | .future => "_asyncio.Future"
  | .custom => "Awaitable"

/-- The name of a value's type. -/
def typeName : Value → String
  | .null => "NoneType"
  | .bool _ => "bool"
  | .int _ => "int"
  | .float _ => "float"
  | .text _ => "str"
  | .bytes _ => "bytes"
  | .moment _ => "datetime.datetime"
  | .list .. => "list"
  | .tuple .. => "tuple"
  | .dict .. => "dict"
  | .slot .. => "Slot"
  | .record _ type => type
  | .fault _ f => f.kind
  | .function .. => "function"
  | .awaitable kind _ => awaitableType kind
  | .stream _ => "async_generator"

/-- A value that can be awaited. -/
def isAwaitable : Value → Bool
  | .awaitable .. => true
  | _ => false

/-- The truth of a value as a condition: nothing, zero and the empty containers are false. -/
def truth : Value → Bool
  | .null => false
  | .bool b => b
  | .int n => n != 0
  | .float x => !x.isZero
  | .text s => !s.isEmpty
  | .bytes bs => !bs.isEmpty
  | .list _ items => !items.isEmpty
  | .tuple _ items => !items.isEmpty
  | .dict _ entries => !entries.isEmpty
  | _ => true

/-- The same object: containers and faults by number, records by position, the rest by value. -/
def same : Value → Value → Bool
  | .null, .null => true
  | .bool a, .bool b => a == b
  | .int a, .int b => a == b
  | .float a, .float b => a == b
  | .text a, .text b => a == b
  | .bytes a, .bytes b => a == b
  | .moment a, .moment b => a == b
  | .list a _, .list b _ => a == b
  | .tuple a _, .tuple b _ => a == b
  | .dict a _, .dict b _ => a == b
  | .slot a _, .slot b _ => a == b
  | .record a _, .record b _ => a == b
  | .fault a _, .fault b _ => a == b && a != 0
  | .function a _, .function b _ => a == b
  | .awaitable k a, .awaitable l b => k == l && a == b
  | .stream a, .stream b => a == b
  | _, _ => false

/-- The number behind a truth value, an integer or a float, as the exact numerator, scaled so that
equal numbers of the three types are recognised. -/
def number? : Value → Option (Int ⊕ Decimal.Double)
  | .bool b => some (.inl (if b then 1 else 0))
  | .int n => some (.inl n)
  | .float x =>
    match x.toInt? with
    | some n => some (.inl n)
    | none => some (.inr x)
  | _ => none

/-- Numbers are equal by value, whatever their type. -/
def sameNumber : Int ⊕ Decimal.Double → Int ⊕ Decimal.Double → Bool
  | .inl a, .inl b => a == b
  | .inr a, .inr b => a.sameNumber b
  | _, _ => false

mutual

/-- Equality of dictionary keys. -/
def sameKey : Value → Value → Bool
  | .null, .null => true
  | .text a, .text b => a == b
  | .bytes a, .bytes b => a == b
  | .moment a, .moment b => a == b
  | .tuple _ as, .tuple _ bs => sameKeys as bs
  | .slot _ a, .slot _ b => a == b
  | .record a _, .record b _ => a == b
  | .fault a _, .fault b _ => a == b
  | .function a _, .function b _ => a == b
  | .awaitable k a, .awaitable l b => k == l && a == b
  | .bool a, y => keyNumber (.bool a) y
  | .int a, y => keyNumber (.int a) y
  | .float a, y => keyNumber (.float a) y
  | _, _ => false
where
  keyNumber (x y : Value) : Bool :=
    match x.number?, y.number? with
    | some a, some b => sameNumber a b
    | _, _ => false

/-- Equality of lists of keys. -/
def sameKeys : List Value → List Value → Bool
  | [], [] => true
  | a :: as, b :: bs => sameKey a b && sameKeys as bs
  | _, _ => false

end

mutual

/-- The type that keeps a value from being a dictionary key, if any. -/
def unhashableType? (isModel : String → Bool) : Value → Option String
  | .list .. => some "list"
  | .dict .. => some "dict"
  | .record _ type => if isModel type then some type else none
  | .tuple _ items => unhashableItem? isModel items
  | _ => none

/-- The first such type in a list. -/
def unhashableItem? (isModel : String → Bool) : List Value → Option String
  | [] => none
  | v :: rest => (unhashableType? isModel v).orElse fun _ => unhashableItem? isModel rest

end

/-- The entry of a dictionary under a key. -/
def lookup (entries : List (Value × Value)) (key : Value) : Option Value :=
  (entries.find? fun entry => sameKey entry.1 key).map Prod.snd

/-- A dictionary with an entry set: in its place if the key is there, else at the end. -/
def insert (entries : List (Value × Value)) (key value : Value) : List (Value × Value) :=
  if entries.any fun entry => sameKey entry.1 key then
    entries.map fun entry => if sameKey entry.1 key then (entry.1, value) else entry
  else entries ++ [(key, value)]

/-- A dictionary from entries: a later entry replaces the value of an earlier one of the same
key. -/
def dictOf (entries : List (Value × Value)) : List (Value × Value) :=
  entries.foldl (fun dict (k, v) => insert dict k v) []

end Value

end Recast
