import Recast.Log.Record
import Recast.Schema
import Recast.Value.Template

/-!
The store: everything that rules can read or change while they run. Records live here and are
referred to by position; values of the other kinds are written out where they stand. An action
reads and changes the store and ends in a result or a fault.
-/

set_option autoImplicit false

namespace Recast

/-- What may be done with records of a declared type. -/
inductive Mode where
  /-- Any attribute may be written. -/
  | open
  /-- Only declared fields may be written. -/
  | closed
  /-- Nothing may be written. -/
  | frozen
  /-- No record can be made: making one ends in this fault. -/
  | failing (kind : String) (args : List Template)
  /-- No record can be made without an argument. -/
  | needsArgument

/-- A record type declared for a session. -/
structure TypeDecl where
  name : String
  fields : List (String × Template)
  mode : Mode
  readOnly : List String
  traced : Bool
  newLabel : Option String

/-- A record: its type and its attributes in the order in which they came. -/
structure Record where
  type : String
  fields : List (String × Value)

/-- An event of a run: when, of which label, and what happened. -/
structure Event where
  ms : Nat
  label : String
  what : String
  deriving DecidableEq

/-- The place of a rule: which builder or single rule, and which position there. -/
structure Cell where
  owner : Nat
  index : Nat
  deriving DecidableEq

/-- How far a coroutine has come; `owner` is the task that runs it, if one does. -/
inductive CoroutineState where
  | created
  | running (owner : Option Nat)
  | closed
  deriving DecidableEq

/-- A future: whether a task fills it, and its result once it has one. -/
structure FutureState where
  isTask : Bool
  outcome : Option Outcome

/-- An awaitable object of its own kind: how often it was awaited and closed. -/
structure CustomState where
  awaited : Nat
  closed : Nat

/-- All that a run can read or change. -/
structure Store where
  now : Nat
  nextId : Nat
  types : List TypeDecl
  records : Array Record
  bindings : List (String × Value)
  compiled : List Cell
  shared : List (Cell × Value)
  coroutines : Array CoroutineState
  futures : Array FutureState
  customs : Array CustomState
  trace : List Event
  log : List Log.Entry
  lookups : List Value

namespace Store

/-- The store of a run that has not begun. -/
def empty : Store :=
  { now := 0
    nextId := 1
    types := []
    records := #[]
    bindings := []
    compiled := []
    shared := []
    coroutines := #[]
    futures := #[]
    customs := #[]
    trace := []
    log := []
    lookups := [] }

instance : Inhabited Store := ⟨empty⟩

/-- The declared type with a name. -/
def type? (s : Store) (name : String) : Option TypeDecl :=
  s.types.find? fun t => t.name == name

/-- The value of a session variable. -/
def binding? (s : Store) (name : String) : Option Value := s.bindings.lookup name

end Store

/-- Set an entry of an ordered list of named values, in its place or at the end. -/
def assign {α : Type} (entries : List (String × α)) (name : String) (v : α) : List (String × α) :=
  if entries.any fun entry => entry.1 == name then
    entries.map fun entry => if entry.1 == name then (name, v) else entry
  else entries ++ [(name, v)]

/-- A step that reads and changes the store and ends in a result or a fault. -/
def Action (α : Type) := Store → Except Raised α × Store

namespace Action

/-- End in a result. -/
def done {α : Type} (a : α) : Action α := fun s => (.ok a, s)

/-- Go on with the result; a fault ends the whole. -/
def bind {α β : Type} (x : Action α) (f : α → Action β) : Action β := fun s =>
  match x s with
  | (.ok a, s) => f a s
  | (.error e, s) => (.error e, s)

instance : Monad Action where
  pure := done
  bind := bind

/-- End in a fault that was raised before. -/
def raise {α : Type} (e : Raised) : Action α := fun s => (.error e, s)

/-- Look at the store. -/
def read {α : Type} (f : Store → α) : Action α := fun s => (.ok (f s), s)

/-- Change the store. -/
def change (f : Store → Store) : Action Unit := fun s => (.ok (), f s)

/-- A number that no object has yet. -/
def fresh : Action Nat := fun s => (.ok s.nextId, { s with nextId := s.nextId + 1 })

/-- End in a new fault. -/
def fail {α : Type} (f : Fault) : Action α := fun s =>
  (.error ⟨s.nextId, f⟩, { s with nextId := s.nextId + 1 })

/-- End in a new fault of an unsupported operation. -/
def refuse {α : Type} (e : OperandError) : Action α := fail (.operand e)

/-- A new list. -/
def newList (items : List Value) : Action Value := do
  return .list (← fresh) items

/-- A new tuple. -/
def newTuple (items : List Value) : Action Value := do
  return .tuple (← fresh) items

/-- A new dictionary. -/
def newDict (entries : List (Value × Value)) : Action Value := do
  return .dict (← fresh) entries

/-- A new record. -/
def newRecord (type : String) (fields : List (String × Value)) : Action Value := fun s =>
  (.ok (.record s.records.size type), { s with records := s.records.push ⟨type, fields⟩ })

/-- Note an event. -/
def note (label what : String) : Action Unit :=
  change fun s => { s with trace := s.trace ++ [⟨s.now, label, what⟩] }

/-- Write a log record. -/
def report (e : Log.Entry) : Action Unit :=
  change fun s => { s with log := s.log ++ [e] }

/-- Apply an action to every element, in order, and collect the results. -/
def forEach {α β : Type} (f : α → Action β) : List α → Action (List β)
  | [] => done []
  | a :: rest => do
    let b ← f a
    let bs ← forEach f rest
    return b :: bs

end Action

end Recast
