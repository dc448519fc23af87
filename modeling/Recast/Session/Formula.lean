import Recast.Phone
import Recast.Process.Program
import Recast.Store.Operation

/-!
Formulas: written forms of what a rule computes from its source. A formula is run as a program,
from left to right; the first fault ends the whole.
-/

set_option autoImplicit false

namespace Recast

/-- The written form of a computation. -/
inductive Formula where
  | literal (t : Template)
  | source
  /-- Attributes of the source, one after the other. -/
  | get (path : List String)
  | item (e : Formula) (index : Template)
  | raise (kind : String) (args : List Template)
  | raiseVariable (name : String)
  | add (left right : Formula)
  | upper (e : Formula)
  | phone (number country : Formula)
  | calendarText (e : Formula)
  | list (items : List Formula)
  | record (type : String) (fields : List (String × Formula))
  | call (name : String) (args : List Formula)
  | choose (condition yes no : Formula)
  | count (name : String)
  | await (e : Formula)
  | cancel

instance : Inhabited Formula := ⟨.source⟩

namespace Formula

/-- Act on the store and go on with the value. -/
def step (a : Action Value) (k : Value → Prog) : Prog := Prog.first a k

/-- Go on with a value, or end with the fault. -/
def resume (k : Value → Prog) : Outcome → Prog
  | .ok v => k v
  | .error e => Prog.raise e

/-- End in a new fault of a kind. -/
def raiseKind (kind : String) (args : List Template) : Action Value :=
  Action.bind (Action.forEach Action.build args) fun vs =>
  Action.bind (Action.makeFault kind vs) Action.fail

/-- End in the fault that a value is. -/
def raiseValue : Value → Action Value
  | .fault id f => Action.raise ⟨id, f⟩
  | _ => Action.refuse .notRaisable

/-- Call a value. -/
def callValue (f : Value) (args : List Value) (k : Value → Prog) : Prog :=
  match f with
  | .function i _ => .call i args (resume k)
  | v => Prog.fail (.operand (.notCallable v.typeName))

/-- Set the fields of a record one after the other. -/
def setFields (v : Value) : List (String × Value) → Action Value
  | [] => Action.done v
  | (n, w) :: rest => Action.bind (Action.writeAttribute v n w) fun _ => setFields v rest

/-- A record of a type with fields: a model validates them, a declared type is made and then set. -/
def makeRecord (type : String) (fields : List (String × Value)) : Action Value := fun s =>
  match s.type? type, Model.find? type with
  | none, some m => m.make (fields.map fun (n, v) => (.text n, v)) s
  | _, _ => Action.bind (Action.construct type) (fun v => setFields v fields) s

mutual

/-- Run a formula on a source and go on with the value. -/
def run (source : Value) : Formula → (Value → Prog) → Prog
  | .literal t, k => step (Action.build t) k
  | .source, k => k source
  | .get path, k => step (Action.followNames source path) k
  | .item e index, k =>
    run source e fun v => step (Action.build index) fun i => step (Action.item v i) k
  | .raise kind args, _ => Prog.ofAction (raiseKind kind args)
  | .raiseVariable name, _ => Prog.ofAction (Action.bind (Action.readVariable name) raiseValue)
  | .add left right, k =>
    run source left fun x => run source right fun y => step (Action.add x y) k
  | .upper e, k => run source e fun v => step (Action.upper v) k
  | .phone number country, k =>
    run source number fun n => run source country fun c => step (Phone.international n c) k
  | .calendarText e, k => run source e fun v => step (Action.calendarText v) k
  | .list items, k => runAll source items fun vs => step (Action.newList vs) k
  | .record type fields, k => runFields source fields fun vs => step (makeRecord type vs) k
  | .call name args, k =>
    step (Action.readVariable name) fun f => runAll source args fun vs => callValue f vs k
  | .choose condition yes no, k =>
    run source condition fun c => if c.truth then run source yes k else run source no k
  | .count name, k => step (Action.count name) k
  | .await e, k => run source e fun v => .await v (resume k)
  | .cancel, _ => Prog.raise .cancelled

/-- Run formulas from left to right. -/
def runAll (source : Value) : List Formula → (List Value → Prog) → Prog
  | [], k => k []
  | e :: rest, k => run source e fun v => runAll source rest fun vs => k (v :: vs)

/-- Run the formulas of named fields in order. -/
def runFields (source : Value) :
    List (String × Formula) → (List (String × Value) → Prog) → Prog
  | [], k => k []
  | (n, e) :: rest, k =>
    run source e fun v => runFields source rest fun vs => k ((n, v) :: vs)

end

/-- The program of a formula. -/
def program (e : Formula) (source : Value) : Prog := run source e Prog.give

end Formula

end Recast
