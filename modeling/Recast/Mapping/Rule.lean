import Recast.Mapping.Compute
import Recast.Slot.Setter

/-!
Rules: one slot of the target paired with what computes its value. A rule runs in two ways. The
asynchronous way awaits what the compute gives; the synchronous way refuses anything that would have
to be awaited, before anything is written. An awaitable that was given as the compute itself becomes
one shared future at its first use, and every later use of the rule takes the result of that future.
-/

set_option autoImplicit false

namespace Recast

/-- A rule: what kind of slot, which slot and setter, and what computes the value. -/
structure Rule where
  kind : Slot.Kind
  binder : Binder
  compute : Compute

namespace Rule

/-- The rule for an offer, once that has been looked at. -/
def create (kind : Slot.Kind) (binder : Binder) (o : Offer) : Except Fault Rule :=
  o.inspect.map fun c => ⟨kind, binder, c⟩

/-- The key of the rule's slot. -/
def key (r : Rule) : String := r.binder.slot.key

/-- The rule is held to need awaiting. -/
def isAsync (r : Rule) : Bool := r.compute.isAwaitable || r.compute.isAsync

/-- The future that a rule shares between its uses, if it has one. -/
def sharedFuture (cell : Cell) : Action Value :=
  Action.read fun s => (s.shared.lookup cell).getD .null

/-- Note the future that a rule shares between its uses. -/
def noteShared (cell : Cell) (future : Value) : Action Unit :=
  Action.change fun s => { s with shared := (cell, future) :: s.shared }

/-- The one future that stands for an awaitable in all uses of a rule. -/
def shareOnce (cell : Cell) (awaitable : Value) : Prog :=
  Prog.first (sharedFuture cell) fun
    | .null => .share awaitable fun future => Prog.also (noteShared cell future) (Prog.give future)
    | future => Prog.give future

/-- What calling the rule's compute gives. -/
def obtain (r : Rule) (source : Value) : Prog :=
  match r.compute with
  | .literal v => if v.isAwaitable then shareOnce r.binder.cell v else r.compute.invoke source
  | _ => r.compute.invoke source

/-- The value of the rule's compute, awaited where need be. -/
def evaluate (r : Rule) (source : Value) : Prog :=
  match r.compute with
  | .literal _ => (r.obtain source).andThen Compute.await
  | _ => r.compute.evaluate source

/-- Write a value into the rule's slot. -/
def write (r : Rule) (target value : Value) : Prog := Prog.ofAction (r.binder.write target value)

/-- Compute the value and write it into the target; the result is the target. -/
def apply (r : Rule) (source target : Value) : Prog :=
  ((r.evaluate source).andThen fun v => r.write target v).asCoroutine

/-- The same without awaiting: an awaitable is given up and refused. -/
def applySync (r : Rule) (source target : Value) : Prog :=
  (r.obtain source).andThen fun v =>
    if v.isAwaitable then .close v (Prog.fail (Fault.asynchronousRule [r.key]))
    else r.write target v

end Rule

end Recast
