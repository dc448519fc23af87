/-!
Cells that are filled at first use. Getting the content takes atomic steps: look without the lock,
take the lock, look again, run the factory, publish its result, let the lock go. A factory that
gives nothing, or fails, leaves the cell empty, and the next use runs it again.
-/

set_option autoImplicit false

namespace Recast

/-- What a run of a factory gives: content, nothing, or a failure. -/
inductive FactoryResult (α ε : Type) where
  | content (a : α)
  | nothing
  | failure (e : ε)

/-- What a use of the cell gives. -/
abbrev GetResult (α ε : Type) := Except ε (Option α)

/-- Where a caller stands within one use of the cell. -/
inductive CallerStep (α ε : Type) where
  /-- Not in a use. -/
  | idle
  /-- Found the cell empty, and wants the lock. -/
  | waiting
  /-- Has the lock, and looks again. -/
  | checking
  /-- Runs the factory. -/
  | running
  /-- Has the result of the factory, not yet published. -/
  | holding (r : FactoryResult α ε)
  /-- Is about to let the lock go, with the result of the use. -/
  | leaving (r : GetResult α ε)
  /-- Has ended the use. -/
  | finished (r : GetResult α ε)

/-- A cell with its callers: the content, who has the lock, and how often the factory has run. -/
structure LazyCell (α ε : Type) where
  content : Option α
  lock : Option Nat
  runs : Nat
  callers : List (CallerStep α ε)

namespace LazyCell

variable {α ε : Type}

/-- An empty cell with a number of callers. -/
def empty (callers : Nat) : LazyCell α ε := ⟨none, none, 0, List.replicate callers .idle⟩

/-- The cell has content. -/
def isCompiled (c : LazyCell α ε) : Bool := c.content.isSome

/-- Where a caller stands. -/
def caller (c : LazyCell α ε) (i : Nat) : CallerStep α ε := c.callers[i]?.getD .idle

/-- The cell with a caller moved. -/
def move (c : LazyCell α ε) (i : Nat) (s : CallerStep α ε) : LazyCell α ε :=
  { c with callers := c.callers.set i s }

/-- What a use gives for a result of the factory. -/
def resultOf : FactoryResult α ε → GetResult α ε
  | .content a => .ok (some a)
  | .nothing => .ok none
  | .failure e => .error e

/-- The content after a result of the factory is published. -/
def publish (content : Option α) : FactoryResult α ε → Option α
  | .content a => some a
  | .nothing => none
  | .failure _ => content

/-- One atomic step of a caller, if it can take one. `factory n` is what the factory gives on its
run number `n`, counted from zero. -/
def step (factory : Nat → FactoryResult α ε) (c : LazyCell α ε) (i : Nat) : Option (LazyCell α ε) :=
  if i < c.callers.length then
    match c.caller i with
    | .idle | .finished _ =>
      match c.content with
      | some a => some (c.move i (.finished (.ok (some a))))
      | none => some (c.move i .waiting)
    | .waiting =>
      match c.lock with
      | none => some { c.move i .checking with lock := some i }
      | some _ => none
    | .checking =>
      match c.content with
      | some a => some (c.move i (.leaving (.ok (some a))))
      | none => some (c.move i .running)
    | .running => some { c.move i (.holding (factory c.runs)) with runs := c.runs + 1 }
    | .holding r => some { c.move i (.leaving (resultOf r)) with content := publish c.content r }
    | .leaving r => some { c.move i (.finished r) with lock := none }
  else none

/-- Steps of callers in the order of a schedule; a caller that cannot step is passed over. -/
def run (factory : Nat → FactoryResult α ε) (c : LazyCell α ε) : List Nat → LazyCell α ε
  | [] => c
  | i :: rest => run factory ((step factory c i).getD c) rest

/-- One whole use by a single caller: at most six steps. -/
def get (factory : Nat → FactoryResult α ε) (c : LazyCell α ε) : LazyCell α ε × GetResult α ε :=
  let rec go : Nat → LazyCell α ε → LazyCell α ε × GetResult α ε
    | 0, c => (c, .ok c.content)
    | fuel + 1, c =>
      let c := (step factory c 0).getD c
      match c.caller 0 with
      | .finished r => (c, r)
      | _ => go fuel c
  go 6 { c with callers := c.callers.set 0 .idle }

end LazyCell

end Recast
