import Recast.Store

/-!
Programs: what a computation does, step by step, up to its outcome. A program acts on the store,
sleeps, waits for awaitables, runs parts side by side, calls functions and makes new awaitables; at
each step it goes on with what the step gave.
-/

set_option autoImplicit false

namespace Recast

/-- A program. -/
inductive Prog where
  /-- The outcome. -/
  | done (o : Outcome)
  /-- Act on the store. -/
  | act (a : Action Value) (k : Outcome → Prog)
  /-- Let time pass; cancellation arrives as a fault. -/
  | sleep (ms : Nat) (k : Outcome → Prog)
  /-- Wait for an awaitable. -/
  | await (v : Value) (k : Outcome → Prog)
  /-- Run a coroutine as the task with a number. -/
  | drive (coroutine task : Nat) (k : Outcome → Prog)
  /-- Run parts side by side until all have ended; nothing is given on when it was cancelled. -/
  | gather (parts : List Prog) (k : Option (List Outcome) → Prog)
  /-- Run parts side by side until all have succeeded or one has failed; the others then go on by
  themselves. -/
  | race (parts : List Prog) (k : Except Raised (List Value) → Prog)
  /-- Call a function. -/
  | call (f : Nat) (args : List Value) (k : Outcome → Prog)
  /-- Make an awaitable. A future fills itself after the delay, or at once. -/
  | make (kind : AwaitableKind) (delay : Option Nat) (body : Prog) (k : Value → Prog)
  /-- The future that stands for an awaitable: a task or a future is its own. -/
  | share (v : Value) (k : Value → Prog)
  /-- Give up an awaitable that will not be awaited. -/
  | close (v : Value) (k : Prog)

namespace Prog

/-- Go on with the outcome. -/
def bind : Prog → (Outcome → Prog) → Prog
  | done o, f => f o
  | act a k, f => act a fun o => (k o).bind f
  | sleep ms k, f => sleep ms fun o => (k o).bind f
  | await v k, f => await v fun o => (k o).bind f
  | drive c t k, f => drive c t fun o => (k o).bind f
  | gather parts k, f => gather parts fun os => (k os).bind f
  | race parts k, f => race parts fun r => (k r).bind f
  | call g args k, f => call g args fun o => (k o).bind f
  | make kind delay body k, f => make kind delay body fun v => (k v).bind f
  | share v k, f => share v fun w => (k w).bind f
  | close v k, f => close v (k.bind f)

/-- End in a value. -/
def give (v : Value) : Prog := done (.ok v)

/-- End in a fault that was raised before. -/
def raise (e : Raised) : Prog := done (.error e)

/-- Act on the store and end. -/
def ofAction (a : Action Value) : Prog := act a done

/-- Go on with the value; a fault ends the whole. -/
def andThen (p : Prog) (f : Value → Prog) : Prog :=
  p.bind fun
    | .ok v => f v
    | .error e => raise e

/-- End in a new fault. -/
def fail (f : Fault) : Prog := ofAction (Action.fail f)

/-- Act on the store, then go on with the value; a fault ends the whole. -/
def first (a : Action Value) (f : Value → Prog) : Prog :=
  act a fun
    | .ok v => f v
    | .error e => raise e

/-- Act on the store, then go on. -/
def also (a : Action Unit) (p : Prog) : Prog :=
  act (Action.bind a fun _ => Action.done .null) fun _ => p

/-- Run programs one after the other and go on with their values; the first fault ends the whole. -/
def sequence : List Prog → (List Value → Prog) → Prog
  | [], f => f []
  | p :: rest, f => p.andThen fun v => sequence rest fun vs => f (v :: vs)

/-- What leaves a coroutine: the fault by which an iteration stops is not let out as such. -/
def guarded (o : Outcome) : Prog :=
  match o with
  | .error ⟨_, .general "StopIteration" _⟩ => fail (.await .stoppedIteration)
  | o => done o

/-- The program as the body of a coroutine. -/
def asCoroutine (p : Prog) : Prog := p.bind guarded

end Prog

end Recast
