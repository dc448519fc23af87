import Recast.Mapping.Compute
import Recast.Session.Formula

/-!
Recipes: written forms of computes. A recipe with a label notes when its formula starts and how it
ends. Making the compute of a recipe may make a value first, an awaitable for instance; this happens
once, before the compute is given to a rule.
-/

set_option autoImplicit false

namespace Recast

/-- A formula with an optional label for events. -/
structure Body where
  formula : Formula
  label : Option String

namespace Body

/-- Note an event, if there is a label. -/
def note (b : Body) (what : String) (p : Prog) : Prog :=
  match b.label with
  | some label => Prog.also (Action.note label what) p
  | none => p

/-- The event of an end. -/
def ending : Outcome → String
  | .ok _ => "end"
  | .error ⟨_, .cancelled⟩ => "cancel"
  | .error _ => "fail"

/-- The event of the end of what cannot be cancelled. -/
def plainEnding : Outcome → String
  | .ok _ => "end"
  | .error _ => "fail"

/-- The formula of a plain function. -/
def plain (b : Body) (source : Value) : Prog :=
  b.note "start" ((b.formula.program source).bind fun o => b.note (plainEnding o) (.done o))

/-- The formula after a pause. -/
def paused (b : Body) (ms : Option Nat) (source : Value) : Prog :=
  match ms with
  | none => b.formula.program source
  | some ms =>
    .sleep ms fun
      | .ok _ => b.formula.program source
      | .error e => Prog.raise e

/-- The formula of an asynchronous function, after a pause. -/
def asynchronous (b : Body) (ms : Option Nat) (source : Value) : Prog :=
  b.note "start" ((b.paused ms source).bind fun o => b.note (ending o) (.done o))

/-- What fills a future: cancelling it is no event of its formula. -/
def filling (b : Body) (source : Value) : Prog :=
  match b.formula with
  | .cancel => Prog.raise .cancelled
  | _ => b.plain source

end Body

/-- A written awaitable: its kind, its formula, how long it takes, and the name it gets. -/
structure AwaitableRecipe where
  kind : AwaitableKind
  body : Body
  ms : Option Nat
  name : Option String

namespace AwaitableRecipe

/-- Give the awaitable its name and end in it. -/
def named (r : AwaitableRecipe) (v : Value) : Prog :=
  match r.name with
  | some name => Prog.also (Action.setVariable name v) (Prog.give v)
  | none => Prog.give v

/-- Make the awaitable for a source. -/
def make (r : AwaitableRecipe) (source : Value) : Prog :=
  match r.kind with
  | .future => .make .future r.ms (r.body.filling source) r.named
  | kind => .make kind none (r.body.asynchronous r.ms source).asCoroutine r.named

end AwaitableRecipe

/-- The written form of a compute. -/
inductive Recipe where
  | literal (t : Template)
  | plain (body : Body)
  | asynchronous (body : Body) (ms : Option Nat)
  | object (asynchronous : Bool) (body : Body) (ms : Option Nat)
  | wrapped (inner : Recipe)
  /-- A type whose objects keep the value of the formula, and give coroutines when they are
  called. -/
  | constructor (body : Body) (name : String)
  | stream
  | builtin (name : String)
  | awaitable (r : AwaitableRecipe)
  /-- A function that makes an awaitable at each call. -/
  | maker (r : AwaitableRecipe)
  | variable (name : String)

instance : Inhabited Recipe := ⟨.stream⟩

namespace Recipe

/-- An object of a type that keeps a value. -/
def keep (type : String) (v : Value) : Action Value := Action.newRecord type [("value", v)]

/-- A value that can be called can be wrapped; nothing else can. -/
def checkCallable (v : Value) : Prog :=
  match v with
  | .function .. => Prog.give v
  | _ => Prog.fail (Fault.typeError "the first argument must be callable")

/-- Make the value that a recipe starts from; recipes of functions need none. -/
def prepare : Recipe → Prog
  | .literal t => Prog.ofAction (Action.build t)
  | .awaitable r => r.make .null
  | .variable name => Prog.ofAction (Action.readVariable name)
  | .wrapped inner =>
    match inner with
    | .literal _ | .awaitable _ | .variable _ => inner.prepare.andThen checkCallable
    | _ => inner.prepare
  | _ => Prog.give .null

/-- The compute of a recipe, from the value made for it. -/
def compute : Recipe → Value → Compute
  | .literal _, v => .literal v
  | .plain body, _ => .plain body.plain
  | .asynchronous body ms, _ => .asynchronous (body.asynchronous ms)
  | .object true body ms, _ => .object true true (body.asynchronous ms)
  | .object false body _, _ => .object false false body.plain
  | .wrapped inner, v => .wrapped (inner.compute v)
  | .constructor body name, _ =>
    .constructor true fun source =>
      (body.plain source).andThen fun v => Prog.ofAction (keep name v)
  | .stream, _ => .stream
  | .builtin name, _ => .plain fun source => Prog.ofAction (Action.applyBuiltin name source)
  | .awaitable _, v => .literal v
  | .maker r, _ => .plain r.make
  | .variable _, v => .literal v

end Recipe

end Recast
