import Recast.Process.Program

/-!
Computes: what a rule may be given to obtain its value from the source. A compute is a literal, a
function in one of several forms, or an awaitable; calling it gives a value or an awaitable of one.
Whether calls give awaitables is told beforehand, by looking at the compute without calling it: at
what it is underneath all wrappings, whether that is a coroutine function or a class, and else at
its attribute `__call__`. A call of an object goes by its class, the attribute is looked up on the
object itself, so the two need not agree. What is offered as a compute may also resist being looked
at.
-/

set_option autoImplicit false

namespace Recast

/-- What gives the value of a rule. -/
inductive Compute where
  /-- A value taken as it is: a literal, an awaitable, or a function that was made before. -/
  | literal (v : Value)
  /-- A function of the source. -/
  | plain (run : Value → Prog)
  /-- A function of the source whose body runs when it is awaited. -/
  | asynchronous (run : Value → Prog)
  /-- Another compute, wrapped without arguments. -/
  | wrapped (inner : Compute)
  /-- An object that can be called, with a plain or an asynchronous body, and whether its attribute
  `__call__` is a coroutine function. An object that was given no such attribute of its own shows
  the body that a call runs. -/
  | object (shown asynchronous : Bool) (run : Value → Prog)
  /-- A type, called to make an object, and whether calls of its objects give coroutines: that is
  what the attribute `__call__` of the type shows. -/
  | constructor (shown : Bool) (run : Value → Prog)
  /-- A function whose calls give a stream of values, which cannot be awaited. -/
  | stream

namespace Compute

/-- The compute is an awaitable itself. -/
def isAwaitable : Compute → Bool
  | .literal v => v.isAwaitable
  | _ => false

/-- The compute underneath all wrappings. -/
def unwrapped : Compute → Compute
  | .wrapped inner => inner.unwrapped
  | c => c

/-- The compute is a coroutine function. A function whose calls give a stream is none. -/
def isCoroutineFunction : Compute → Bool
  | .literal (.function _ coroutines) => coroutines
  | .asynchronous _ => true
  | _ => false

/-- The compute is a class. -/
def isClass : Compute → Bool
  | .constructor .. => true
  | _ => false

/-- The attribute `__call__` of the compute is a coroutine function. That of a function is not,
whatever the function is; a value that cannot be called has none. -/
def showsCoroutines : Compute → Bool
  | .object shown _ _ => shown
  | .constructor shown _ => shown
  | _ => false

/-- Calling the compute is held to give an awaitable, from looking at it: it is a coroutine function
underneath all wrappings, or an object whose attribute `__call__` is one. Calling a class makes an
object, whatever calls of that object give. -/
def isAsync (c : Compute) : Bool :=
  if c.unwrapped.isCoroutineFunction then true
  else if c.unwrapped.isClass then false
  else c.unwrapped.showsCoroutines

/-- A new coroutine with a body. -/
def coroutine (body : Prog) : Prog := .make .coroutine none body.asCoroutine Prog.give

/-- A new stream. -/
def newStream : Action Value := Action.bind Action.fresh fun id => Action.done (.stream id)

/-- What calling the compute gives. -/
def invoke : Compute → Value → Prog
  | .literal (.function f _), source => .call f [source] .done
  | .literal v, _ => Prog.give v
  | .plain run, source => run source
  | .asynchronous run, source => coroutine (run source)
  | .wrapped inner, source => inner.invoke source
  | .object _ true run, source => coroutine (run source)
  | .object _ false run, source => run source
  | .constructor _ run, source => run source
  | .stream, _ => Prog.ofAction newStream

/-- Go on until the value is no awaitable. -/
def await (v : Value) : Prog := if v.isAwaitable then .await v .done else Prog.give v

/-- The value of the compute, awaited where need be. The body of what shows itself to be
asynchronous runs on the spot. -/
def evaluate : Compute → Value → Prog
  | .asynchronous run, source => (run source).asCoroutine
  | .wrapped inner, source => inner.evaluate source
  | .object true true run, source => (run source).asCoroutine
  | c, source => (c.invoke source).andThen await

end Compute

/-- What is offered as the compute of a rule. Its class tells whether it is an awaitable, and its
attribute `__call__` whether calls of it give awaitables; reading either of them may run code that
raises. -/
inductive Offer where
  /-- A compute that can be looked at. -/
  | clear (c : Compute)
  /-- An object whose class cannot be read. -/
  | masked (f : Fault)
  /-- An object that can be called and is no awaitable, whose attribute `__call__` cannot be
  read. -/
  | veiled (f : Fault)

namespace Offer

/-- The offer is an awaitable, as far as its class can be read. -/
def isAwaitable : Offer → Except Fault Bool
  | .clear c => .ok c.isAwaitable
  | .masked f => .error f
  | .veiled _ => .ok false

/-- The compute that is offered, once it has been looked at. -/
def inspect : Offer → Except Fault Compute
  | .clear c => .ok c
  | .masked f => .error f
  | .veiled f => .error f

end Offer

end Recast
