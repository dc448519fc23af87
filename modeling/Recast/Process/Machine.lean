import Recast.Process.Program

/-!
The machine that runs programs. It holds the store, the functions and awaitables that were made,
and for each of them how far it has come. A program runs until it ends or has to wait; what is left
then is a process. The bound on nested calls is the only one.
-/

set_option autoImplicit false

namespace Recast

/-- What is left to run. -/
inductive Proc where
  /-- Ended. -/
  | settled (o : Outcome)
  /-- Not begun. -/
  | fresh (p : Prog)
  /-- To go on with an outcome. -/
  | ready (o : Outcome) (k : Outcome → Prog)
  /-- Asleep until a time. -/
  | sleeping (wake : Nat) (k : Outcome → Prog)
  /-- Waiting for a future. -/
  | awaiting (future : Nat) (k : Outcome → Prog)
  /-- Waiting until all parts have ended. -/
  | joining (cancelled : Bool) (parts : List Proc) (k : Option (List Outcome) → Prog)
  /-- Waiting until all parts have succeeded or one has failed. -/
  | racing (parts : List Proc) (k : Except Raised (List Value) → Prog)

namespace Proc

/-- Go on with the outcome. -/
def bind (p : Proc) (f : Outcome → Prog) : Proc :=
  match p with
  | settled o => ready o f
  | fresh q => fresh (q.bind f)
  | ready o k => ready o fun o => (k o).bind f
  | sleeping wake k => sleeping wake fun o => (k o).bind f
  | awaiting i k => awaiting i fun o => (k o).bind f
  | joining c parts k => joining c parts fun os => (k os).bind f
  | racing parts k => racing parts fun r => (k r).bind f

/-- The outcome of a process that has ended. -/
def outcome? : Proc → Option Outcome
  | settled o => some o
  | _ => none

/-- The outcomes of processes that have all ended. -/
def outcomes? : List Proc → Option (List Outcome)
  | [] => some []
  | p :: rest =>
    match p.outcome?, outcomes? rest with
    | some o, some os => some (o :: os)
    | _, _ => none

/-- The first fault among processes that have ended. -/
def firstFault? : List Proc → Option Raised
  | [] => none
  | settled (.error e) :: _ => some e
  | _ :: rest => firstFault? rest

/-- The values of processes that have all ended well. -/
def values? : List Proc → Option (List Value)
  | [] => some []
  | settled (.ok v) :: rest => (values? rest).map (v :: ·)
  | _ :: _ => none

/-- The process has not ended. -/
def isOpen (p : Proc) : Bool := p.outcome?.isNone

end Proc

/-- A function that was made: whether calling it only gives a coroutine, and what it runs. -/
structure Function where
  asynchronous : Bool
  run : List Value → Prog

/-- The machine. Bodies of coroutines, processes of futures and bodies of custom awaitables stand at
the positions that the store gives them; strays are parts that went on after what they were part of
had ended. -/
structure Machine where
  store : Store
  functions : Array Function
  bodies : Array Prog
  tasks : Array Proc
  customs : Array Prog
  strays : List Proc

namespace Machine

/-- The machine that has done nothing. -/
def empty : Machine := ⟨.empty, #[], #[], #[], #[], []⟩

instance : Inhabited Machine := ⟨empty⟩

/-- Act on the store. -/
def act {α : Type} (m : Machine) (a : Action α) : Except Raised α × Machine :=
  let (r, s) := a m.store
  (r, { m with store := s })

/-- Add a function. -/
def addFunction (m : Machine) (f : Function) : Value × Machine :=
  (.function m.functions.size f.asynchronous, { m with functions := m.functions.push f })

/-- Add a coroutine that has not begun. -/
def addCoroutine (m : Machine) (body : Prog) : Value × Machine :=
  (.awaitable .coroutine m.bodies.size,
    { m with
      bodies := m.bodies.push body
      store := { m.store with coroutines := m.store.coroutines.push .created } })

/-- Add a future with what will fill it. -/
def addFuture (m : Machine) (isTask : Bool) (p : Proc) : Nat × Machine :=
  (m.tasks.size,
    { m with
      tasks := m.tasks.push p
      store := { m.store with futures := m.store.futures.push ⟨isTask, p.outcome?⟩ } })

/-- Add an awaitable of its own kind. -/
def addCustom (m : Machine) (body : Prog) : Value × Machine :=
  (.awaitable .custom m.customs.size,
    { m with
      customs := m.customs.push body
      store := { m.store with customs := m.store.customs.push ⟨0, 0⟩ } })

/-- How far a coroutine has come. -/
def coroutine (m : Machine) (c : Nat) : CoroutineState := m.store.coroutines[c]?.getD .closed

/-- Note how far a coroutine has come. -/
def setCoroutine (c : Nat) (state : CoroutineState) (s : Store) : Store :=
  { s with coroutines := s.coroutines.modify c fun _ => state }

/-- The outcome of a future that has one. -/
def future? (m : Machine) (i : Nat) : Option Outcome := m.store.futures[i]? >>= (·.outcome)

/-- Fill a future that has no outcome yet. -/
def fill (i : Nat) (o : Outcome) (s : Store) : Store :=
  { s with
    futures := s.futures.modify i fun f =>
      if f.outcome.isNone then { f with outcome := some o } else f }

/-- Close an awaitable that will not be awaited: a coroutine ends, a custom awaitable counts it. -/
def closeAwaitable (v : Value) (s : Store) : Store :=
  match v with
  | .awaitable .coroutine c => setCoroutine c .closed s
  | .awaitable .custom c =>
    { s with customs := s.customs.modify c fun x => { x with closed := x.closed + 1 } }
  | _ => s

/-- A coroutine that ends when its body does. -/
def closing (c : Nat) (k : Outcome → Prog) (o : Outcome) : Prog :=
  .act (Action.bind (Action.change (setCoroutine c .closed)) fun _ => Action.done .null)
    fun _ => k o

/-- A new fault, as an outcome. -/
def newFault (m : Machine) (f : Fault) : Outcome × Machine :=
  let a : Action Value := Action.fail f
  m.act a

/-- Run a program until it ends or has to wait; `enter` runs what is called or awaited inside. -/
def execWith (enter : Prog → Machine → Machine × Proc) : Prog → Machine → Machine × Proc
  | .done o, m => (m, .settled o)
  | .act a k, m =>
    let (o, m) := m.act a
    execWith enter (k o) m
  | .sleep ms k, m => (m, .sleeping (m.store.now + ms) k)
  | .await v k, m =>
    match v with
    | .awaitable .coroutine c =>
      match m.coroutine c with
      | .created =>
        let started := { m with store := setCoroutine c (.running none) m.store }
        match enter (m.bodies[c]?.getD (.done (.ok .null))) started with
        | (m, .settled o) => execWith enter (k o) { m with store := setCoroutine c .closed m.store }
        | (m, p) => (m, p.bind (closing c k))
      | .running _ =>
        let (o, m) := m.newFault (.await .beingAwaited)
        execWith enter (k o) m
      | .closed =>
        let (o, m) := m.newFault (.await .alreadyAwaited)
        execWith enter (k o) m
    | .awaitable .custom c =>
      let counted := { m with
        store := { m.store with
          customs := m.store.customs.modify c fun x => { x with awaited := x.awaited + 1 } } }
      match enter (m.customs[c]?.getD (.done (.ok .null))) counted with
      | (m, .settled o) => execWith enter (k o) m
      | (m, p) => (m, p.bind k)
    | .awaitable _ i =>
      match m.future? i with
      | some o => execWith enter (k o) m
      | none => (m, .awaiting i k)
    | v =>
      let (o, m) := m.newFault
        (Fault.typeError ("object " ++ v.typeName ++ " can't be used in 'await' expression"))
      execWith enter (k o) m
  | .drive c task k, m =>
    match m.coroutine c with
    | .created =>
      let started := { m with store := setCoroutine c (.running (some task)) m.store }
      match enter (m.bodies[c]?.getD (.done (.ok .null))) started with
      | (m, .settled o) => execWith enter (k o) { m with store := setCoroutine c .closed m.store }
      | (m, p) => (m, p.bind (closing c k))
    | .running (some owner) =>
      (m, .awaiting owner fun _ =>
        .act (Action.fail (.await .alreadyAwaited)) k)
    | _ =>
      let (o, m) := m.newFault (.await .alreadyAwaited)
      execWith enter (k o) m
  | .gather parts k, m =>
    if parts.isEmpty then execWith enter (k (some [])) m
    else (m, .joining false (parts.map .fresh) k)
  | .race parts k, m =>
    if parts.isEmpty then execWith enter (k (.ok [])) m
    else (m, .racing (parts.map .fresh) k)
  | .call f args k, m =>
    match m.functions[f]? with
    | none =>
      let (o, m) := m.newFault (.operand (.notCallable "NoneType"))
      execWith enter (k o) m
    | some g =>
      if g.asynchronous then
        let (v, m) := m.addCoroutine (g.run args)
        execWith enter (k (.ok v)) m
      else
        match enter (g.run args) m with
        | (m, .settled o) => execWith enter (k o) m
        | (m, p) => (m, p.bind k)
  | .make kind delay body k, m =>
    match kind with
    | .coroutine =>
      let (v, m) := m.addCoroutine body
      execWith enter (k v) m
    | .task =>
      let (i, m) := m.addFuture true (.fresh body)
      execWith enter (k (.awaitable .task i)) m
    | .future =>
      match delay with
      | some ms =>
        let (i, m) := m.addFuture false (.sleeping (m.store.now + ms) fun _ => body)
        execWith enter (k (.awaitable .future i)) m
      | none =>
        let (m, p) := enter body m
        let (i, m) := m.addFuture false p
        execWith enter (k (.awaitable .future i)) m
    | .custom =>
      let (v, m) := m.addCustom body
      execWith enter (k v) m
  | .share v k, m =>
    match v with
    | .awaitable .coroutine c =>
      let (i, m) := m.addFuture true (.fresh (.drive c m.tasks.size .done))
      execWith enter (k (.awaitable .task i)) m
    | .awaitable .custom _ =>
      let (i, m) := m.addFuture true (.fresh (.await v .done))
      execWith enter (k (.awaitable .task i)) m
    | _ => execWith enter (k v) m
  | .close v k, m => execWith enter k { m with store := closeAwaitable v m.store }

/-- Run a program with a bound on how deep calls are nested. -/
def exec : Nat → Prog → Machine → Machine × Proc
  | 0 => execWith fun _ m =>
    let (o, m) := m.newFault (.await .tooDeep)
    (m, .settled o)
  | depth + 1 => execWith (exec depth)

/-- How deep calls may be nested. -/
def depthLimit : Nat := 400

/-- Run a program until it ends or has to wait. -/
def run (p : Prog) (m : Machine) : Machine × Proc := exec depthLimit p m

end Machine

end Recast
