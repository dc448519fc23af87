import Recast.Customer
import Recast.Process.Round
import Recast.Session.Recipe

/-!
Sessions: builders, mappers, rules and awaitables are made and used by commands, one after the
other, on one clock. A command that fails is answered by its fault and the next one is taken. Every
answer comes with the events and log records of its command.
-/

set_option autoImplicit false

namespace Recast

/-- A call of a mapper: the variable that holds it, the source, when to cancel it, and the variable
that gets the result. -/
structure Invocation where
  mapper : String
  source : Template
  limit : Option Nat
  name : Option String

/-- A variable and the attributes and positions to follow from it. -/
structure Reference where
  name : String
  path : List String

/-- Commands of a session. -/
inductive Command where
  | start (builder source target : String)
  | register (builder : String) (kind : Slot.Kind) (slot : Template) (recipe : Recipe)
  | state (builder : String)
  | build (builder : String) (asynchronous : Bool) (name : String)
  | call (c : Invocation)
  | gather (calls : List Invocation)
  | sleep (ms : Nat)
  | await (recipe : Recipe) (name : String)
  | awaitState (name : String)
  | rule (kind : Slot.Kind) (slot : Template) (recipe : Recipe) (name : String)
  | assignRule (rule attr : String)
  | apply (rule : String) (source target : Template) (limit : Option Nat)
  | applySync (rule : String) (source target : Template)
  | binder (kind : Slot.Kind) (slot : Template) (name : String)
  | write (binder : String) (target value : Template)
  | keep (name : String) (value : Template)
  | assign (object : Reference) (attr : String) (value : Template)
  | look (r : Reference)
  | same (x y : Reference)
  | equal (x y : Reference)

/-- Answers of a session. -/
inductive Answer where
  /-- Nothing to tell. -/
  | done
  /-- A name that no earlier command could give a value. -/
  | undefined (name : String)
  /-- The command failed. -/
  | failed (e : Raised)
  | builder (b : Builder)
  | registered (b : Builder)
  | refused (e : Raised) (b : Builder)
  | built (asynchronous : Bool)
  /-- The end of a call, and how long it took if it was asynchronous. -/
  | ended (o : Outcome) (ms : Option Nat)
  | several (answers : List Answer)
  | now (ms : Nat)
  | progress (state : String)
  | counts (awaited closed : Nat)
  | rule (r : Rule)
  /-- The end of a single rule with the target that it was given. -/
  | applied (o : Outcome) (target : Value) (ms : Option Nat)
  | binder (b : Binder)
  | written (o : Outcome) (b : Binder) (target value : Value)
  | value (v : Value)
  | same (yes : Bool)
  | equal (yes : Bool)

instance : Inhabited Answer := ⟨.done⟩

/-- The state of a session; `calls` are the attributes `__call__` that functions were given. -/
structure Session where
  machine : Machine
  builders : List (String × Builder)
  rules : List (String × Rule)
  binders : List (String × Binder)
  calls : List (Nat × Value)

namespace Session

/-- The name of the service that is there from the start. -/
def addressName : String := "$address_transform"

/-- The name of the same for several addresses. -/
def addressesName : String := "$address_transform_many"

/-- A session with declared types, and an address service on the standard directory. -/
def start (types : List TypeDecl) : Session :=
  let m := Machine.empty
  let m := { m with store := { m.store with types := types } }
  let m := match m.act (AddressService.make Directory.standard.lookup 0) with
    | (.ok service, m) =>
      let one : Function := ⟨true, fun args => (service.transform (args.headD .null)).asCoroutine⟩
      let many : Function := ⟨true, fun args => (service.transformMany args).asCoroutine⟩
      let (f, m) := m.addFunction one
      let (g, m) := m.addFunction many
      { m with store := { m.store with bindings := [(addressName, f), (addressesName, g)] } }
    | (.error _, m) => m
  ⟨m, [], [], [], []⟩

/-- The session with its machine replaced. -/
def withMachine (s : Session) (m : Machine) : Session := { s with machine := m }

/-- Act on the store. -/
def act {α : Type} (s : Session) (a : Action α) : Except Raised α × Session :=
  let (r, m) := s.machine.act a
  (r, s.withMachine m)

/-- Run a program that has no reason to wait. -/
def runNow (s : Session) (p : Prog) : Outcome × Session :=
  match s.machine.run p with
  | (m, .settled o) => (o, s.withMachine m)
  | (m, _) => (.ok .null, s.withMachine m)

/-- Give a variable a value, if a name is given. -/
def store (s : Session) (name : Option String) (v : Value) : Session :=
  match name with
  | some name => (s.act (Action.setVariable name v)).2
  | none => s

/-- The value that stands for an end: the result, or the fault object. -/
def outcomeValue : Outcome → Value
  | .ok v => v
  | .error e => e.toValue

/-- The answer to a failure; the use of a name without a value has its own. -/
def failure (e : Raised) : Answer :=
  match e.fault with
  | .general "Undefined" [.text name] => .undefined name
  | _ => .failed e

/-- Act on the store and answer with the result. -/
def answering (s : Session) (a : Action Value) (f : Value → Session → Answer × Session) :
    Answer × Session :=
  match s.act a with
  | (.ok v, s) => f v s
  | (.error e, s) => (failure e, s)

/-- The descriptor that a value is. -/
def descriptor (s : Store) : Value → Slot.Descriptor
  | .text t => .text t
  | .slot _ path => .slot ⟨path⟩
  | v => .other (s.shown v)

/-- The value of a reference. -/
def resolve (r : Reference) : Action Value :=
  Action.bind (Action.readVariable r.name) fun v => Action.followAll v r.path

/-- Give up an awaitable that a refused rule would have used. -/
def discard (s : Session) (v : Value) : Session :=
  (s.runNow (.close v (Prog.give .null))).2

/-- The types of general values by which a builder can be made. -/
def plainTypes : List String := ["dict", "list", "str", "int"]

/-- A type by which a builder can be made. -/
def knowsType (s : Session) (name : String) : Bool :=
  (s.machine.store.type? name).isSome || (Model.find? name).isSome || plainTypes.contains name

/-- Look a type up by its name. -/
def findType (s : Session) (name : String) : Action String :=
  if s.knowsType name then Action.done name
  else Action.fail (.general "KeyError" [.text name])

/-- A compute as it shows itself: a plain function that was given an attribute `__call__` shows that
one, whatever a call of it does. -/
def shownCompute (s : Session) : Compute → Compute
  | .literal (.function f false) =>
    match s.calls.lookup f with
    | some v => .object (Compute.literal v).isCoroutineFunction false
        fun source => .call f [source] .done
    | none => .literal (.function f false)
  | .wrapped inner => .wrapped (s.shownCompute inner)
  | c => c

/-- Objects of the type have a property in place of their class, one that holds nothing. -/
def hidesClass (s : Session) (type : String) : Bool :=
  match s.machine.store.type? type with
  | some t => t.readOnly.contains "__class__"
  | none => false

/-- A compute as an offer. -/
def offered (s : Session) (c : Compute) : Offer :=
  match c with
  | .literal (.record _ type) =>
    if s.hidesClass type then .masked (Fault.typeError "issubclass() arg 1 must be a class")
    else .clear c
  | c => .clear (s.shownCompute c)

/-- Register a rule with a builder. The compute is made first; an awaitable is given up when the
registration is refused. -/
def register (s : Session) (name : String) (kind : Slot.Kind) (slot : Template) (recipe : Recipe) :
    Answer × Session :=
  match s.builders.lookup name with
  | none => (.undefined name, s)
  | some b =>
    match s.runNow recipe.prepare with
    | (.error e, s) => (failure e, s)
    | (.ok v, s) =>
      s.answering (Action.build slot) fun d s =>
        let compute := recipe.compute v
        let d := descriptor s.machine.store d
        let offer := s.offered compute
        match s.act (b.offerLogged kind d offer) with
        | (.ok b, s) => (.registered b, { s with builders := assign s.builders name b })
        | (.error e, s) =>
          let b := b.left kind d offer
          let s := { s with builders := assign s.builders name b }
          (.refused e b, if compute.isAwaitable then s.discard v else s)

/-- The function of a mapper for asynchronous use. -/
def asyncFunction (m : Mapper) : Function :=
  ⟨true, fun args => (m.transform (args.headD .null)).asCoroutine⟩

/-- The function of a mapper for synchronous use. -/
def syncFunction (m : Mapper) : Function := ⟨false, fun args => m.transformSync (args.headD .null)⟩

/-- Make a mapper from a builder and keep it. -/
def build (s : Session) (name : String) (asynchronous : Bool) (into : String) :
    Answer × Session :=
  match s.builders.lookup name with
  | none => (.undefined name, s)
  | some b =>
    match s.act (if asynchronous then b.buildLogged else b.buildSyncLogged) with
    | (.error e, s) => (failure e, s)
    | (.ok m, s) =>
      let function := if asynchronous then asyncFunction m else syncFunction m
      let (f, machine) := s.machine.addFunction function
      (.built asynchronous, (s.withMachine machine).store (some into) f)

/-- Go on until runs have ended. -/
def settle (s : Session) (legs : List Leg) : List Leg × Session :=
  let (m, legs) := Machine.settle Machine.roundLimit s.machine legs
  (legs, s.withMachine m)

/-- What a call is before it runs: answered already, or a run to wait for. -/
inductive Started where
  | answered (a : Answer)
  | running (l : Leg) (name : Option String)

/-- Begin a call. A synchronous mapper is run on the spot. -/
def begin (s : Session) (c : Invocation) : Started × Session :=
  match s.machine.store.binding? c.mapper with
  | none => (.answered (.undefined c.mapper), s)
  | some f =>
    match s.act (Action.build c.source) with
    | (.error e, s) => (.answered (failure e), s)
    | (.ok source, s) =>
      match f with
      | .function i true =>
        let p := match s.machine.functions[i]? with
          | some g => g.run [source]
          | none => Prog.give .null
        (.running (Leg.start p s.machine.store.now c.limit) c.name, s)
      | .function i false =>
        let (o, s) := s.runNow (.call i [source] .done)
        (.answered (.ended o none), s.store c.name (outcomeValue o))
      | v =>
        let (o, s) := s.runNow (Prog.fail (.operand (.notCallable v.typeName)))
        (.answered (.ended o none), s)

/-- Begin calls, in order. -/
def beginAll (s : Session) : List Invocation → List Started × Session
  | [] => ([], s)
  | c :: rest =>
    let (started, s) := s.begin c
    let (more, s) := beginAll s rest
    (started :: more, s)

/-- The runs to wait for. -/
def legsOf : List Started → List Leg
  | [] => []
  | .running l _ :: rest => l :: legsOf rest
  | .answered _ :: rest => legsOf rest

/-- The answers of calls whose runs have ended. -/
def finish (s : Session) : List Started → List Leg → List Answer × Session
  | .answered a :: rest, legs =>
    let (answers, s) := finish s rest legs
    (a :: answers, s)
  | .running _ name :: rest, l :: legs =>
    let o := l.outcome
    let s := s.store name (outcomeValue o)
    let (answers, s) := finish s rest legs
    (.ended o (some (l.elapsed s.machine.store.now)) :: answers, s)
  | _, _ => ([], s)

/-- Run calls side by side. -/
def callAll (s : Session) (calls : List Invocation) : List Answer × Session :=
  let (started, s) := s.beginAll calls
  let (legs, s) := s.settle (legsOf started)
  s.finish started legs

/-- Run a rule by itself on a target. -/
def applyRule (s : Session) (name : String) (source target : Template) (asynchronous : Bool)
    (limit : Option Nat) : Answer × Session :=
  s.answering (Action.build source) fun source s =>
  s.answering (Action.build target) fun target s =>
    match s.rules.lookup name with
    | none =>
      let (o, s) := s.runNow (Prog.ofAction (Action.undefinedVariable name))
      (.applied o target (if asynchronous then some 0 else none), s)
    | some r =>
      if asynchronous then
        let leg := Leg.start (r.apply source target) s.machine.store.now limit
        match s.settle [leg] with
        | ([l], s) => (.applied (l.outcome) target (some (l.elapsed s.machine.store.now)), s)
        | (_, s) => (.done, s)
      else
        let (o, s) := s.runNow (r.applySync source target)
        (.applied o target none, s)

/-- How far a named awaitable has come. -/
def awaitState (s : Session) (name : String) : Answer :=
  let store := s.machine.store
  match store.binding? name with
  | some (.awaitable .coroutine c) =>
    .progress (match s.machine.coroutine c with
      | .created => "CORO_CREATED"
      | .running _ => "CORO_SUSPENDED"
      | .closed => "CORO_CLOSED")
  | some (.awaitable .custom c) =>
    match store.customs[c]? with
    | some x => .counts x.awaited x.closed
    | none => .progress "none"
  | some (.awaitable _ i) =>
    match store.futures[i]? with
    | some f =>
      .progress (match f.outcome with
        | none => "pending"
        | some (.error ⟨id, .cancelled⟩) => if f.isTask || id == 0 then "cancelled" else "done"
        | some _ => "done")
    | none => .progress "none"
  | _ => .progress "none"

/-- Take one command. -/
def step (s : Session) : Command → Answer × Session
  | .start name source target =>
    s.answering (Action.bind (s.findType source) fun _ =>
      Action.bind (s.findType target) fun _ => Action.done .null) fun _ s =>
    match s.act Action.fresh with
    | (.ok id, s) =>
      let b := Builder.empty id source target
      (.builder b, { s with builders := assign s.builders name b })
    | (.error e, s) => (failure e, s)
  | .register name kind slot recipe => s.register name kind slot recipe
  | .state name =>
    match s.builders.lookup name with
    | some b => (.builder b, s)
    | none => (.undefined name, s)
  | .build name asynchronous into => s.build name asynchronous into
  | .call c =>
    match s.callAll [c] with
    | ([a], s) => (a, s)
    | (_, s) => (.done, s)
  | .gather calls =>
    let (answers, s) := s.callAll calls
    (.several answers, s)
  | .sleep ms =>
    let leg := Leg.start (.sleep ms .done) s.machine.store.now none
    let (_, s) := s.settle [leg]
    (.now s.machine.store.now, s)
  | .await recipe name =>
    match s.runNow recipe.prepare with
    | (.ok v, s) => (.done, s.store (some name) v)
    | (.error e, s) => (failure e, s)
  | .awaitState name => (s.awaitState name, s)
  | .rule kind slot recipe name =>
    match s.runNow recipe.prepare with
    | (.error e, s) => (failure e, s)
    | (.ok v, s) =>
      s.answering (Action.build slot) fun d s =>
        match Slot.parseAs kind (descriptor s.machine.store d) with
        | .error e => s.answering (Action.fail (Fault.ofShapeError e)) fun _ s => (.done, s)
        | .ok slot =>
          match s.act Action.fresh with
          | (.ok owner, s) =>
            match Rule.create kind ⟨slot, ⟨owner, 0⟩⟩ (s.offered (recipe.compute v)) with
            | .ok r => (.rule r, { s with rules := assign s.rules name r })
            | .error f => s.answering (Action.fail f) fun _ s => (.done, s)
          | (.error e, s) => (failure e, s)
  | .assignRule name attr =>
    match s.rules.lookup name with
    | none => (.undefined name, s)
    | some _ => s.answering (Action.refuse (.frozenField attr)) fun _ s => (.done, s)
  | .apply name source target limit => s.applyRule name source target true limit
  | .applySync name source target => s.applyRule name source target false none
  | .binder kind slot name =>
    s.answering (Action.build slot) fun d s =>
      match Slot.parseAs kind (descriptor s.machine.store d) with
      | .error e => s.answering (Action.fail (Fault.ofShapeError e)) fun _ s => (.done, s)
      | .ok slot =>
        match s.act Action.fresh with
        | (.ok owner, s) =>
          let b : Binder := ⟨slot, ⟨owner, 0⟩⟩
          (.binder b, { s with binders := assign s.binders name b })
        | (.error e, s) => (failure e, s)
  | .write name target value =>
    match s.binders.lookup name with
    | none => (.undefined name, s)
    | some b =>
      s.answering (Action.build target) fun target s =>
      s.answering (Action.build value) fun value s =>
        let (o, s) := s.act (b.write target value)
        (.written o b target value, s)
  | .keep name value =>
    s.answering (Action.build value) fun v s => (.value v, s.store (some name) v)
  | .assign object attr value =>
    s.answering (resolve object) fun x s =>
    s.answering (Action.build value) fun v s =>
      match x, attr with
      | .function f _, "__call__" => (.done, { s with calls := (f, v) :: s.calls })
      | _, _ =>
        match s.act (Action.writeAttribute x attr v) with
        | (.ok _, s) => (.done, s)
        | (.error e, s) => (failure e, s)
  | .look r => s.answering (resolve r) fun v s => (.value v, s)
  | .same x y =>
    s.answering (resolve x) fun v s =>
    s.answering (resolve y) fun w s => (.same (v.same w), s)
  | .equal x y =>
    s.answering (resolve x) fun v s =>
    s.answering (resolve y) fun w s => (.equal (s.machine.store.equal v w), s)

/-- The session with the events and log records of earlier commands put aside. -/
def cleared (s : Session) : Session :=
  let store := { s.machine.store with trace := [], log := [] }
  s.withMachine { s.machine with store := store }

end Session

end Recast
