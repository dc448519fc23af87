import Recast.Api
import Recast.Log.Line

/-!
The number of a request in the log. While a request is served, a variable holds its number, and the
records that are written meanwhile are stamped with it. Every process has the variable for itself.
It begins with what the variable holds where the process is made, so what goes on by itself after a
request was answered goes on to write the number of that request.
-/

set_option autoImplicit false

namespace Recast.Api

/-- What a process goes by: the request that it works for, counted from zero, and what the variable
holds for it. -/
structure Context where
  request : Option Nat
  number : Option String
  deriving DecidableEq

/-- A record that was written, with the context of the process that wrote it. -/
structure Emission where
  entry : Log.Entry
  context : Context

namespace Emission

/-- The record as an object in the log, stamped with what the variable held. -/
def object (e : Emission) (s : Store) (time : String) : Json :=
  e.entry.object s time e.context.number

end Emission

/-- A machine that serves requests: the context of what serves, the contexts of the processes of
futures and of the strays by position, all records written so far, and how many requests were
served. -/
structure Server where
  machine : Machine
  current : Context
  tasks : Nat → Context
  strays : Nat → Context
  emissions : List Emission
  served : Nat

namespace Server

/-- A server that has served nothing yet; `before` is what the variable holds. -/
def start (m : Machine) (before : Option String) : Server :=
  ⟨m, ⟨none, before⟩, fun _ => ⟨none, before⟩, fun _ => ⟨none, before⟩, [], 0⟩

/-- The server after a process has changed the machine: the records and the processes that came with
it have the context of that process. -/
def carry (s : Server) (c : Context) (m : Machine) : Server :=
  { s with
    machine := m
    tasks := fun i => if i < s.machine.tasks.size then s.tasks i else c
    strays := fun i => if i < s.machine.strays.length then s.strays i else c
    emissions := s.emissions ++
      (m.store.log.drop s.machine.store.log.length).map fun e => ⟨e, c⟩ }

/-- One move of the process of a future. -/
def advanceTask (s : Server) (i : Nat) : Server :=
  s.carry (s.tasks i) (Machine.advanceTask i s.machine)

/-- One move of the processes of all futures that there are at the start. -/
def advanceTasks (s : Server) : Server := (List.range s.machine.tasks.size).foldl advanceTask s

/-- One move of each process, in order, in contexts of their own. -/
def advanceAll : List (Proc × Context) → Server → Server × List (Proc × Context)
  | [], s => (s, [])
  | (p, c) :: rest, s =>
    let (m, p) := Machine.advance p s.machine
    let (s, rest) := advanceAll rest (s.carry c m)
    (s, (p, c) :: rest)

/-- One move of the strays; a stray that has ended is dropped. -/
def advanceStrays (s : Server) : Server :=
  let strays := s.machine.strays.zipIdx.map fun p => (p.1, s.strays p.2)
  let (after, strays) := advanceAll strays { s with machine := { s.machine with strays := [] } }
  let kept := strays.filter fun p => p.1.isOpen
  { after with
    machine := { after.machine with strays := kept.map Prod.fst ++ after.machine.strays }
    strays := fun i => (kept.map Prod.snd)[i]?.getD (after.strays (i - kept.length)) }

/-- One round: what fills futures, then the strays, then the runs that are waited for. -/
def round (s : Server) (legs : List Leg) : Server × List Leg :=
  let s := s.advanceTasks.advanceStrays
  let (m, legs) := Machine.advanceLegs legs s.machine
  (s.carry s.current m, legs)

/-- Go on until all runs have ended, or nothing can ever move. -/
def settle : Nat → Server → List Leg → Server × List Leg
  | 0, s, legs => (s, legs)
  | fuel + 1, s, legs =>
    if !legs.any Leg.isOpen then (s, legs)
    else if Machine.isBusy s.machine legs then
      let (s, legs) := s.round legs
      settle fuel s legs
    else
      match Machine.nextTime? s.machine legs with
      | none => (s, legs)
      | some t =>
        let m := { s.machine with
          store := { s.machine.store with now := max t s.machine.store.now } }
        let (m, legs) := Machine.enforce legs m
        settle fuel (s.carry s.current m) legs

/-- Run a program to its end. -/
def complete (s : Server) (p : Prog) : Outcome × Server :=
  match settle Machine.roundLimit s [Leg.start p s.machine.store.now none] with
  | (s, [l]) => (l.outcome, s)
  | (s, _) => (.ok .null, s)

/-- Act on the store. -/
def act {α : Type} (s : Server) (a : Action α) : Except Raised α × Server :=
  let (r, m) := s.machine.act a
  (r, s.carry s.current m)

/-- Set the variable. -/
def holding (s : Server) (number : Option String) : Server :=
  { s with current := { s.current with number := number } }

/-- Requests are served on it, in the context of what serves. -/
def engine : Engine Server where
  store s := s.machine.store
  act := act
  complete := complete
  number s := s.current.number
  holding := holding

/-- Work for a request, or for none. -/
def workingFor (s : Server) (request : Option Nat) : Server :=
  { s with current := { s.current with request := request } }

/-- Serve a request; `new` is a number for it that no other request has. -/
def serve (a : Application) (r : Request) (new : String) (s : Server) : Response × Server :=
  let (response, t) := respond engine a r new (s.workingFor (some s.served))
  (trimmed r response, { t.workingFor s.current.request with served := s.served + 1 })

/-- Serve requests one after the other, each with a number that no other request has. -/
def serveAll (a : Application) : List (Request × String) → Server → List Response × Server
  | [], s => ([], s)
  | (r, new) :: rest, s =>
    let (response, s) := serve a r new s
    let (responses, s) := serveAll a rest s
    (response :: responses, s)

end Server

end Recast.Api
