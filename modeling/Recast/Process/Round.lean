import Recast.Process.Machine

/-!
Rounds: all processes that can move do so once, in a fixed order, each until it ends or has to wait
again. Time stands still during a round. When nothing can move, time jumps to the next moment at
which something wakes or is cancelled.
-/

set_option autoImplicit false

namespace Recast

namespace Machine

mutual

/-- One move of a process, if it can move. Parts move before what waits for them. -/
def advance : Proc → Machine → Machine × Proc
  | .settled o, m => (m, .settled o)
  | .fresh p, m => run p m
  | .ready o k, m => run (k o) m
  | .sleeping wake k, m =>
    if wake ≤ m.store.now then run (k (.ok .null)) m else (m, .sleeping wake k)
  | .awaiting i k, m =>
    match m.future? i with
    | some o => run (k o) m
    | none => (m, .awaiting i k)
  | .joining cancelled parts k, m =>
    let (m, parts) := advanceAll parts m
    match Proc.outcomes? parts with
    | some os => run (k (if cancelled then none else some os)) m
    | none => (m, .joining cancelled parts k)
  | .racing parts k, m =>
    let (m, parts) := advanceAll parts m
    match Proc.firstFault? parts with
    | some e => run (k (.error e)) { m with strays := m.strays ++ parts.filter Proc.isOpen }
    | none =>
      match Proc.values? parts with
      | some vs => run (k (.ok vs)) m
      | none => (m, .racing parts k)

/-- One move of each process, in order. -/
def advanceAll : List Proc → Machine → Machine × List Proc
  | [], m => (m, [])
  | p :: rest, m =>
    let (m, p) := advance p m
    let (m, rest) := advanceAll rest m
    (m, p :: rest)

end

/-- One move of the process of a future; when it ends, the future is filled. -/
def advanceTask (i : Nat) (m : Machine) : Machine :=
  match m.tasks[i]? with
  | none => m
  | some p =>
    let (m, p) := advance p m
    let m := { m with tasks := m.tasks.modify i fun _ => p }
    match p.outcome? with
    | some o => { m with store := fill i o m.store }
    | none => m

/-- One move of the processes of all futures that there are at the start. -/
def advanceTasks (m : Machine) : Machine :=
  (List.range m.tasks.size).foldl (fun m i => advanceTask i m) m

/-- One move of the strays; a stray that has ended is dropped. -/
def advanceStrays (m : Machine) : Machine :=
  let (after, strays) := advanceAll m.strays { m with strays := [] }
  { after with strays := strays.filter Proc.isOpen ++ after.strays }

mutual

/-- A process can move at the present time. -/
def canMove (m : Machine) : Proc → Bool
  | .settled _ => false
  | .fresh _ | .ready .. => true
  | .sleeping wake _ => wake ≤ m.store.now
  | .awaiting i _ => (m.future? i).isSome
  | .joining _ parts _ => anyCanMove m parts
  | .racing parts _ => anyCanMove m parts

/-- One of the processes can move. -/
def anyCanMove (m : Machine) : List Proc → Bool
  | [] => false
  | p :: rest => canMove m p || anyCanMove m rest

end

/-- The earlier of two times, where there may be none. -/
def earlier : Option Nat → Option Nat → Option Nat
  | some a, some b => some (min a b)
  | some a, none => some a
  | none, b => b

mutual

/-- When a process next wakes by itself. -/
def wake? : Proc → Option Nat
  | .sleeping wake _ => some wake
  | .joining _ parts _ => firstWake? parts
  | .racing parts _ => firstWake? parts
  | _ => none

/-- When the first of the processes wakes. -/
def firstWake? : List Proc → Option Nat
  | [] => none
  | p :: rest => earlier (wake? p) (firstWake? rest)

end

mutual

/-- Cancel a process; `stop` cancels a future that it waits for. One that has not begun ends at
once, one that sleeps goes on with the cancellation, one that waits passes it on. -/
def cancelWith (stop : Nat → Machine → Machine) : Proc → Machine → Machine × Proc
  | .settled o, m => (m, .settled o)
  | .fresh _, m => (m, .settled (.error .cancelled))
  | .ready _ k, m => (m, .ready (.error .cancelled) k)
  | .sleeping _ k, m => (m, .ready (.error .cancelled) k)
  | .awaiting i k, m =>
    if (m.future? i).isSome then (m, .ready (.error .cancelled) k)
    else (stop i m, .awaiting i k)
  | .joining _ parts k, m =>
    let (m, parts) := cancelAllWith stop parts m
    (m, .joining true parts k)
  | .racing parts k, m =>
    let (m, parts) := cancelAllWith stop parts m
    (m, .racing parts k)

/-- Cancel processes, in order. -/
def cancelAllWith (stop : Nat → Machine → Machine) : List Proc → Machine → Machine × List Proc
  | [], m => (m, [])
  | p :: rest, m =>
    let (m, p) := cancelWith stop p m
    let (m, rest) := cancelAllWith stop rest m
    (m, p :: rest)

end

/-- Cancel a future. One that nothing runs for is cancelled at once; the process of a task is
cancelled and fills the future when it ends. The bound is on chains of tasks that wait for tasks. -/
def stopAt : Nat → Nat → Machine → Machine
  | 0, _, m => m
  | depth + 1, i, m =>
    match m.store.futures[i]?, m.tasks[i]? with
    | some f, some p =>
      if f.outcome.isSome then m
      else if f.isTask then
        let (m, p) := cancelWith (stopAt depth) p m
        let m := { m with tasks := m.tasks.modify i fun _ => p }
        match p.outcome? with
        | some o => { m with store := fill i o m.store }
        | none => m
      else
        let ended : Outcome := .error .cancelled
        { m with
          tasks := m.tasks.modify i fun _ => .settled ended
          store := fill i ended m.store }
    | _, _ => m

/-- Cancel a process. -/
def cancel (p : Proc) (m : Machine) : Machine × Proc :=
  cancelWith (stopAt (m.tasks.size + 1)) p m

end Machine

/-- A run that is waited for from outside: its process, when it began, when it is to be cancelled,
and when it ended. -/
structure Leg where
  proc : Proc
  began : Nat
  deadline : Option Nat
  ended : Option Nat

namespace Leg

/-- A run that has not begun. -/
def start (p : Prog) (now : Nat) (limit : Option Nat) : Leg :=
  ⟨.fresh p, now, limit.map (now + ·), none⟩

/-- A run that has not ended. -/
def isOpen (l : Leg) : Bool := l.proc.isOpen

/-- The end of a run; nothing, where it never ends. -/
def outcome (l : Leg) : Outcome := l.proc.outcome?.getD (.ok .null)

/-- How long the run took. -/
def elapsed (l : Leg) (now : Nat) : Nat := l.ended.getD now - l.began

end Leg

namespace Machine

/-- Cancel the runs whose time is up. -/
def enforce : List Leg → Machine → Machine × List Leg
  | [], m => (m, [])
  | l :: rest, m =>
    let due := match l.deadline with
      | some t => l.isOpen && t ≤ m.store.now
      | none => false
    if due then
      let (m, p) := cancel l.proc m
      let ended := if p.isOpen then none else some m.store.now
      let (m, rest) := enforce rest m
      (m, { l with proc := p, deadline := none, ended := ended } :: rest)
    else
      let (m, rest) := enforce rest m
      (m, l :: rest)

/-- One move of each run; the time at which a run ends is noted. -/
def advanceLegs : List Leg → Machine → Machine × List Leg
  | [], m => (m, [])
  | l :: rest, m =>
    if l.isOpen then
      let (m, p) := advance l.proc m
      let ended := if p.isOpen then none else some m.store.now
      let (m, rest) := advanceLegs rest m
      (m, { l with proc := p, ended := ended } :: rest)
    else
      let (m, rest) := advanceLegs rest m
      (m, l :: rest)

/-- One round: what fills futures, then the strays, then the runs that are waited for. -/
def round (m : Machine) (legs : List Leg) : Machine × List Leg :=
  advanceLegs legs (advanceStrays (advanceTasks m))

/-- Something can move at the present time. -/
def isBusy (m : Machine) (legs : List Leg) : Bool :=
  anyCanMove m m.tasks.toList || anyCanMove m m.strays || anyCanMove m (legs.map (·.proc))

/-- The next time at which something wakes or is cancelled. -/
def nextTime? (m : Machine) (legs : List Leg) : Option Nat :=
  let deadlines := (legs.filter Leg.isOpen).foldl (fun t l => earlier t l.deadline) none
  earlier deadlines (earlier (firstWake? m.tasks.toList)
    (earlier (firstWake? m.strays) (firstWake? (legs.map (·.proc)))))

/-- Go on until all runs have ended, or nothing can ever move. -/
def settle : Nat → Machine → List Leg → Machine × List Leg
  | 0, m, legs => (m, legs)
  | fuel + 1, m, legs =>
    if !legs.any Leg.isOpen then (m, legs)
    else if isBusy m legs then
      let (m, legs) := round m legs
      settle fuel m legs
    else
      match nextTime? m legs with
      | none => (m, legs)
      | some t =>
        let m := { m with store := { m.store with now := max t m.store.now } }
        let (m, legs) := enforce legs m
        settle fuel m legs

/-- How many rounds and jumps a step of a session may take. -/
def roundLimit : Nat := 1000000

/-- Run a program to its end: its outcome, and the time it took. -/
def complete (m : Machine) (p : Prog) : Outcome × Nat × Machine :=
  match settle roundLimit m [Leg.start p m.store.now none] with
  | (m, [l]) => (l.outcome, l.elapsed m.store.now, m)
  | (m, _) => (.ok .null, 0, m)

end Machine

end Recast
