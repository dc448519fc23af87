import Recast.Mapping.Rule
import Recast.Store.Construct

/-!
Mappers: the rules that a builder held when the mapper was made, with the target type and the name
of the builder at that time. A mapper maps nothing to nothing. From any other source it makes a new
target and fills it: the asynchronous mapper starts all rules together and waits for all of them,
the synchronous one runs them in order and stops at the first failure.
-/

set_option autoImplicit false

namespace Recast

/-- The rules of a mapper, fixed when it was made. -/
structure Mapper where
  name : String
  target : String
  rules : List Rule

namespace Mapper

/-- The logger of the mapping core. -/
def logger : String := "structured_mapper.mappers.builder"

/-- What an outcome fails with: the fault it ended in, or the fault object that it gave as a
value. -/
def failure? : Outcome → Option Raised
  | .error e => some e
  | .ok (.fault id f) => some ⟨id, f⟩
  | .ok _ => none

/-- The failure of the earliest rule that failed. -/
def firstFailure? : List (Rule × Outcome) → Option (Rule × Raised)
  | [] => none
  | (r, o) :: rest =>
    match failure? o with
    | some e => some (r, e)
    | none => firstFailure? rest

/-- The record of a failed rule. -/
def failureEntry (name : String) (r : Rule) (e : Raised) : Log.Entry :=
  { logger := logger
    level := .warning
    message := "Mapping rule failed"
    extra :=
      [("mapper", .text name), ("slot", .text r.key), ("exception_type", .text e.fault.kind)] }

/-- The mapper makes the whole target by one rule. A whole-target rule is always alone. -/
def isWhole (m : Mapper) : Bool :=
  match m.rules with
  | r :: _ => r.kind == .whole
  | [] => false

/-- The result, from the target and the results of the rules. -/
def result (m : Mapper) (target : Value) (results : List Value) : Value :=
  if m.isWhole then results.headD target else target

/-- The value of an outcome that is one. -/
def value? : Outcome → Option Value
  | .ok v => some v
  | .error _ => none

/-- What follows when all rules have ended: the earliest failure, or the result. -/
def conclude (m : Mapper) (target : Value) (outcomes : List Outcome) : Prog :=
  match firstFailure? (m.rules.zip outcomes) with
  | some (r, e) => Prog.also (Action.report (failureEntry m.name r e)) (Prog.raise e)
  | none => Prog.give (m.result target (outcomes.filterMap value?))

/-- Fill a target by all rules side by side. -/
def fill (m : Mapper) (source target : Value) : Prog :=
  .gather (m.rules.map fun r => r.apply source target) fun
    | none => Prog.raise .cancelled
    | some outcomes => m.conclude target outcomes

/-- Map a source, asynchronously. -/
def transform (m : Mapper) : Value → Prog
  | .null => Prog.give .null
  | source => Prog.first (Action.construct m.target) fun target => m.fill source target

/-- Map a source, rule by rule. -/
def transformSync (m : Mapper) : Value → Prog
  | .null => Prog.give .null
  | source => Prog.first (Action.construct m.target) fun target =>
    Prog.sequence (m.rules.map fun r => r.applySync source target) fun results =>
      Prog.give (m.result target results)

end Mapper

end Recast
