import Recast.Value

/-!
Log levels and log records.
-/

set_option autoImplicit false

namespace Recast.Log

/-- A level of logging, known by its rank: the more severe, the higher. Some ranks have names. -/
structure Level where
  rank : Int
  deriving DecidableEq, Inhabited

namespace Level

def debug : Level := ⟨10⟩
def info : Level := ⟨20⟩
def warning : Level := ⟨30⟩
def error : Level := ⟨40⟩
def critical : Level := ⟨50⟩

@[simp] theorem debug_ne_critical : debug ≠ critical := by decide
@[simp] theorem info_ne_critical : info ≠ critical := by decide
@[simp] theorem warning_ne_critical : warning ≠ critical := by decide
@[simp] theorem error_ne_critical : error ≠ critical := by decide

/-- The name of a level; one that has none of its own is named by its rank. -/
def name (l : Level) : String :=
  match l.rank with
  | 50 => "CRITICAL"
  | 40 => "ERROR"
  | 30 => "WARNING"
  | 20 => "INFO"
  | 10 => "DEBUG"
  | 0 => "NOTSET"
  | rank => "Level " ++ toString rank

/-- The levels that records have by default. -/
def all : List Level := [debug, info, warning, error, critical]

end Level

/-- A log record: which logger, how severe, what happened, and further fields. -/
structure Entry where
  logger : String
  level : Level
  message : String
  extra : List (String × Value)

end Recast.Log
