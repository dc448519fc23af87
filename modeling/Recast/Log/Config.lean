import Recast.Log.Record
import Recast.Store.Display
import Recast.Text.Upper

/-!
Configuration of logging. Two thresholds decide whether a record is written: that of the nearest
logger above it with a level of its own, and that of each handler. Setting logging up again replaces
the handlers and the general level; the level of the mapping core stays as it was when no new one is
given.
-/

set_option autoImplicit false

namespace Recast.Log

/-- How records are written. -/
inductive Format where
  | json
  | console
  deriving DecidableEq

/-- A handler of the root: how it writes records, and from which rank on. -/
structure Handler where
  format : Format
  rank : Int
  deriving DecidableEq

/-- The state of logging: the rank of the root, its handlers, and the ranks of single loggers. -/
structure Config where
  root : Int
  handlers : List Handler
  levels : List (String × Int)

namespace Config

/-- Logging before it is set up. -/
def initial : Config := ⟨Level.warning.rank, [], []⟩

/-- The rank that a level name stands for. -/
def rankOf? (name : String) : Option Int :=
  match name with
  | "CRITICAL" | "FATAL" => some 50
  | "ERROR" => some 40
  | "WARNING" | "WARN" => some 30
  | "INFO" => some 20
  | "DEBUG" => some 10
  | "NOTSET" => some 0
  | _ => none

/-- The logger of the mapping core. -/
def mapperLogger : String := "structured_mapper.mappers"

/-- The libraries that are kept quiet. -/
def quiet : List String := ["httpcore", "httpx", "uvicorn.access", "asyncio"]

/-- The loggers above a logger, from the nearest on, all names being written backwards. -/
def above : List Char → List (List Char)
  | [] | [_] => []
  -- what stands right in front of a dot belongs to a name, even if it is another dot
  | c :: d :: rest => if c = '.' then (d :: rest) :: above rest else above (d :: rest)

/-- The loggers above a logger, from the nearest on: its name up to one of its dots. -/
def ancestors (name : String) : List String :=
  (above name.toList.reverse).map fun cs => String.ofList cs.reverse

/-- The rank of a logger's own level; the rank zero is that of none. -/
def own? (c : Config) (name : String) : Option Int :=
  (c.levels.lookup name).filter fun rank => rank ≠ 0

/-- The name stands for the root. -/
def isRoot (name : String) : Bool := name == "root" || name.isEmpty

/-- The rank from which on a logger takes records: that of the nearest logger with a level of its
own. -/
def effective (c : Config) (name : String) : Int :=
  if isRoot name then c.root else ((name :: ancestors name).findSome? c.own?).getD c.root

/-- A logger takes the records of a level. A level without a positive rank is taken nowhere. -/
def takes (c : Config) (logger : String) (level : Level) : Bool :=
  0 < level.rank && c.effective logger ≤ level.rank

/-- A request to set logging up. -/
structure Setup where
  level : String
  format : String
  mapperLevel : Option String

/-- The format with a name; all names but one mean the console. -/
def formatOf (name : String) : Format := if name == "json" then .json else .console

/-- The level of the mapping core that is asked for; the empty name asks for none. -/
def Setup.mapperLevel? (s : Setup) : Option String :=
  match s.mapperLevel with
  | some name => if name.isEmpty then none else some name
  | none => none

/-- The record that a setup writes. -/
def Setup.entry (s : Setup) : Entry :=
  { logger := "root"
    level := .info
    message := "Logging initialised"
    extra :=
      [("log_level", .text (Text.upper s.level)), ("log_format", .text s.format),
        ("mapper_level", .text (Text.upper (s.mapperLevel?.getD s.level)))] }

/-- Set logging up. A name that stands for no level is given back. -/
def setup (c : Config) (s : Setup) : Except String Config :=
  let level := Text.upper s.level
  match rankOf? level with
  | none => .error level
  | some rank =>
    let calm (c : Config) : Config :=
      { c with levels := quiet.foldl (fun ls name => assign ls name Level.warning.rank) c.levels }
    let base : Config := ⟨rank, [⟨formatOf s.format, rank⟩], c.levels⟩
    match s.mapperLevel? with
    | none => .ok (calm base)
    | some name =>
      match rankOf? (Text.upper name) with
      | none => .error (Text.upper name)
      | some r => .ok (calm { base with levels := assign base.levels mapperLogger r })

/-- The fault of a name that stands for no level. -/
def unknownLevel (name : String) : Fault :=
  .general "ValueError" [.text ("Unknown level: " ++ Text.quoted name)]

end Config

end Recast.Log
