import Recast.Log.Config
import Recast.Store.Written

/-!
Log lines. A record is written as one line, plainly for a reader or as an object for a machine. The
number of the web request is stamped on a record that has no such field of its own.
-/

set_option autoImplicit false

namespace Recast.Log

/-- A text on the left of a column. -/
def column (width : Nat) (t : String) : String :=
  t ++ String.ofList (List.replicate (width - t.length) ' ')

/-- The extra fields of a record with the request's number, unless they hold one. -/
def stamped (request : Option String) (extra : List (String × Value)) : List (String × Value) :=
  match request with
  | some id =>
    if (extra.map Prod.fst).contains "request_id" then extra
    else extra ++ [("request_id", .text id)]
  | none => extra

/-- A record as an object. Fields whose names begin with an underscore are left out. -/
def Entry.object (e : Entry) (s : Store) (time : String) (request : Option String) : Json :=
  let head : List (String × Json) :=
    [("timestamp", .text time), ("level", .text e.level.name), ("logger", .text e.logger),
      ("message", .text e.message)]
  let extra := (stamped request e.extra).filter fun (n, _) => !n.startsWith "_"
  .object (extra.foldl (fun ms (n, v) => assign ms n (s.writtenPlainly v)) head)

/-- A record as one line. -/
def Entry.line (e : Entry) (format : Format) (s : Store) (time : String) (request : Option String) :
    String :=
  match format with
  | .console => time ++ " | " ++ column 8 e.level.name ++ " | " ++ e.logger ++ " | " ++ e.message
  | .json => (e.object s time request).render true

/-- The lines that a record adds to the output. -/
def Config.emit (c : Config) (s : Store) (time : String) (request : Option String) (e : Entry) :
    List String :=
  if c.takes e.logger e.level then
    c.handlers.flatMap fun h =>
      if h.rank ≤ e.level.rank then Text.split '\n' (e.line h.format s time request) else []
  else []

/-- Names that a record has for itself and that no extra field may have. -/
def reserved : List String :=
  ["name", "msg", "args", "levelname", "levelno", "pathname", "filename", "module", "exc_info",
    "exc_text", "stack_info", "lineno", "funcName", "created", "msecs", "relativeCreated",
    "thread", "threadName", "processName", "process", "message", "asctime"]

/-- Fill the places of a message with arguments; `none` when they do not fit. -/
def fill (s : Store) : List Char → List Value → Option (List Char)
  | [], [] => some []
  | [], _ => none
  | '%' :: '%' :: rest, args => (fill s rest args).map ('%' :: ·)
  | '%' :: 's' :: rest, v :: args => (fill s rest args).map ((s.plain v).toList ++ ·)
  | '%' :: 'r' :: rest, v :: args => (fill s rest args).map ((s.shown v).toList ++ ·)
  | '%' :: 'd' :: rest, v :: args =>
    match v with
    | .int n => (fill s rest args).map ((toString n).toList ++ ·)
    | .bool b => (fill s rest args).map ((if b then '1' else '0') :: ·)
    | .float x => (fill s rest args).map ((toString x.truncate).toList ++ ·)
    | _ => none
  | '%' :: _, _ => none
  | c :: rest, args => (fill s rest args).map (c :: ·)

/-- The message of a record; without arguments nothing is filled. -/
def message? (s : Store) (text : String) (args : List Value) : Option String :=
  if args.isEmpty then some text else (fill s text.toList args).map String.ofList

/-- A call of a logger: the record, the arguments for its message, and the number of the web request
meanwhile. -/
structure Call where
  entry : Entry
  args : List Value
  request : Option String

/-- The lines that a call adds to the output. A record that the logger takes may have no extra field
of a reserved name; one whose message cannot be filled is not written. -/
def Config.take (c : Config) (s : Store) (time : String) (call : Call) :
    Except Fault (List String) :=
  let e := call.entry
  if !c.takes e.logger e.level then .ok []
  else match e.extra.find? fun (n, _) => reserved.contains n with
    | some (n, _) =>
      .error (.general "KeyError"
        [.text ("Attempt to overwrite " ++ Text.quoted n ++ " in LogRecord")])
    | none =>
      match message? s e.message call.args with
      | some message => .ok (c.emit s time call.request { e with message := message })
      | none => .ok []

end Recast.Log
