import Recast.Api.Request
import Recast.Application
import Recast.Process.Round
import Recast.Store.Written

/-!
Serving requests. Every fault leaves the interface in one envelope, which tells its class and the
number of the request. A fault that belongs to no class of this library, or one whose envelope
cannot be written, is not told: it is logged, and the response says only that something went wrong.
Such a response does not pass the layers that add headers and log the end of a request. One such
fault comes before the inside is entered: that of a request whose address cannot be taken apart.
-/

set_option autoImplicit false

namespace Recast.Api

/-- The logger of requests. -/
def requestLogger : String := "structured_mapper.core.middleware"

/-- The logger of faults. -/
def faultLogger : String := "structured_mapper.core.error_handlers"

/-- The record of a request that came in, with the path that is shown. -/
def startedEntry (r : Request) (path : String) : Log.Entry :=
  { logger := requestLogger
    level := .info
    message := "Request started"
    extra := [("method", .text r.verb), ("path", .text path)] }

/-- The record of a request that was answered. -/
def completedEntry (r : Request) (path id : String) (status : Nat) : Log.Entry :=
  { logger := requestLogger
    level := .info
    message := "Request completed"
    extra :=
      [("request_id", .text id), ("method", .text r.verb), ("path", .text path),
        ("status_code", .int status)] }

/-- A record about a fault of a request. -/
def faultEntry (r : Request) (level : Log.Level) (message : String)
    (extra : List (String × Value)) : Log.Entry :=
  { logger := faultLogger
    level := level
    message := message
    extra := extra ++ [("path", .text r.address), ("method", .text r.verb)] }

/-- A dictionary with names as keys. -/
def dictOf (entries : List (String × Value)) : Value :=
  .dict 0 (entries.map fun (n, v) => (.text n, v))

/-- A response with a body. -/
def reply (status : Nat) (body : Json) : Response :=
  ⟨status, [("content-type", "application/json")], some body⟩

/-- An envelope with the number of the request. -/
def sealed (envelope : Value) (id : String) : Value :=
  match envelope with
  | .dict ref entries => .dict ref (entries ++ [(.text "request_id", .text id)])
  | v => v

/-- The envelope of a fault that is told by a code, a message and perhaps details. -/
def envelope (code message : String) (details : List (String × Value)) : Value :=
  dictOf ([("error", .bool true), ("error_code", .text code), ("message", .text message)]
    ++ details)

/-- Write a record and answer with an envelope, if it can be written. -/
def answerSealed (e : Log.Entry) (status : Nat) (envelope : Value) (id : String) :
    Action Response :=
  Action.bind (Action.report e) fun _ =>
    match Store.written? (sealed envelope id) with
    | .ok body => Action.done (reply status body)
    | .error f => Action.fail f

/-- The response to a request that leads nowhere, or uses a method that is not offered. -/
def answerHttp (r : Request) (id : String) (status : Nat) (detail : String) : Action Response :=
  answerSealed
    (faultEntry r .warning "HTTP error" [("status_code", .int status), ("detail", .text detail)])
    status (envelope "HTTP_ERROR" detail []) id

/-- What is wrong with the number in a path, in words. -/
def issueMessage (type : String) : String :=
  match type with
  | "int_parsing" => "Input should be a valid integer, unable to parse string as an integer"
  | "int_parsing_size" => "Unable to parse input string as an integer, exceeded maximum size"
  | "greater_than_equal" => "Input should be greater than or equal to 1"
  | _ => "Input should be a valid integer"

/-- The place of an issue, in words. -/
def issueField (issue : Issue) : String :=
  " → ".intercalate (issue.place.map fun
    | .field name => name
    | .index n => toString n)

/-- An issue as it is told. -/
def issueValue (issue : Issue) : Value :=
  dictOf [("field", .text (issueField issue)), ("message", .text (issueMessage issue.type)),
    ("type", .text issue.type)]

/-- The response to a request whose path was refused. -/
def answerIssues (r : Request) (id : String) (issues : List Issue) : Action Response :=
  let told : Value := .list 0 (issues.map issueValue)
  answerSealed
    (faultEntry r .warning "Request validation failed" [("validation_errors", told)])
    422 (envelope "VALIDATION_ERROR" "Request validation failed."
      [("details", dictOf [("errors", told)])]) id

/-- The number that a status is, if it can be compared with numbers. -/
def statusOf? : Value → Option Nat
  | .int n => some n.toNat
  | .bool b => some b.toNat
  | _ => none

/-- The fault of a status that cannot be compared with numbers. -/
def incomparable (status : Value) : Fault :=
  Fault.typeError
    ("'>=' not supported between instances of '" ++ status.typeName ++ "' and 'int'")

/-- The response to a fault of this library's own classes, as far as the fault is one. -/
def answerFault (r : Request) (id : String) (f : Fault) : Option (Action Response) :=
  match f with
  | .application _ message status code details =>
    match statusOf? status with
    | some n =>
      some (answerSealed
        (faultEntry r (if 500 ≤ n then .error else .warning) "Application error"
          [("error_code", code), ("status_code", status), ("error_message", message),
            ("details", details)])
        n f.envelope id)
    | none => some (Action.fail (incomparable status))
  | _ => none

/-- The response to a fault of no class of this library. -/
def answerUnhandled (r : Request) (id : String) (f : Fault) : Action Response := fun s =>
  answerSealed
    (faultEntry r .critical "Unhandled exception"
      [("exception_type", .text f.kind), ("exception_message", .text (s.faultText f))])
    500 (envelope "INTERNAL_ERROR" "An unexpected internal error occurred." []) id s

/-- The place of the number in a path. -/
def numberPlace : List Place := [.field "path", .field "customer_id"]

/-- The number of a customer in a path: an integer from one on. -/
def customerNumber (s : String) : Schema.Finding :=
  match Schema.checkIntegerText numberPlace s with
  | .ok (.int n) => if n < 1 then Schema.wrong numberPlace "greater_than_equal" else .ok (.int n)
  | found => found

/-- A redirection to a path. -/
def redirect (r : Request) (path : String) : Response :=
  ⟨307, [("location", Url.escape Url.isRedirectChar (r.addressOf path))], none⟩

/-- The headers for requests from other sites: their origin is allowed when the settings list it. -/
def originHeaders (s : Settings) (r : Request) : List (String × String) :=
  match r.header? "origin" with
  | none => []
  | some origin =>
    let allowed := if s.corsOrigins.contains origin then [("access-control-allow-origin", origin)]
      else []
    ("access-control-allow-credentials", "true") :: allowed

/-- How the inside of the interface ended: a response, or a fault that it does not tell. -/
abbrev Handled := Except Fault Response

/-- What requests are served on: a state whose store can be acted on, in which programs run to their
end, and which keeps a variable for the number of the request that is being served. -/
structure Engine (M : Type) where
  /-- The store of a state. -/
  store : M → Store
  /-- Act on the store. -/
  act : {α : Type} → M → Action α → Except Raised α × M
  /-- Run a program to its end. -/
  complete : M → Prog → Outcome × M
  /-- What the variable holds. -/
  number : M → Option String
  /-- Set the variable. -/
  holding : M → Option String → M

/-- A machine. It keeps no variable. -/
def Engine.machine : Engine Machine where
  store m := m.store
  act m a := m.act a
  complete m p := ((m.complete p).1, (m.complete p).2.2)
  number _ := none
  holding m _ := m

section Serving

variable {M : Type} (e : Engine M)

/-- Do an action that answers. -/
def answering (m : M) (a : Action Response) : Handled × M :=
  match e.act m a with
  | (.ok response, m) => (.ok response, m)
  | (.error fault, m) => (.error fault.fault, m)

/-- Answer with the customer that has a number. -/
def answerCustomer (a : Application) (r : Request) (id : String) (number : Value) (m : M) :
    Handled × M :=
  match e.complete m (a.service.getById number) with
  | (.ok v, m) => (.ok (reply 200 ((e.store m).writtenFully v)), m)
  | (.error raised, m) =>
    match answerFault r id raised.fault with
    | some answer => answering e m answer
    | none => (.error raised.fault, m)

/-- The state of health. -/
def health (s : Settings) : Value :=
  dictOf [("status", .text "healthy"), ("app", s.appName), ("version", s.appVersion)]

/-- Answer a request without regard to the layers around it. -/
def handle (a : Application) (r : Request) (id : String) (m : M) : Handled × M :=
  match destination r.verb r.path with
  | .route .health => (.ok (reply 200 ((e.store m).writtenFully (health a.settings))), m)
  | .route (.customer number) =>
    match customerNumber number with
    | .ok n => answerCustomer e a r id n m
    | .error issues => answering e m (answerIssues r id issues)
  | .wrongMethod => answering e m (answerHttp r id 405 "Method Not Allowed")
  | .redirection path => (.ok (redirect r path), m)
  | .nowhere => answering e m (answerHttp r id 404 "Not Found")

/-- A fault that passes the layers around the inside is told outside of them. -/
def answerOutside (r : Request) (id : String) (f : Fault) (m : M) : Response × M :=
  match e.act m (answerUnhandled r id f) with
  | (.ok response, m) => (response, m)
  | (.error _, m) => (⟨500, [], none⟩, m)

/-- It is noted that a request came in. -/
def begin (r : Request) (path : String) (m : M) : M :=
  (e.act m (Action.report (startedEntry r path))).2

/-- The answer of the layers around the inside, which note that the request was answered. -/
def conclude (a : Application) (r : Request) (path id : String) (handled : Handled) (m : M) :
    Response × M :=
  match handled with
  | .ok response =>
    let (_, m) := e.act m (Action.report (completedEntry r path id response.status))
    let headers := response.headers ++ originHeaders a.settings r ++ [("x-request-id", id)]
    ({ response with headers := headers }, m)
  | .error f => answerOutside e r id f m

/-- The answer to a request; `new` is a number for it that no other request has. The variable is set
to the number of the request. When the inside has ended, whether in an answer or in a fault that it
does not tell, the variable is set back to what it held. The fault of an address that cannot be
taken apart comes before that, and leaves the variable as it is. -/
def respond (a : Application) (r : Request) (new : String) (m : M) : Response × M :=
  let id := r.id new
  let before := e.number m
  let m := e.holding m (some id)
  match r.shownPath with
  | .error f => answerOutside e r id f m
  | .ok path =>
    let (handled, m) := handle e a r id (begin e r path m)
    conclude e a r path id handled (e.holding m before)

end Serving

/-- The response as it is sent: one to a request for the head alone has no body. -/
def trimmed (r : Request) (response : Response) : Response :=
  if r.verb = "HEAD" then { response with body := none } else response

/-- Serve a request; `new` is a number for it that no other request has. -/
def serve (a : Application) (r : Request) (new : String) (m : Machine) : Response × Machine :=
  let (response, m) := respond .machine a r new m
  (trimmed r response, m)

end Recast.Api
