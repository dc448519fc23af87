import Recast.Country
import Recast.Json.Reader
import Recast.Schema.Validation
import Recast.Url

/-!
Names of countries from a remote directory. One request is made; what comes back, a transport
failure or a reply, is classified: a usable record gives the name, everything else a fault of a
class that tells what went wrong. An address that is too long, or has a number with too many digits,
is refused before a request is made. The fault of a reply tells the start of its body, which is read
in the encoding that the reply names; where the body cannot be read so, the fault of the reading
comes in its place.
-/

set_option autoImplicit false

namespace Recast.Remote

/-- Failures of the transport. -/
inductive TransportError where
  | readTimeout
  | connectTimeout
  | writeTimeout
  | poolTimeout
  /-- Time ran out in no stage that could be told. -/
  | timeout
  | connect
  /-- Any other failure, by name. -/
  | other (name : String)
  deriving DecidableEq

namespace TransportError

/-- The name of a failure. -/
def name : TransportError → String
  | .readTimeout => "ReadTimeout"
  | .connectTimeout => "ConnectTimeout"
  | .writeTimeout => "WriteTimeout"
  | .poolTimeout => "PoolTimeout"
  | .timeout => "TimeoutException"
  | .connect => "ConnectError"
  | .other name => name

/-- The failure with a name. -/
def ofName (s : String) : TransportError :=
  match s with
  | "ReadTimeout" => .readTimeout
  | "ConnectTimeout" => .connectTimeout
  | "WriteTimeout" => .writeTimeout
  | "PoolTimeout" => .poolTimeout
  | "TimeoutException" => .timeout
  | "ConnectError" => .connect
  | s => .other s

/-- The failure is that time ran out. -/
def isTimeout : TransportError → Bool
  | .readTimeout | .connectTimeout | .writeTimeout | .poolTimeout | .timeout => true
  | .connect | .other _ => false

end TransportError

/-- Why a body gives no record. -/
inductive BodyError where
  /-- Its octets are no text. -/
  | notText
  /-- Its text is not read. -/
  | unread (r : Json.Refusal)
  | notObject
  | invalid
  deriving DecidableEq

/-- The name of the kind of fault behind a body that gives no record. -/
def BodyError.name : BodyError → String
  | .notText => "UnicodeDecodeError"
  | .unread .malformed => "JSONDecodeError"
  | .unread .tooLong => "ValueError"
  | .unread .tooDeep => "RecursionError"
  | .notObject => "TypeError"
  | .invalid => "ValidationError"

/-- An encoding that a reply can name: how octets are read as text in it, which may fail. -/
structure Charset where
  name : String
  read : List Nat → Except Fault String

/-- The encoding of host names. It is not made for reading what may be wrong, and refuses all. -/
def Charset.idna : Charset :=
  ⟨"idna", fun _ => .error (.general "UnicodeError" [.text "Unsupported error handling: replace"])⟩

/-- A reply: its status, the octets of its body, the encoding that it names, if it is a known one,
how deep the arrays and objects of a body may be nested when it is read, and how it is put into
words that a body gives no record. -/
structure Reply where
  status : Nat
  body : List UInt8
  charset : Option Charset
  room : Nat
  complaint : BodyError → String

/-- What comes back from a request. -/
inductive Exchange where
  | failure (e : TransportError) (text : String)
  | reply (r : Reply)

/-- A client: the base address, and how long a request may take. -/
structure Client where
  base : String
  timeout : Value

/-- The text without the slashes at its end. -/
def withoutSlashes (s : String) : String :=
  String.ofList ((s.toList.reverse.dropWhile (· == '/')).reverse)

/-- The address asked for a country. -/
def Client.url (c : Client) (s : Store) (country : Value) : String :=
  withoutSlashes c.base ++ "/countries/" ++ s.plain country

/-- How many characters of a body are told. -/
def shownLength : Nat := 500

/-- The octets of a body. -/
def Reply.octets (r : Reply) : List Nat := r.body.map UInt8.toNat

/-- A body as text, in the encoding that is named, or else in the standard one, where what is no
text is replaced. An empty body is read in none. -/
def Reply.text (r : Reply) : Except Fault String :=
  match r.body, r.charset with
  | [], _ => .ok ""
  | _, none => .ok (String.ofList (Text.charsOfOctets r.octets))
  | _, some charset => charset.read r.octets

/-- The start of a body, as text. -/
def Reply.shown (r : Reply) : Except Fault String :=
  r.text.map fun text => String.ofList (text.toList.take shownLength)

/-- How many digits a whole number may have that is read or written. -/
def longestNumber : Nat := 4300

/-- What a body tells in the interchange notation. -/
def Reply.json (r : Reply) : Except BodyError Json :=
  match Text.pointsOfOctets? r.octets with
  | none => .error .notText
  | some cs =>
    match Json.read ⟨longestNumber, r.room⟩ cs with
    | .ok j => .ok j
    | .error e => .error (.unread e)

/-- The bytes of half of a pair of code units. -/
def half : Value := .bytes [0xed, 0xa0, 0x80]

mutual

/-- The value of a written form. A text that is none, or a name, is kept as the bytes of half of a
pair. -/
def valueOf : Json → Value
  | .null => .null
  | .bool b => .bool b
  | .int n => .int n
  | .float x => .float x
  | .text s => .text s
  | .broken => half
  | .array js => .list 0 (valuesOf js)
  | .object ms => .dict 0 (entriesOf ms)
  | .misnamed => .dict 0 [(half, .null)]

/-- The values of written forms. -/
def valuesOf : List Json → List Value
  | [] => []
  | j :: rest => valueOf j :: valuesOf rest

/-- The entries of the members of an object. -/
def entriesOf : List (String × Json) → List (Value × Value)
  | [] => []
  | (name, j) :: rest => (.text name, valueOf j) :: entriesOf rest

end

/-- The entries of the object that a body is. No record takes an entry whose name is no text. -/
def Reply.entries (r : Reply) : Except BodyError (List (Value × Value)) :=
  match r.json with
  | .error e => .error e
  | .ok (.object ms) => .ok (entriesOf ms)
  | .ok .misnamed => .error .invalid
  | .ok _ => .error .notObject

/-- The name in a record made of entries. -/
def nameIn (entries : List (Value × Value)) : Except BodyError Value :=
  match (Value.lookup entries (.text "id")).map (Schema.checkInteger []),
      (Value.lookup entries (.text "name")).map (Schema.checkText []) with
  | some (.ok _), some (.ok name) => .ok name
  | _, _ => .error .invalid

/-- The name of the country that a body tells. -/
def Reply.name (r : Reply) : Except BodyError Value :=
  match r.entries with
  | .error e => .error e
  | .ok entries => nameIn entries

/-- How a request ended: a name, or a fault and the name of what caused it. -/
inductive Verdict where
  | name (v : Value)
  | fault (f : Fault) (cause : Option String)

/-- Judge a failure of the transport. -/
def judgeFailure (c : Client) (s : Store) (url : String) (e : TransportError) (text : String) :
    Verdict :=
  let endpoint : String × Value := ("endpoint", .text url)
  let detail : String × Value := ("error", .text text)
  if e.isTimeout then
    .fault (Fault.sourceTimeout
      ("Request to " ++ url ++ " timed out after " ++ s.plain c.timeout ++ "s.")
      [endpoint, detail]) (some e.name)
  else if e = .connect then .fault (Fault.sourceConnection [endpoint, detail]) (some e.name)
  else .fault (Fault.source ("Country API request failed: " ++ text) [endpoint]) (some e.name)

/-- A fault that tells the start of a body. Where there is no telling, that is the fault. -/
def Reply.telling (r : Reply) (told : String → Fault) (cause : Option String) : Verdict :=
  match r.shown with
  | .ok start => .fault (told start) cause
  | .error f => .fault f none

/-- Judge a reply. -/
def judgeReply (s : Store) (url : String) (country : Value) (r : Reply) : Verdict :=
  if r.status = 404 then .fault (Directory.unknown s country) none
  else if r.status ≠ 200 then
    r.telling (fun start =>
      Fault.source ("Country API returned " ++ toString r.status ++ ".")
        [("endpoint", .text url), ("status_code", .int r.status), ("body", .text start)]) none
  else match r.name with
    | .ok v => .name v
    | .error e =>
      r.telling (fun start =>
        Fault.source "Failed to parse country API response."
          [("endpoint", .text url), ("error", .text (r.complaint e)), ("raw_body", .text start)])
        (some e.name)

/-- Judge what came back. -/
def judge (c : Client) (s : Store) (country : Value) : Exchange → Verdict
  | .failure e text => judgeFailure c s (c.url s country) e text
  | .reply r => judgeReply s (c.url s country) country r

/-- The address as it is sent. Without a scheme or a host, only path and query are. -/
def sentUrl (url : String) : String :=
  let u := Url.ofText url
  if u.isAbsolute then u.text else u.below.text

/-- How many characters an address may have. -/
def longestUrl : Nat := 65536

/-- The fault of an address that is too long. -/
def urlTooLong : Fault := .general "InvalidURL" [.text "URL too long"]

/-- The country is a number with more digits than are written. -/
def unwritable : Value → Bool
  | .int n => longestNumber < (Nat.toDigits 10 n.natAbs).length
  | _ => false

/-- The fault of a number with too many digits. -/
def numberTooLong : Fault :=
  .general "ValueError"
    [.text ("Exceeds the limit (4300 digits) for integer string conversion; " ++
      "use sys.set_int_max_str_digits() to increase the limit")]

/-- A request that is made. -/
structure Request where
  method : String
  url : String
  deriving DecidableEq

/-- An inquiry: it is decided, or a request is made and what comes back tells how to go on. -/
inductive Inquiry where
  | decided (v : Verdict)
  | ask (r : Request) (goOn : Exchange → Inquiry)

namespace Inquiry

/-- The requests that are made over a transport, which tells what comes back from an address. -/
def requests (transport : String → Exchange) : Inquiry → List Request
  | .decided _ => []
  | .ask r goOn => r :: requests transport (goOn (transport r.url))

/-- How an inquiry ends over a transport. -/
def verdict (transport : String → Exchange) : Inquiry → Verdict
  | .decided v => v
  | .ask r goOn => verdict transport (goOn (transport r.url))

end Inquiry

/-- Ask for a country. -/
def Client.inquire (c : Client) (s : Store) (country : Value) : Inquiry :=
  let url := c.url s country
  if unwritable country then .decided (.fault numberTooLong none)
  else if longestUrl < url.length then .decided (.fault urlTooLong none)
  else .ask ⟨"GET", sentUrl url⟩ fun x => .decided (judge c s country x)

/-- The logger of remote lookups. -/
def logger : String := "structured_mapper.services.country_service"

/-- The record of a request that is about to be made. -/
def entry (url : String) : Log.Entry :=
  { logger := logger
    level := .debug
    message := "Fetching country"
    extra := [("url", .text url)] }

/-- Tell that a country is asked for, unless its address cannot be written. -/
def Client.tell (c : Client) (country : Value) : Action Unit := fun s =>
  if unwritable country then Action.done () s else Action.report (entry (c.url s country)) s

/-- Look a country up over a transport. -/
def Client.lookup (c : Client) (transport : String → Exchange) : CountryLookup := fun country =>
  Prog.ofAction fun s =>
    let (_, s) := c.tell country s
    match (c.inquire s country).verdict transport with
    | .name v => (.ok v, s)
    | .fault f _ => Action.fail f s

end Recast.Remote
