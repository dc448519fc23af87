import Recast.Api.Host
import Recast.Text.Upper

/-!
Requests and responses of the interface for clients, and the routes that lead to what it offers. A
path that differs from a route by slashes at its end leads there by redirection.
-/

set_option autoImplicit false

namespace Recast.Api

/-- A request: its method, what follows the host in its address, and its headers. -/
structure Request where
  method : String
  target : String
  headers : List (String × String)

/-- A response: its status, its headers, and its body, if it has one. -/
structure Response where
  status : Nat
  headers : List (String × String)
  body : Option Json

/-- A name of a header without regard to case. -/
def folded (name : String) : String := String.ofList (name.toList.map Char.toLower)

/-- The host that is asked when a request names none. -/
def standardHost : String := "testserver"

namespace Request

/-- The header of a request with a name, which is given in small letters. -/
def header? (r : Request) (name : String) : Option String :=
  (r.headers.find? fun (n, _) => folded n == name).map Prod.snd

/-- The method in capital letters. -/
def verb (r : Request) : String := Text.upper r.method

/-- The address that is sent, in its parts. -/
def url (r : Request) : Url :=
  Url.ofText ("http://" ++ standardHost ++
    String.ofList ('/' :: r.target.toList.dropWhile (· == '/')))

/-- The path that is asked for, without escapes. -/
def path (r : Request) : String := Url.unescape r.url.path

/-- The address of a path on the host of a request, with the query of the request. -/
def addressOf (r : Request) (path : String) : String :=
  let query := match r.url.query with
    | some q => if q.isEmpty then "" else "?" ++ q
    | none => ""
  "http://" ++ (r.header? "host").getD standardHost ++ path ++ query

/-- The address that was asked for, without escapes in its path. -/
def address (r : Request) : String := r.addressOf r.path

/-- A character that is passed over where an address is taken apart again. -/
def isPassedOver (c : Char) : Bool := c == '\t' || c == '\n' || c == '\r'

/-- What follows the scheme in the address that was asked for. -/
def located (r : Request) : List Char :=
  (r.address.toList.drop "http://".length).filter fun c => !isPassedOver c

/-- A character that stands in the authority of an address. -/
def isInAuthority (c : Char) : Bool := !("/?#".toList.contains c)

/-- The path in the address that was asked for, when that is taken apart again. A mark that was
escaped ends it. It cannot be taken apart where the host is none. -/
def shownPath (r : Request) : Except Fault String :=
  match Host.fault? (r.located.takeWhile isInAuthority) with
  | some f => .error f
  | none =>
    let rest := r.located.dropWhile isInAuthority
    .ok (String.ofList (rest.takeWhile fun c => c != '?' && c != '#'))

/-- The number of a request: the one it brings along, or the given new one. -/
def id (r : Request) (new : String) : String :=
  match r.header? "x-request-id" with
  | some s => if s.isEmpty then new else s
  | none => new

end Request

/-- What the interface offers: its own state of health, and a customer by number. -/
inductive Route where
  | health
  | customer (number : String)
  deriving DecidableEq

namespace Route

/-- What all paths to customers begin with. -/
def customers : List Char := "/api/v1/customers/".toList

/-- The route that a path is. A line break after the path of a fixed route does no harm. -/
def ofPath? (path : String) : Option Route :=
  if path = "/health" ∨ path = "/health\n" then some .health
  else if customers.isPrefixOf path.toList then
    let number := path.toList.drop customers.length
    if number.isEmpty || number.contains '/' then none
    else some (.customer (String.ofList number))
  else none

/-- The path without the slashes at its end, or with one when it has none. -/
def toggled (path : String) : String :=
  match path.toList.reverse with
  | '/' :: rest => String.ofList (rest.dropWhile (· == '/')).reverse
  | _ => path ++ "/"

end Route

/-- Where a request leads. -/
inductive Destination where
  | route (r : Route)
  | wrongMethod
  | redirection (path : String)
  | nowhere
  deriving DecidableEq

/-- Where a method and a path lead. -/
def destination (verb path : String) : Destination :=
  match Route.ofPath? path with
  | some r => if verb = "GET" then .route r else .wrongMethod
  | none =>
    if path = "/" then .nowhere
    else match Route.ofPath? (Route.toggled path) with
      | some _ => .redirection (Route.toggled path)
      | none => .nowhere

end Recast.Api
