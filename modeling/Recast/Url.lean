import Recast.Json.Reader
import Recast.Text.Blank
import Recast.Text.Octets

/-!
Addresses of resources. An address is taken apart into scheme, authority, path, query and fragment.
Scheme and authority are written in small letters, a service number that the scheme has anyway is
dropped, dot segments of the path are resolved, and characters that may not stand in a part are
escaped.
-/

set_option autoImplicit false

namespace Recast

/-- An address in its parts. -/
structure Url where
  scheme : String
  authority : String
  path : String
  query : Option String
  fragment : Option String
  deriving DecidableEq

namespace Url

/-- A visible character of ASCII. -/
def isVisible (c : Char) : Bool := 0x20 < c.toNat && c.toNat < 0x7f

/-- Characters that stand for themselves in a fragment. -/
def isFragmentChar (c : Char) : Bool := isVisible c && !("\"<>`".toList.contains c)

/-- Characters that stand for themselves in a query. -/
def isQueryChar (c : Char) : Bool := isVisible c && !("\"#<>".toList.contains c)

/-- Characters that stand for themselves in a path. -/
def isPathChar (c : Char) : Bool :=
  isQueryChar c && !("?`\x7b\x7d".toList.contains c)

/-- Characters that stand for themselves in the address of a redirection. -/
def isRedirectChar (c : Char) : Bool :=
  c.isAlphanum || "-._~:/%#?=@[]!$&'()*+,;".toList.contains c

/-- The octets of a character as escapes. -/
def escapeChar (c : Char) : List Char :=
  (Text.octetsOf c).flatMap fun b => '%' :: (Text.hex 2 b).map Char.toUpper

/-- A text in which the characters that may not stand for themselves are escaped. -/
def escape (isSafe : Char → Bool) (s : String) : String :=
  String.ofList (s.toList.flatMap fun c => if isSafe c then [c] else escapeChar c)

/-- The octets that a text with escapes stands for. A percent sign without two digits after it
stands for itself. -/
def octets : List Char → List Nat
  | '%' :: a :: b :: rest =>
    match Json.hexValue? a, Json.hexValue? b with
    | some x, some y => (16 * x + y) :: octets rest
    | _, _ => Text.octetsOf '%' ++ octets (a :: b :: rest)
  | c :: rest => Text.octetsOf c ++ octets rest
  | [] => []

/-- The text that a text with escapes stands for. -/
def unescape (s : String) : String := String.ofList (Text.charsOfOctets (octets s.toList))

/-- Take one segment of a path after those before it: a dot stays, two dots go up. -/
def takeSegment (before : List (List Char)) (segment : List Char) : List (List Char) :=
  if segment = ['.'] then before
  else if segment = ['.', '.'] then
    if before = [] ∨ before = [[]] then before else before.dropLast
  else before ++ [segment]

/-- A path without dot segments. -/
def resolveDots (path : String) : String :=
  String.ofList (['/'].intercalate ((Text.splitAt '/' path.toList).foldl takeSegment []))

/-- Cut at the first occurrence of a character; what follows it, if it occurs. -/
def cut (mark : Char) (cs : List Char) : List Char × Option (List Char) :=
  match cs.dropWhile (· != mark) with
  | [] => (cs, none)
  | _ :: rest => (cs.takeWhile (· != mark), some rest)

/-- A character that may stand in a scheme. -/
def isSchemeChar (c : Char) : Bool := c.isAlphanum || "+.-".toList.contains c

/-- The scheme in front of an address, and the rest. -/
def takeScheme (cs : List Char) : List Char × List Char :=
  match cs, cut ':' cs with
  | c :: _, (name, some rest) =>
    if c.isAlpha && name.all isSchemeChar then (name, rest) else ([], cs)
  | _, _ => ([], cs)

/-- The authority in front of the rest of an address, and what follows it. -/
def takeAuthority : List Char → List Char × List Char
  | '/' :: '/' :: rest =>
    let isInside (c : Char) : Bool := c != '/' && c != '?'
    (rest.takeWhile isInside, rest.dropWhile isInside)
  | cs => ([], cs)

/-- The service number that a scheme has anyway, as it stands behind a host. -/
def standardService (scheme : String) : String :=
  match scheme with
  | "http" | "ws" => ":80"
  | "https" | "wss" => ":443"
  | _ => ":"

/-- A text without an ending, if it has that ending. -/
def without (ending : String) (s : String) : String :=
  if s.endsWith ending then String.ofList (s.toList.take (s.length - ending.length)) else s

/-- A host in its normal form. -/
def normalHost (scheme host : String) : String :=
  without ":" (without (standardService scheme) (String.ofList (host.toList.map Char.toLower)))

/-- An authority in its normal form. What stands before an at sign is kept as it is. -/
def normalAuthority (scheme authority : String) : String :=
  let cs := authority.toList
  let host := (cs.reverse.takeWhile (· != '@')).reverse
  String.ofList (cs.take (cs.length - host.length)) ++ normalHost scheme (String.ofList host)

/-- A path in its normal form. Below an authority it begins with a slash and has no dot
segments. -/
def normalPath (authority path : String) : String :=
  if authority.isEmpty then
    escape isPathChar (String.ofList ('/' :: path.toList.dropWhile (· == '/')))
  else escape isPathChar (resolveDots path)

/-- The address that a text stands for, in its normal form. -/
def ofText (s : String) : Url :=
  let (rest, fragment) := cut '#' s.toList
  let (rest, query) := cut '?' rest
  let (scheme, rest) := takeScheme rest
  let (authority, path) := takeAuthority rest
  let scheme := String.ofList (scheme.map Char.toLower)
  let authority := normalAuthority scheme (String.ofList authority)
  { scheme := scheme
    authority := authority
    path := normalPath authority (String.ofList path)
    query := query.map fun cs => escape isQueryChar (String.ofList cs)
    fragment := fragment.map fun cs => escape isFragmentChar (String.ofList cs) }

/-- The text of an address. -/
def text (u : Url) : String :=
  let scheme := if u.scheme.isEmpty then "" else u.scheme ++ ":"
  let authority := if u.authority.isEmpty then "" else "//" ++ u.authority
  let query := match u.query with
    | some q => "?" ++ q
    | none => ""
  let fragment := match u.fragment with
    | some f => "#" ++ f
    | none => ""
  scheme ++ authority ++ u.path ++ query ++ fragment

/-- The address names a host, behind what stands before an at sign and in front of a colon. -/
def hasHost (u : Url) : Bool :=
  match (u.authority.toList.reverse.takeWhile (· != '@')).reverse with
  | c :: _ => c != ':'
  | [] => false

/-- The address has a scheme and a host. -/
def isAbsolute (u : Url) : Bool := !u.scheme.isEmpty && u.hasHost

/-- Only the path of an address, with a slash in front, and its query. -/
def below (u : Url) : Url :=
  { scheme := ""
    authority := ""
    path := String.ofList ('/' :: u.path.toList.dropWhile (· == '/'))
    query := u.query
    fragment := none }

end Url

end Recast
