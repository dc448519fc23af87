import Recast.Text.Quoted
import Recast.Url
import Recast.Value

/-!
Hosts that requests name. A host may be an address of eight groups between brackets; where the
brackets do not match, or hold something else, the address of the request cannot be taken apart.
-/

set_option autoImplicit false

namespace Recast.Api.Host

/-- A decimal digit. -/
def isDigit (c : Char) : Bool := '0' ≤ c && c ≤ '9'

/-- A number up to 255, without zeros in front. -/
def isOctet (cs : List Char) : Bool :=
  !cs.isEmpty && cs.length ≤ 3 && cs.all isDigit && (cs == ['0'] || cs.head? != some '0') &&
    cs.foldl (fun n c => 10 * n + (c.toNat - '0'.toNat)) 0 ≤ 255

/-- An address of four numbers. -/
def isQuad (cs : List Char) : Bool :=
  let parts := Text.splitAt '.' cs
  parts.length == 4 && parts.all isOctet

/-- A group of up to four hexadecimal digits. -/
def isGroup (cs : List Char) : Bool :=
  !cs.isEmpty && cs.length ≤ 4 && cs.all fun c => (Json.hexValue? c).isSome

/-- The groups between colons. An address of four numbers may stand for the last two. -/
def groups? (cs : List Char) : Option (List (List Char)) :=
  let parts := Text.splitAt ':' cs
  let last := parts.getLastD []
  if parts.length < 3 then none
  else if last.contains '.' then
    if isQuad last then some (parts.dropLast ++ [['0'], ['0']]) else none
  else some parts

/-- Groups on one side of the gap; there may be none. -/
def side (groups : List (List Char)) : List (List Char) := if groups = [[]] then [] else groups

/-- Eight groups, or fewer with one gap in place of those that are left out. -/
def isFull : List (List Char) → Bool
  | [] => false
  | first :: rest =>
    let before := side (first :: rest.takeWhile fun g => !g.isEmpty)
    match rest.dropWhile fun g => !g.isEmpty with
    | _ :: next :: others =>
      let after := side (next :: others)
      before.length + after.length < 8 && before.all isGroup && after.all isGroup
    | _ => (first :: rest).length == 8 && (first :: rest).all isGroup

/-- An address of eight groups, perhaps with the zone that it is for. -/
def isGrouped (cs : List Char) : Bool :=
  let (address, zone) := Url.cut '%' cs
  (zone.all fun z => !z.isEmpty && !z.contains '%') && ((groups? address).any isFull)

/-- An address of a form to come: a number of the form, a dot, and anything. -/
def isFuture : List Char → Bool
  | 'v' :: rest =>
    let number := rest.takeWhile fun c => (Json.hexValue? c).isSome
    !number.isEmpty && match rest.drop number.length with
      | '.' :: _ :: _ => true
      | _ => false
  | _ => false

/-- What is wrong with a value, in words. -/
def valueError (text : String) : Fault := .general "ValueError" [.text text]

/-- The fault of what stands between brackets, if it is none of these. -/
def bracketedFault? (cs : List Char) : Option Fault :=
  if cs.head? = some 'v' then
    if isFuture cs then none else some (valueError "IPvFuture address is invalid")
  else if isQuad cs then some (valueError "An IPv4 address cannot be in brackets")
  else if isGrouped cs then none
  else some (valueError
    (Text.quoted (String.ofList cs) ++ " does not appear to be an IPv4 or IPv6 address"))

/-- The fault of an authority that cannot be taken for one. -/
def fault? (authority : List Char) : Option Fault :=
  match authority.contains '[', authority.contains ']' with
  | false, false => none
  | true, true =>
    bracketedFault? (((authority.dropWhile (· != '[')).drop 1).takeWhile (· != ']'))
  | _, _ => some (valueError "Invalid IPv6 URL")

end Recast.Api.Host
