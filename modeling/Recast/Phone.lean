import Recast.Errors
import Recast.Store.Attribute

/-!
Phone numbers in international form: a plus sign, the dialling code of the country, and the local
number without its first character, the trunk digit.
-/

set_option autoImplicit false

namespace Recast.Phone

/-- The dialling codes by country: Thailand and the United Kingdom. -/
def diallingCodes : List (Value × Value) := [(.int 1, .text "66"), (.int 2, .text "44")]

/-- All but the first element of a value that is a sequence, shown as plain text. -/
def withoutFirst (number : Value) : Action Value := fun s =>
  match number with
  | .text t => (.ok (.text (String.ofList (t.toList.drop 1))), s)
  | .bytes bs => (.ok (.bytes (bs.drop 1)), s)
  | .list id items => (.ok (.list id (items.drop 1)), s)
  | .tuple id items => (.ok (.tuple id (items.drop 1)), s)
  | .dict .. => Action.refuse (.unhashable "slice") s
  | v => Action.refuse (.notSubscriptable v.typeName) s

/-- The field that is at fault when a number cannot be formed. -/
def field : String := "phone_number"

/-- No dialling code is known for a country. -/
def unknownCountry (s : Store) (country : Value) : Fault :=
  Fault.mappingField field ("No dialling code for country " ++ s.plain country ++ ".")
    [("country_id", country)]

/-- There is no number. -/
def emptyNumber : Fault := Fault.mappingField field "Empty phone number." []

/-- The international form of a local number in a country. The country is checked first. -/
def international (number country : Value) : Action Value := fun s =>
  match s.unhashable? country with
  | some type => Action.refuse (.unhashable type) s
  | none =>
    match Value.lookup diallingCodes country with
    | none => Action.fail (unknownCountry s country) s
    | some code =>
      if number.truth then
        Action.bind (withoutFirst number) (fun rest s =>
          (.ok (.text ("+" ++ s.plain code ++ s.plain rest)), s)) s
      else Action.fail emptyNumber s

end Recast.Phone
