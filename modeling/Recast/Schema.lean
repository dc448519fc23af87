import Recast.Value

/-!
Models: record types with a declared shape for every field, of which those of the customer domain
are given here. A customer and its addresses are what is mapped from, the `Dto` models are what is
mapped to; every field of those has a default, so they can be made empty and filled rule by rule.
-/

set_option autoImplicit false

namespace Recast

/-- What a field without a given value gets. -/
inductive FieldDefault where
  | required
  | null
  | emptyText
  | zero
  | emptyList
  | fresh
  deriving DecidableEq

/-- The shape of a field's value. -/
inductive Shape where
  | text
  | integer
  | moment
  | optional (s : Shape)
  | listOf (s : Shape)
  | model (name : String) (extra : Bool) (fields : List (String × Shape × FieldDefault))

/-- A record type with declared fields; `extra` says whether undeclared fields are taken. -/
structure Model where
  name : String
  extra : Bool
  fields : List (String × Shape × FieldDefault)

namespace Model

/-- The shape of a model's records. -/
def shape (m : Model) : Shape := .model m.name m.extra m.fields

/-- The names of the declared fields. -/
def fieldNames (m : Model) : List String := m.fields.map Prod.fst

/-- A postal address of a customer. -/
def address : Model :=
  { name := "Address"
    extra := false
    fields :=
      [("street", .text, .emptyText), ("area", .text, .emptyText), ("province", .text, .emptyText),
        ("country_id", .integer, .zero), ("zipcode", .text, .emptyText),
        ("phone_number", .text, .emptyText)] }

/-- A customer as stored. -/
def customer : Model :=
  { name := "Customer"
    extra := false
    fields :=
      [("customer_number", .integer, .required), ("date_joined", .moment, .required),
        ("first_name", .text, .emptyText), ("surname", .text, .emptyText),
        ("phone_number", .text, .emptyText), ("home_address", .optional address.shape, .null),
        ("business_address", .optional address.shape, .null),
        ("shipping_address", .optional address.shape, .null)] }

/-- A country as the remote directory gives it. -/
def country : Model :=
  { name := "CountryRecord"
    extra := true
    fields := [("id", .integer, .required), ("name", .text, .required)] }

/-- An address as shown to clients. -/
def addressDto : Model :=
  { name := "AddressDto"
    extra := false
    fields :=
      [("street", .optional .text, .null), ("area", .optional .text, .null),
        ("state", .optional .text, .null), ("country_name", .optional .text, .null),
        ("postcode", .optional .text, .null)] }

/-- The contact details of a customer as shown to clients. -/
def contactDto : Model :=
  { name := "ContactDto"
    extra := false
    fields :=
      [("first", .optional .text, .null), ("last", .optional .text, .null),
        ("phone_number", .optional .text, .null),
        ("home_address", .optional addressDto.shape, .null),
        ("other_addresses", .listOf addressDto.shape, .emptyList)] }

/-- A customer as shown to clients. -/
def customerDto : Model :=
  { name := "CustomerDto"
    extra := false
    fields :=
      [("customer_id", .optional .integer, .null), ("date_joined", .optional .text, .null),
        ("contact", contactDto.shape, .fresh)] }

/-- The models of the customer domain. -/
def all : List Model := [address, customer, country, addressDto, contactDto, customerDto]

/-- The model with a name. -/
def find? (name : String) : Option Model := all.find? fun m => m.name == name

end Model

end Recast
