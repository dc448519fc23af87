import Recast.Address
import Recast.Store.Operation

/-!
Customers: a customer is loaded by number and mapped to the form for clients. The mapper is made of
two, one for the contact details within one for the customer, and both are made once.
-/

set_option autoImplicit false

namespace Recast

/-- What loads and maps customers: the stored customers and the mapper. -/
structure CustomerService where
  customers : List (Value × Value)
  mapper : Mapper

namespace CustomerService

/-- The logger of loading. -/
def storeLogger : String := "structured_mapper.services.customer_service"

/-- The logger of mapping. -/
def logger : String := "structured_mapper.services.customer_dto_service"

/-- The country of a customer's home address, zero when there is none. -/
def homeCountry (customer : Value) : Action Value :=
  Action.bind (Action.readAttribute customer "home_address") fun home =>
  if home.truth then
    Action.bind (Action.readAttribute customer "home_address") fun home =>
      Action.readAttribute home "country_id"
  else Action.done (.int 0)

/-- The international phone number of a customer. -/
def phone (customer : Value) : Action Value :=
  Action.bind (homeCountry customer) fun country =>
  Action.bind (Action.readAttribute customer "phone_number") fun number =>
    Phone.international number country

/-- The day on which a customer joined, as day, month and year. -/
def joined (customer : Value) : Action Value :=
  Action.bind (Action.readAttribute customer "date_joined") fun v =>
    match v with
    | .moment m => Action.done (.text m.dayMonthYear)
    | v => Action.refuse (.noAttribute v.typeName "strftime")

/-- The mapped home address of a customer. -/
def homeAddress (addresses : AddressService) : Compute :=
  .plain fun customer =>
    Prog.first (Action.readAttribute customer "home_address") fun home =>
      (addresses.transform home).asCoroutine

/-- The mapped business and shipping addresses of a customer, those that are present. -/
def otherAddresses (addresses : AddressService) : Compute :=
  .plain fun customer =>
    Prog.first (Action.readAttribute customer "business_address") fun business =>
    Prog.first (Action.readAttribute customer "shipping_address") fun shipping =>
      (addresses.transformMany [business, shipping]).asCoroutine

/-- The rules for the contact details. -/
def contactRules (addresses : AddressService) : List (String × Compute) :=
  [("first", AddressService.copy "first_name"), ("last", AddressService.copy "surname"),
    ("phone_number", .plain fun c => Prog.ofAction (phone c)),
    ("home_address", homeAddress addresses), ("other_addresses", otherAddresses addresses)]

/-- The rules for the customer, given the mapper of the contact details. -/
def customerRules (contact : Mapper) : List (String × Compute) :=
  [("customer_id", AddressService.copy "customer_number"),
    ("date_joined", .plain fun c => Prog.ofAction (joined c)),
    ("contact", .asynchronous contact.transform)]

/-- The service on top of stored customers and an address service. -/
def make (customers : List (Value × Value)) (addresses : AddressService) : Action CustomerService :=
  Action.bind Action.fresh fun contactId =>
  Action.bind ((Builder.empty contactId Model.customer.name Model.contactDto.name).registerFields
    (contactRules addresses)) fun b =>
  Action.bind b.buildLogged fun contact =>
  Action.bind Action.fresh fun id =>
  Action.bind ((Builder.empty id Model.customer.name Model.customerDto.name).registerFields
    (customerRules contact)) fun b =>
  Action.bind b.buildLogged fun mapper => Action.done ⟨customers, mapper⟩

/-- The fault of a number that no customer has. -/
def unknown (s : Store) (number : Value) : Fault :=
  Fault.notFound ("Customer " ++ s.plain number ++ " not found.") [("customer_id", number)]

/-- The record of a customer that was loaded. -/
def loadedEntry (number : Value) : Log.Entry :=
  { logger := storeLogger
    level := .debug
    message := "Customer loaded"
    extra := [("customer_id", number)] }

/-- The customer with a number. -/
def load (c : CustomerService) (number : Value) : Action Value := fun s =>
  match s.unhashable? number with
  | some type => Action.refuse (.unhashable type) s
  | none =>
    match (Value.lookup c.customers number).getD .null with
    | .null => Action.fail (unknown s number) s
    | v => Action.bind (Action.report (loadedEntry number)) (fun _ => Action.done v) s

/-- The number of other addresses of a mapped customer. -/
def otherCount (dto : Value) : Action Value :=
  Action.bind (Action.readAttribute dto "contact") fun contact =>
  Action.bind (Action.readAttribute contact "other_addresses") Action.length

/-- The record of a customer that was mapped. -/
def mappedEntry (number count : Value) : Log.Entry :=
  { logger := logger
    level := .info
    message := "Customer mapped"
    extra := [("customer_id", number), ("other_address_count", count)] }

/-- Load and map the customer with a number. -/
def getById (c : CustomerService) (number : Value) : Prog :=
  (Prog.first (c.load number) fun customer =>
    (c.mapper.transform customer).asCoroutine.andThen fun dto =>
      Prog.first (otherCount dto) fun count =>
        Prog.also (Action.report (mappedEntry number count)) (Prog.give dto)).asCoroutine

/-- The customers that are stored when none are given. -/
def seed : Action (List (Value × Value)) :=
  let address (street area province zipcode : String) (country : Int) : Action Value :=
    Model.address.make
      [(.text "street", .text street), (.text "area", .text area),
        (.text "province", .text province), (.text "zipcode", .text zipcode),
        (.text "country_id", .int country)]
  Action.bind (address "3 Some Lane" "Area" "Province" "1234" 1) fun home =>
  Action.bind (address "Agoda, Central World" "Pathum Wan" "Bangkok" "15000" 1) fun business =>
  Action.bind (address "1 Shipping Street" "Shipton" "Shingsford" "SHP100" 2) fun shipping =>
  Action.bind (Model.customer.make
    [(.text "customer_number", .int 12345),
      (.text "date_joined", .moment ⟨1990, 1, 1, 0, 0, 0, 0, none⟩),
      (.text "first_name", .text "Mike"), (.text "surname", .text "Chamberlain"),
      (.text "phone_number", .text "0971143378"), (.text "home_address", home),
      (.text "business_address", business), (.text "shipping_address", shipping)]) fun customer =>
  Action.done [(.int 12345, customer)]

end CustomerService

end Recast
