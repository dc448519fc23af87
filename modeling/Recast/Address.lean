import Recast.Country
import Recast.Mapping.Builder

/-!
Addresses: a stored address mapped to one for clients, with the name of its country looked up. An
absent address maps to nothing. Several addresses are mapped side by side; the result holds those
that are present, in the order given.
-/

set_option autoImplicit false

namespace Recast

/-- What maps addresses: the mapper, and how long each address waits first. -/
structure AddressService where
  mapper : Mapper
  delay : Nat

namespace AddressService

/-- The logger of the address service. -/
def logger : String := "structured_mapper.services.address_service"

/-- A rule that copies an attribute of the source. -/
def copy (name : String) : Compute :=
  .plain fun source => Prog.ofAction (Action.readAttribute source name)

/-- The name of the country of an address. -/
def countryName (lookup : CountryLookup) : Compute :=
  .asynchronous fun address =>
    Prog.first (Action.readAttribute address "country_id") lookup

/-- The rules of the mapper. -/
def rules (lookup : CountryLookup) : List (String × Compute) :=
  [("street", copy "street"), ("area", copy "area"), ("state", copy "province"),
    ("postcode", copy "zipcode"), ("country_name", countryName lookup)]

/-- The service on top of a country lookup. -/
def make (lookup : CountryLookup) (delay : Nat) : Action AddressService :=
  Action.bind Action.fresh fun id =>
  Action.bind ((Builder.empty id Model.address.name Model.addressDto.name).registerFields
    (rules lookup)) fun b =>
  Action.bind b.buildLogged fun mapper => Action.done ⟨mapper, delay⟩

/-- The record of an address that was mapped. -/
def entry : Log.Entry :=
  { logger := logger
    level := .debug
    message := "Address transformed"
    extra := [("duration_ms", .int 0)] }

/-- Map an address without waiting first. -/
def mapNow (a : AddressService) (address : Value) : Prog :=
  (a.mapper.transform address).asCoroutine.andThen fun dto =>
    Prog.also (Action.report entry) (Prog.give dto)

/-- Map an address. -/
def transform (a : AddressService) (address : Value) : Prog :=
  if a.delay = 0 then a.mapNow address
  else .sleep a.delay fun
    | .ok _ => a.mapNow address
    | .error e => Prog.raise e

/-- A value is present. -/
def isPresent : Value → Bool
  | .null => false
  | _ => true

/-- Map several addresses side by side and keep those that are present. -/
def transformMany (a : AddressService) (addresses : List Value) : Prog :=
  .race (addresses.map fun address => (a.transform address).asCoroutine) fun
    | .ok dtos => Prog.ofAction (Action.newList (dtos.filter isPresent))
    | .error e => Prog.raise e

end AddressService

end Recast
