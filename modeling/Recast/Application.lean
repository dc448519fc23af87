import Recast.Country.Remote
import Recast.Customer
import Recast.Log.Config
import Recast.Settings

/-!
The application: starting it sets logging up, tells so, and builds the service that maps customers;
stopping it tells so. Countries are looked up remotely when the settings give an address for that,
and in the standard table otherwise.
-/

set_option autoImplicit false

namespace Recast

/-- What a started application consists of. -/
structure Application where
  settings : Settings
  service : CustomerService

namespace Application

/-- The logger of the application. -/
def logger : String := "structured_mapper.main"

/-- The request to set logging up that the settings make. -/
def logSetup (s : Settings) : Log.Config.Setup :=
  { level := Settings.textOf s.logLevel
    format := Settings.textOf s.logFormat
    mapperLevel := match s.mapperLogLevel with
      | .null => none
      | v => some (Settings.textOf v) }

/-- The record of a start. -/
def startEntry (s : Settings) : Log.Entry :=
  { logger := logger
    level := .info
    message := "Application starting"
    extra :=
      [("app", s.appName), ("version", s.appVersion), ("env", s.appEnv),
        ("remote_countries", .bool s.usesRemoteCountries)] }

/-- The record of a stop. -/
def stopEntry : Log.Entry :=
  { logger := logger, level := .info, message := "Application shut down gracefully.", extra := [] }

/-- How countries are looked up. -/
def lookup (s : Settings) (transport : String → Remote.Exchange) : CountryLookup :=
  if s.usesRemoteCountries then
    Remote.Client.lookup ⟨Settings.textOf s.countryApiUrl, s.countryApiTimeout⟩ transport
  else Directory.standard.lookup

/-- How long the lookup of an address waits first. -/
def delay (s : Settings) : Nat :=
  match s.addressLookupDelayMs with
  | .int n => n.toNat
  | .float x => x.truncate.toNat
  | _ => 0

/-- The application on top of stored customers and a country lookup. -/
def assemble (s : Settings) (lookup : CountryLookup) (customers : List (Value × Value)) :
    Action Application :=
  Action.bind (AddressService.make lookup (delay s)) fun addresses =>
  Action.bind (CustomerService.make customers addresses) fun service =>
  Action.done ⟨s, service⟩

/-- Start the application. -/
def start (s : Settings) (transport : String → Remote.Exchange) : Action Application :=
  Action.bind (Action.report (startEntry s)) fun _ =>
  Action.bind CustomerService.seed fun customers =>
  assemble s (lookup s transport) customers

/-- Stop the application. -/
def stop : Action Unit := Action.report stopEntry

end Application

end Recast
