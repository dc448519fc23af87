import Recast.Schema.Validation

/-!
Settings of the application, read from named texts. Names are told apart without regard to case, of
two that agree the later counts, and names that are no setting are passed over. All findings are
reported, in the order of the settings.
-/

set_option autoImplicit false

namespace Recast

/-- The settings. -/
structure Settings where
  appName : Value
  appEnv : Value
  appDebug : Value
  appVersion : Value
  host : Value
  service : Value
  countryApiUrl : Value
  countryApiTimeout : Value
  addressLookupDelayMs : Value
  logLevel : Value
  logFormat : Value
  mapperLogLevel : Value
  allowedOrigins : Value

namespace Settings

/-- The kind of a setting. -/
inductive Kind where
  | text
  | truth
  | integer
  | number
  | oneOf (choices : List String)
  | optionalText

/-- The names, kinds and defaults of the settings, in order. -/
def fields : List (String × Kind × Value) :=
  [("app_name", .text, .text "STRUCTURED_MAPPER"),
    ("app_env", .oneOf ["development", "staging", "production"], .text "development"),
    ("app_debug", .truth, .bool false), ("app_version", .text, .text "1.0.0"),
    ("host", .text, .text "0.0.0.0"), ("port", .integer, .int 8000),
    ("country_api_url", .text, .text ""),
    ("country_api_timeout", .number, .float ⟨0x4014000000000000⟩),
    ("address_lookup_delay_ms", .integer, .int 0), ("log_level", .text, .text "INFO"),
    ("log_format", .oneOf ["json", "console"], .text "json"),
    ("mapper_log_level", .optionalText, .null),
    ("allowed_origins", .text, .text "http://localhost:3000,http://localhost:8000")]

/-- A truth value in words. -/
def truthOf? (s : String) : Option Bool :=
  let t := String.ofList (s.toList.map Char.toLower)
  if ["1", "on", "t", "true", "y", "yes"].contains t then some true
  else if ["0", "off", "f", "false", "n", "no"].contains t then some false
  else none

/-- A text without single underscores between its characters. -/
def withoutUnderscores (cs : List Char) : Option (List Char) :=
  let parts := Text.splitAt '_' cs
  if parts.length = 1 then some cs
  else if parts.any List.isEmpty then none else some parts.flatten

/-- A text read as a number. -/
def numberOf? (s : String) : Option Decimal.Double :=
  withoutUnderscores (Text.trimChars s.toList) >>= Decimal.readDouble?

/-- A text taken as a setting of a kind. -/
def check (name : String) (kind : Kind) (s : String) : Schema.Finding :=
  let here : List Place := [.field name]
  match kind with
  | .text | .optionalText => .ok (.text s)
  | .truth =>
    match truthOf? s with
    | some b => .ok (.bool b)
    | none => Schema.wrong here "bool_parsing"
  | .integer => Schema.checkIntegerText here s
  | .number =>
    match numberOf? s with
    | some x => .ok (.float x)
    | none => Schema.wrong here "float_parsing"
  | .oneOf choices =>
    if choices.contains s then .ok (.text s) else Schema.wrong here "literal_error"

/-- A name without regard to case. -/
def folded (name : String) : String := String.ofList (name.toList.map Char.toLower)

/-- The text given for a setting. -/
def given? (env : List (String × String)) (name : String) : Option String :=
  (env.reverse.find? fun (n, _) => folded n == name).map Prod.snd

/-- The findings for all settings. -/
def findings (env : List (String × String)) : List (String × Schema.Finding) :=
  fields.map fun (name, kind, default) =>
    match given? env name with
    | some s => (name, check name kind s)
    | none => (name, .ok default)

/-- The settings by name, or what is wrong. -/
def read (env : List (String × String)) : Except (List Issue) (List (String × Value)) :=
  let found := findings env
  let issues := found.flatMap fun (_, f) =>
    match f with
    | .ok _ => []
    | .error is => is
  if issues.isEmpty then
    .ok (found.filterMap fun (n, f) =>
      match f with
      | .ok v => some (n, v)
      | .error _ => none)
  else .error issues

/-- Settings from values by name; a name that is missing has no value. -/
def ofValues (values : List (String × Value)) : Settings :=
  let v (name : String) : Value := (values.lookup name).getD .null
  { appName := v "app_name"
    appEnv := v "app_env"
    appDebug := v "app_debug"
    appVersion := v "app_version"
    host := v "host"
    service := v "port"
    countryApiUrl := v "country_api_url"
    countryApiTimeout := v "country_api_timeout"
    addressLookupDelayMs := v "address_lookup_delay_ms"
    logLevel := v "log_level"
    logFormat := v "log_format"
    mapperLogLevel := v "mapper_log_level"
    allowedOrigins := v "allowed_origins" }

/-- The values of settings that are not given. -/
def defaults : List (String × Value) := fields.map fun (name, _, default) => (name, default)

/-- The default settings with some set otherwise. -/
def overriding (given : List (String × Value)) : Settings :=
  ofValues (given.foldl (fun values (n, v) => assign values n v) defaults)

/-- The text of a setting; one that is no text has none. -/
def textOf : Value → String
  | .text s => s
  | _ => ""

/-- The origins that may send requests from other sites. -/
def corsOrigins (s : Settings) : List String :=
  ((Text.split ',' (textOf s.allowedOrigins)).map Text.trim).filter fun o => !o.isEmpty

/-- The application runs where it is developed. -/
def isDevelopment (s : Settings) : Bool := textOf s.appEnv == "development"

/-- Countries are looked up remotely. -/
def usesRemoteCountries (s : Settings) : Bool := !(Text.trim (textOf s.countryApiUrl)).isEmpty

end Settings

end Recast
