import Recast.Phone
import Recast.Process.Program

/-!
Names of countries by number. A directory is a fixed table; looking a country up may take time,
which depends on the country alone. Lookups are noted in the store when they start.
-/

set_option autoImplicit false

namespace Recast

/-- What gives the name of a country. -/
abbrev CountryLookup := Value → Prog

/-- A fixed table of country names, with the time that a lookup takes by country. -/
structure Directory where
  table : List (Value × Value)
  latency : List (Value × Nat)

namespace Directory

/-- The table that is used when none is given. -/
def standardTable : List (Value × Value) := [(.int 1, .text "Thailand"), (.int 2, .text "UK")]

/-- The directory that answers at once from the standard table. -/
def standard : Directory := ⟨standardTable, []⟩

/-- The fault of a country that is not in the table. -/
def unknown (s : Store) (country : Value) : Fault :=
  Fault.notFound ("Unknown country " ++ s.plain country ++ ".") [("country_id", country)]

/-- The name of a country in the table. -/
def name (d : Directory) (country : Value) : Action Value := fun s =>
  match s.unhashable? country with
  | some type => Action.refuse (.unhashable type) s
  | none =>
    match Value.lookup d.table country with
    | some v => (.ok v, s)
    | none => Action.fail (unknown s country) s

/-- How long the lookup of a country takes. -/
def latency? (d : Directory) (country : Value) : Option Nat :=
  (d.latency.find? fun entry => Value.sameKey entry.1 country).map Prod.snd

/-- Note that a lookup has started. -/
def noteLookup (country : Value) : Action Unit :=
  Action.change fun s => { s with lookups := s.lookups ++ [country] }

/-- Look a country up. -/
def lookup (d : Directory) : CountryLookup := fun country =>
  Prog.also (noteLookup country)
    (match d.latency? country with
    | some ms =>
      .sleep ms fun
        | .ok _ => Prog.ofAction (d.name country)
        | .error e => Prog.raise e
    | none => Prog.ofAction (d.name country))

end Directory

end Recast
