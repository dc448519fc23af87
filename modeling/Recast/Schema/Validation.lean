import Recast.Decimal.Reader
import Recast.Errors

/-!
Validation of data against a model. Numbers may be given as truth values, as floats without a
fraction or as text, moments as text or as a number of seconds; texts must be texts. All findings
are reported, in the order of the fields.
-/

set_option autoImplicit false

namespace Recast

namespace Schema

/-- A text read as an integer: blanks around it, a sign, single underscores between digits and a
fraction of zeros are allowed. -/
def integerOfText? (s : String) : Option Int :=
  let cs := Text.trimChars s.toList
  let (negative, cs) := match cs with
    | '-' :: rest => (true, rest)
    | '+' :: rest => (false, rest)
    | rest => (false, rest)
  let whole := cs.takeWhile (· != '.')
  let fraction := (cs.dropWhile (· != '.')).drop 1
  let groups := Text.splitAt '_' whole
  let digits := groups.flatten
  if fraction.all (· == '0') && groups.all (fun g => !g.isEmpty && g.all Char.isDigit) then
    let n : Int := digits.foldl (fun n c => 10 * n + ((c.toNat - 48 : Nat) : Int)) 0
    some (if negative then -n else n)
  else none

/-- The most characters of a text that is read as an integer. -/
def longestInteger : Nat := 4300

/-- A number of exactly `n` digits in front of a list of characters. -/
def digits? (n : Nat) (cs : List Char) : Option (Nat × List Char) :=
  let ds := cs.take n
  if ds.length = n ∧ ds.all Char.isDigit then
    some (ds.foldl (fun k c => 10 * k + (c.toNat - 48)) 0, cs.drop n)
  else none

/-- The zone at the end of a moment. -/
def zone? (cs : List Char) : Option (Option Int) :=
  let signed (sign : Int) (rest : List Char) : Option (Option Int) := do
    let (h, rest) ← digits? 2 rest
    let rest := match rest with
      | ':' :: more => more
      | more => more
    let (m, rest) ← digits? 2 rest
    if rest.isEmpty && h < 24 && m < 60 then some (some (sign * ((h * 3600 + m * 60 : Nat) : Int)))
    else none
  match cs with
  | [] => some none
  | ['Z'] => some (some 0)
  | ['z'] => some (some 0)
  | '+' :: rest => signed 1 rest
  | '-' :: rest => signed (-1) rest
  | _ => none

/-- The seconds and fraction of a time of day; a fraction longer than six digits is cut. -/
def seconds? (cs : List Char) : Option (Nat × Nat × List Char) :=
  match cs with
  | ':' :: rest => do
    let (s, rest) ← digits? 2 rest
    match rest with
    | c :: more =>
      if c = '.' ∨ c = ',' then
        let ds := more.takeWhile Char.isDigit
        if ds.isEmpty || 9 < ds.length then none
        else
          let six := (ds ++ List.replicate 6 '0').take 6
          let micro := six.foldl (fun k c => 10 * k + (c.toNat - 48)) 0
          some (s, micro, more.dropWhile Char.isDigit)
      else some (s, 0, rest)
    | [] => some (s, 0, [])
  | rest => some (0, 0, rest)

/-- A text read as a day, or as a day and a time of day with an optional zone. -/
def momentOfText? (s : String) : Option Moment := do
  let cs := Text.trimChars s.toList
  let (year, cs) ← digits? 4 cs
  let cs ← if cs.head? = some '-' then some cs.tail else none
  let (month, cs) ← digits? 2 cs
  let cs ← if cs.head? = some '-' then some cs.tail else none
  let (day, cs) ← digits? 2 cs
  if !Moment.validDate year month day then none
  else
    match cs with
    | [] => some ⟨year, month, day, 0, 0, 0, 0, none⟩
    | mark :: cs =>
      if !(['T', 't', ' ', '_'].contains mark) then none
      else do
        let (hour, cs) ← digits? 2 cs
        let cs ← if cs.head? = some ':' then some cs.tail else none
        let (minute, cs) ← digits? 2 cs
        let (second, micro, cs) ← seconds? cs
        let offset ← zone? cs
        if hour < 24 && minute < 60 && second < 60 then
          some ⟨year, month, day, hour, minute, second, micro, offset⟩
        else none

/-- The day of the calendar that is a number of days after the first of January 1970. -/
def dayOfNumber (n : Int) : Nat × Nat × Nat :=
  let z := n + 719468
  let era := z.fdiv 146097
  let doe := (z - era * 146097).toNat
  let yoe := (doe - doe / 1460 + doe / 36524 - doe / 146096) / 365
  let doy := doe - (365 * yoe + yoe / 4 - yoe / 100)
  let mp := (5 * doy + 2) / 153
  let day := doy - (153 * mp + 2) / 5 + 1
  let month := if mp < 10 then mp + 3 else mp - 9
  let year := (yoe : Int) + era * 400 + (if month ≤ 2 then 1 else 0)
  (year.toNat, month, day)

/-- The moment a number of seconds after the start of 1970; large numbers count milliseconds. -/
def momentOfNumber (n : Int) : Moment :=
  let inSeconds := n.natAbs ≤ 20000000000
  let seconds := if inSeconds then n else n.fdiv 1000
  let micro := if inSeconds then 0 else (n.fmod 1000).toNat * 1000
  let (year, month, day) := dayOfNumber (seconds.fdiv 86400)
  let rest := (seconds.fmod 86400).toNat
  ⟨year, month, day, rest / 3600, rest / 60 % 60, rest % 60, micro, some 0⟩

/-- The text of a byte string in UTF-8. -/
def textOfBytes? (bs : List UInt8) : Option String :=
  String.fromUTF8? (ByteArray.mk bs.toArray)

/-- What validation of one value gives: the value to keep, or what is wrong with it. -/
abbrev Finding := Except (List Issue) Value

/-- A single finding at a place. -/
def wrong (place : List Place) (type : String) : Finding := .error [⟨place, type⟩]

/-- A value taken as text. -/
def checkText (place : List Place) : Value → Finding
  | .text s => .ok (.text s)
  | .bytes bs =>
    match textOfBytes? bs with
    | some s => .ok (.text s)
    | none => wrong place "string_unicode"
  | _ => wrong place "string_type"

/-- A text taken as an integer. -/
def checkIntegerText (place : List Place) (s : String) : Finding :=
  if longestInteger < s.length then wrong place "int_parsing_size"
  else match integerOfText? s with
    | some n => .ok (.int n)
    | none => wrong place "int_parsing"

/-- A value taken as an integer. -/
def checkInteger (place : List Place) : Value → Finding
  | .bool b => .ok (.int (if b then 1 else 0))
  | .int n => .ok (.int n)
  | .float x =>
    if !x.isFinite then wrong place "finite_number"
    else match x.toInt? with
      | some n =>
        if n.natAbs < Decimal.twoTo 63 then .ok (.int n) else wrong place "int_parsing_size"
      | none => wrong place "int_from_float"
  | .text s => checkIntegerText place s
  | .bytes bs =>
    match textOfBytes? bs with
    | some s => checkIntegerText place s
    | none => wrong place "int_type"
  | _ => wrong place "int_type"

/-- A text taken as a moment: in the calendar's notation or as a number. -/
def checkMomentText (place : List Place) (s : String) : Finding :=
  match momentOfText? s with
  | some m => .ok (.moment m)
  | none =>
    match Decimal.readInt? s.toList with
    | some n => .ok (.moment (momentOfNumber n))
    | none => wrong place "datetime_from_date_parsing"

/-- A value taken as a moment. -/
def checkMoment (place : List Place) : Value → Finding
  | .moment m => .ok (.moment m)
  | .text s => checkMomentText place s
  | .int n => .ok (.moment (momentOfNumber n))
  | .float x =>
    if x.isFinite then .ok (.moment (momentOfNumber x.truncate))
    else wrong place "datetime_parsing"
  | _ => wrong place "datetime_type"

/-- Check every item of a list; all findings are kept. -/
def checkItems (check : List Place → Value → Action Finding) (place : List Place) :
    Nat → List Value → Action (List Issue × List Value)
  | _, [] => Action.done ([], [])
  | n, v :: rest => do
    let one ← check (place ++ [.index n]) v
    let (issues, values) ← checkItems check place (n + 1) rest
    match one with
    | .ok w => return (issues, w :: values)
    | .error found => return (found ++ issues, values)

/-- The entries that no field declares. -/
def undeclared (fields : List (String × Shape × FieldDefault)) (entries : List (Value × Value)) :
    List (String × Value) :=
  entries.filterMap fun (k, v) =>
    match k with
    | .text name => if (fields.map Prod.fst).contains name then none else some (name, v)
    | _ => none

mutual

/-- Check a value against a shape. A model takes its own records as they are. -/
def check : Shape → List Place → Value → Action Finding
  | .text, place, v => Action.done (checkText place v)
  | .integer, place, v => Action.done (checkInteger place v)
  | .moment, place, v => Action.done (checkMoment place v)
  | .optional s, place, v =>
    match v with
    | .null => Action.done (.ok .null)
    | _ => check s place v
  | .listOf s, place, v => do
    match v with
    | .list _ items | .tuple _ items =>
      match ← checkItems (check s) place 0 items with
      | ([], values) => return .ok (← Action.newList values)
      | (issues, _) => return .error issues
    | _ => return wrong place "list_type"
  | .model name extra fields, place, v => do
    match v with
    | .record _ type => return if type == name then .ok v else wrong place "model_type"
    | .dict _ entries =>
      match ← checkFields fields place entries with
      | ([], values) =>
        let more := if extra then undeclared fields entries else []
        return .ok (← Action.newRecord name (values ++ more))
      | (issues, _) => return .error issues
    | _ => return wrong place "model_type"

/-- Check the fields of a model against the entries given; a field without an entry gets its
default. -/
def checkFields : List (String × Shape × FieldDefault) → List Place → List (Value × Value) →
    Action (List Issue × List (String × Value))
  | [], _, _ => Action.done ([], [])
  | (name, shape, default) :: rest, place, entries => do
    let here := place ++ [.field name]
    let one : Finding ←
      match Value.lookup entries (.text name) with
      | some v => check shape here v
      | none =>
        match default with
        | .required => Action.done (wrong here "missing")
        | .null => Action.done (.ok .null)
        | .emptyText => Action.done (.ok (.text ""))
        | .zero => Action.done (.ok (.int 0))
        | .emptyList => Action.bind (Action.newList []) fun v => Action.done (.ok v)
        | .fresh => check shape here (.dict 0 [])
    let (issues, values) ← checkFields rest place entries
    match one with
    | .ok v => return (issues, (name, v) :: values)
    | .error found => return (found ++ issues, values)

end

end Schema

namespace Model

/-- A record of a model from entries, or a validation fault. -/
def make (m : Model) (entries : List (Value × Value)) : Action Value := do
  match ← Schema.check m.shape [] (.dict 0 entries) with
  | .ok v => return v
  | .error issues => Action.fail (.invalid m.name issues)

/-- A record of a model from fields taken as they are; required fields may be absent. -/
def makeRaw (m : Model) (given : List (String × Value)) : Action Value := do
  let fields ← Action.forEach (fun (name, shape, default) => do
    match given.lookup name with
    | some v => return [(name, v)]
    | none =>
      match default with
      | .required => return []
      | .null => return [(name, .null)]
      | .emptyText => return [(name, .text "")]
      | .zero => return [(name, .int 0)]
      | .emptyList => return [(name, ← Action.newList [])]
      | .fresh =>
        match ← Schema.check shape [] (.dict 0 []) with
        | .ok v => return [(name, v)]
        | .error _ => return []) m.fields
  let more := if m.extra then given.filter fun (n, _) => !m.fieldNames.contains n else []
  Action.newRecord m.name (fields.flatten ++ more)

end Model

end Recast
