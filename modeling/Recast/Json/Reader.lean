import Recast.Decimal.Reader
import Recast.Json
import Recast.Text.Points

/-!
Reading the interchange notation. Besides the standard forms the names of the numbers that are not
finite are read. Of two members of an object with one name the later wins, in the place of the
earlier. Whole numbers are read up to a number of digits, and arrays and objects up to a depth.
Every step reads at least one character, so the length of the text bounds the reading.
-/

set_option autoImplicit false

namespace Recast.Json

open Text (Points)

/-- Why a text is not read. -/
inductive Refusal where
  /-- It is not in the notation. -/
  | malformed
  /-- A whole number has too many digits. -/
  | tooLong
  /-- Arrays and objects are nested too deep. -/
  | tooDeep
  deriving DecidableEq

/-- How many digits a whole number may have, and how deep arrays and objects may be nested. -/
structure Limits where
  digits : Nat
  depth : Nat

/-- Drop blanks. -/
def skip (cs : Points) : Points :=
  cs.dropWhile fun c => c == some ' ' || c == some '\n' || c == some '\t' || c == some '\r'

/-- The text after a word that it begins with. -/
def after? (word : String) (cs : Points) : Option Points :=
  let w := Text.pointsOf word
  if cs.take w.length = w then some (cs.drop w.length) else none

/-- The value of a hexadecimal digit. -/
def hexValue? (c : Char) : Option Nat :=
  let n := c.toNat
  if 48 ≤ n && n ≤ 57 then some (n - 48)
  else if 65 ≤ n && n ≤ 70 then some (n - 55)
  else if 97 ≤ n && n ≤ 102 then some (n - 87)
  else none

/-- A code unit of four hexadecimal digits. -/
def unit? : Points → Option (Nat × Points)
  | some a :: some b :: some c :: some d :: rest => do
    let a ← hexValue? a
    let b ← hexValue? b
    let c ← hexValue? c
    let d ← hexValue? d
    some (((a * 16 + b) * 16 + c) * 16 + d, rest)
  | _ => none

/-- The character of an escape of one letter. -/
def shortEscape? (c : Char) : Option Char :=
  if c = Text.doubleQuote ∨ c = Text.backslash ∨ c = '/' then some c
  else if c = 'b' then some (Char.ofNat 8)
  else if c = 'f' then some (Char.ofNat 12)
  else if c = 'n' then some '\n'
  else if c = 'r' then some '\r'
  else if c = 't' then some '\t'
  else none

/-- The second half of a pair of code units, written as an escape. -/
def lowHalf? : Points → Option (Nat × Points)
  | some b :: some 'u' :: rest => do
    if b != Text.backslash then none
    else
      let (n, rest) ← unit? rest
      if 0xdc00 ≤ n && n ≤ 0xdfff then some (n, rest) else none
  | _ => none

/-- The characters of a text up to its closing quote; `none` in place of them when half of a pair
stands alone. -/
def textBody? : Nat → Points → Option (Option (List Char) × Points)
  | 0, _ => none
  | _ + 1, [] => none
  | fuel + 1, c :: rest =>
    let more (c : Option Char) (rest : Points) : Option (Option (List Char) × Points) :=
      (textBody? fuel rest).map fun (tail, rest) =>
        (match c, tail with
          | some c, some tail => some (c :: tail)
          | _, _ => none, rest)
    match c with
    | none => more none rest
    | some c =>
      if c = Text.doubleQuote then some (some [], rest)
      else if c = Text.backslash then
        match rest with
        | some 'u' :: rest => do
          let (n, rest) ← unit? rest
          match lowHalf? rest with
          | some (m, after) =>
            if 0xd800 ≤ n && n ≤ 0xdbff then
              more (some (Char.ofNat (0x10000 + (n - 0xd800) * 0x400 + (m - 0xdc00)))) after
            else more (Text.point n) rest
          | none => more (Text.point n) rest
        | some e :: rest => do
          let e ← shortEscape? e
          more (some e) rest
        | _ => none
      else if c.toNat < 32 then none
      else more (some c) rest

/-- The digits in front of a text, and what follows them. -/
def digits : Points → List Char × Points
  | some c :: rest =>
    if c.isDigit then
      let (ds, after) := digits rest
      (c :: ds, after)
    else ([], some c :: rest)
  | cs => ([], cs)

/-- The digits of an exponent. -/
def exponent? (cs : Points) : Option (Int × Points) :=
  match cs with
  | some c :: rest =>
    if c = 'e' ∨ c = 'E' then
      let (sign, rest) : Int × Points := match rest with
        | some '-' :: rest => (-1, rest)
        | some '+' :: rest => (1, rest)
        | rest => (1, rest)
      let (ds, rest) := digits rest
      if ds.isEmpty then none else some (sign * (Decimal.natOfDigits ds : Int), rest)
    else none
  | _ => none

/-- The digits of a fraction, after its point. -/
def fraction (cs : Points) : List Char × Points :=
  match cs with
  | some '.' :: more =>
    let (fs, rest) := digits more
    if fs.isEmpty then ([], cs) else (fs, rest)
  | _ => ([], cs)

/-- A number. A fraction or an exponent makes it a float. -/
def number (longest : Nat) (cs : Points) : Except Refusal (Json × Points) :=
  let (negative, cs) := match cs with
    | some '-' :: rest => (true, rest)
    | rest => (false, rest)
  let (ds, rest) := match cs with
    | some '0' :: rest => (['0'], rest)
    | cs => digits cs
  if ds.isEmpty then .error .malformed
  else
    let (fs, rest) := fraction rest
    let parts := Decimal.natOfDigits (ds ++ fs)
    match exponent? rest with
    | some (e, rest) => .ok (.float (Decimal.doubleOf negative parts (e - fs.length)), rest)
    | none =>
      if !fs.isEmpty then .ok (.float (Decimal.doubleOf negative parts (-fs.length)), rest)
      else if longest < ds.length then .error .tooLong
      else .ok (.int (if negative then -(parts : Int) else parts), rest)

/-- The words that stand for values. -/
def words : List (String × Json) :=
  [("null", .null), ("true", .bool true), ("false", .bool false),
    ("NaN", .float Decimal.Double.undefined), ("Infinity", .float Decimal.Double.infinity),
    ("-Infinity", .float Decimal.Double.negativeInfinity)]

/-- A number or one of the words. -/
def word (longest : Nat) (cs : Points) : Except Refusal (Json × Points) :=
  match words.findSome? fun (w, j) => (after? w cs).map fun rest => (j, rest) with
  | some found => .ok found
  | none => number longest cs

/-- Set a member: in the place of one with the same name, or in front. -/
def setMember (members : List (String × Json)) (name : String) (j : Json) : List (String × Json) :=
  if members.any fun m => m.1 == name then
    members.map fun m => if m.1 == name then (name, j) else m
  else members ++ [(name, j)]

/-- Members read so far, or nothing if one of them has a broken name. -/
def addMember (members : Option (List (String × Json))) (name : Option (List Char)) (j : Json) :
    Option (List (String × Json)) :=
  match members, name with
  | some members, some cs => some (setMember members (String.ofList cs) j)
  | _, _ => none

/-- The object of members, or of none if one of them has a broken name. -/
def objectOf : Option (List (String × Json)) → Json
  | some members => .object members
  | none => .misnamed

mutual

/-- A value, after blanks. -/
def value : Nat → Limits → Points → Except Refusal (Json × Points)
  | 0, _, _ => .error .malformed
  | fuel + 1, limits, cs =>
    match skip cs with
    | some c :: rest =>
      if c = Text.doubleQuote then
        match textBody? (rest.length + 1) rest with
        | some (some cs, rest) => .ok (.text (String.ofList cs), rest)
        | some (none, rest) => .ok (.broken, rest)
        | none => .error .malformed
      else if c = '[' ∨ c.toNat = 0x7b then
        match limits.depth with
        | 0 => .error .tooDeep
        | depth + 1 =>
          let limits := { limits with depth := depth }
          if c = '[' then
            match skip rest with
            | some ']' :: rest => .ok (.array [], rest)
            | rest => (items fuel limits rest).map fun (js, rest) => (.array js, rest)
          else
            match skip rest with
            | some d :: more =>
              if d.toNat = 0x7d then .ok (.object [], more)
              else (members fuel limits (some []) (some d :: more)).map fun (ms, rest) =>
                (objectOf ms, rest)
            | _ => .error .malformed
      else word limits.digits (some c :: rest)
    | _ => .error .malformed

/-- The items of an array, up to its closing bracket. -/
def items : Nat → Limits → Points → Except Refusal (List Json × Points)
  | 0, _, _ => .error .malformed
  | fuel + 1, limits, cs => do
    let (j, rest) ← value fuel limits cs
    match skip rest with
    | some ',' :: rest => (items fuel limits rest).map fun (js, rest) => (j :: js, rest)
    | some ']' :: rest => .ok ([j], rest)
    | _ => .error .malformed

/-- The members of an object after those before, up to its closing brace. -/
def members : Nat → Limits → Option (List (String × Json)) → Points →
    Except Refusal (Option (List (String × Json)) × Points)
  | 0, _, _, _ => .error .malformed
  | fuel + 1, limits, before, cs =>
    match skip cs with
    | some c :: rest =>
      if c != Text.doubleQuote then .error .malformed
      else
        match textBody? (rest.length + 1) rest with
        | none => .error .malformed
        | some (name, rest) =>
          match skip rest with
          | some ':' :: rest => do
            let (j, rest) ← value fuel limits rest
            let after := addMember before name j
            match skip rest with
            | some ',' :: rest => members fuel limits after rest
            | some d :: rest => if d.toNat = 0x7d then .ok (after, rest) else .error .malformed
            | _ => .error .malformed
          | _ => .error .malformed
    | _ => .error .malformed

end

/-- The value that a whole text is. -/
def read (limits : Limits) (cs : Points) : Except Refusal Json :=
  match value (2 * cs.length + 2) limits cs with
  | .ok (j, rest) => if (skip rest).isEmpty then .ok j else .error .malformed
  | .error e => .error e

/-- The value that a string is; its length bounds the digits and the depth. -/
def parse? (s : String) : Option Json :=
  match read ⟨s.length, s.length⟩ (Text.pointsOf s) with
  | .ok j => some j
  | .error _ => none

end Recast.Json
