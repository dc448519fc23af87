import Recast.Decimal.Double

/-!
Reading numbers from text: a decimal with an optional sign, fraction and exponent, and the names of
infinity and of the undefined number.
-/

set_option autoImplicit false

namespace Recast.Decimal

/-- The value of a list of decimal digits. -/
def natOfDigits (ds : List Char) : Nat :=
  ds.foldl (fun n c => 10 * n + (c.toNat - 48)) 0

/-- An integer of at least one digit with an optional sign. -/
def readInt? (s : List Char) : Option Int :=
  let read (ds : List Char) : Option Nat :=
    if !ds.isEmpty && ds.all Char.isDigit then some (natOfDigits ds) else none
  match s with
  | '-' :: ds => (read ds).map fun n => -(n : Int)
  | '+' :: ds => (read ds).map Int.ofNat
  | ds => (read ds).map Int.ofNat

/-- The double nearest to `± m · 10 ^ e`. -/
def doubleOf (negative : Bool) (m : Nat) (e : Int) : Double :=
  let digits : Int := ((toString m).length : Int)
  let x :=
    if m = 0 ∨ e + digits < -400 then Double.ofFloat 0
    else if 400 < e + digits then Double.infinity
    else Double.ofFloat (Float.ofScientific m (e < 0) e.natAbs)
  if negative then ⟨x.bits + 0x8000000000000000⟩ else x

/-- The exponent part after the digits of a number. -/
def readExponent? : List Char → Option Int
  | [] => some 0
  | c :: rest => if c = 'e' ∨ c = 'E' then readInt? rest else none

/-- A decimal number without its sign: digits on at least one side of the point. -/
def readUnsigned? (negative : Bool) (s : List Char) : Option Double :=
  let whole := s.takeWhile Char.isDigit
  let rest := s.dropWhile Char.isDigit
  let (part, rest) := match rest with
    | '.' :: more => (more.takeWhile Char.isDigit, more.dropWhile Char.isDigit)
    | _ => ([], rest)
  if whole.isEmpty && part.isEmpty then none
  else (readExponent? rest).map fun e =>
    doubleOf negative (natOfDigits (whole ++ part)) (e - part.length)

/-- The names of the numbers that have no digits. -/
def readNamed? (negative : Bool) (s : List Char) : Option Double :=
  match String.ofList (s.map Char.toLower) with
  | "inf" | "infinity" => some (if negative then Double.negativeInfinity else Double.infinity)
  | "nan" => some Double.undefined
  | _ => none

/-- A decimal number, an infinity or the undefined number. -/
def readDouble? (s : List Char) : Option Double :=
  let read (negative : Bool) (s : List Char) : Option Double :=
    (readNamed? negative s).orElse fun _ => readUnsigned? negative s
  match s with
  | '-' :: rest => read true rest
  | '+' :: rest => read false rest
  | rest => read false rest

end Recast.Decimal
