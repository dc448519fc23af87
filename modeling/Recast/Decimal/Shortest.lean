import Recast.Decimal.Double

/-!
The shortest decimal text of a double: the fewest significant digits that read back as the same
number, the nearest such digits where there is a choice. Digits are found in exact natural-number
arithmetic, one grid of 1, 2, … 17 digits after the other.
-/

set_option autoImplicit false

namespace Recast.Decimal

/-- Decimal digits `digits`, read as `0.digits · 10 ^ point`. -/
structure Digits where
  digits : List Char
  point : Int
  deriving DecidableEq

/-- The decimal digits of a natural number. -/
def digitsOf (n : Nat) : List Char := (toString n).toList

/-- The least `j ≤ fuel` from `j₀` on with `den ≤ num · 10 ^ j`. -/
def leadingZeros (num den : Nat) : Nat → Nat → Nat
  | 0, j => j
  | fuel + 1, j => if den ≤ num then j else leadingZeros (num * 10) den fuel (j + 1)

/-- The decimal point position `k` with `10 ^ (k - 1) ≤ num / den < 10 ^ k`. -/
def pointOf (num den : Nat) : Int :=
  if den ≤ num then (digitsOf (num / den)).length
  else 1 - (leadingZeros num den 400 0 : Int)

/-- A positive finite double on the scale of quarters of its last place, as a fraction. -/
structure Scaled where
  quarters : Nat
  below : Nat
  above : Nat
  inclusive : Bool
  num : Nat
  den : Nat

/-- The interval of reals that round to the double, in quarters of the last place. -/
def Double.scaled (x : Double) : Scaled :=
  let m := x.significand
  let q := x.exponent - 2
  let narrow := x.fraction = 0 ∧ 1 < x.exponentField
  { quarters := 4 * m
    below := if narrow then 4 * m - 1 else 4 * m - 2
    above := 4 * m + 2
    inclusive := m % 2 = 0
    num := twoTo q.toNat
    den := twoTo (-q).toNat }

/-- The grid point of `n` digits nearest to the number, if one lies in the interval. -/
def Scaled.onGrid (s : Scaled) (point : Int) (n : Nat) : Option Nat :=
  let up := s.num * tenTo ((n : Int) - point).toNat
  let down := s.den * tenTo (point - (n : Int)).toNat
  let value := s.quarters * up
  let low := value / down
  let inside (c : Nat) : Bool :=
    if s.inclusive then s.below * up ≤ c * down && c * down ≤ s.above * up
    else s.below * up < c * down && c * down < s.above * up
  let toLow := value - low * down
  let toHigh := (low + 1) * down - value
  let lowFirst := toLow < toHigh || (toLow == toHigh && low % 2 == 0)
  match inside low, inside (low + 1) with
  | true, true => some (if lowFirst then low else low + 1)
  | true, false => some low
  | false, true => some (low + 1)
  | false, false => none

/-- The first grid from `n` digits on that holds a point of the interval. -/
def Scaled.search (s : Scaled) (point : Int) : Nat → Nat → Nat × Nat
  | 0, n => ((s.onGrid point n).getD 0, n)
  | fuel + 1, n =>
    match s.onGrid point n with
    | some c => (c, n)
    | none => s.search point fuel (n + 1)

/-- Drop the zeros at the end of a digit list. -/
def dropTrailingZeros (ds : List Char) : List Char :=
  (ds.reverse.dropWhile (· == '0')).reverse

/-- The shortest digits of a positive finite double. -/
def Double.shortest (x : Double) : Digits :=
  let s := x.scaled
  let point := pointOf (s.quarters * s.num) s.den
  let (c, n) := s.search point 17 1
  let ds := digitsOf c
  { digits := dropTrailingZeros ds
    point := point + ((ds.length : Int) - n) }

/-- Positional notation below `10 ^ 16` and from `10 ^ -4` on, otherwise an exponent of at least two
digits with its sign. -/
def Digits.render (d : Digits) : List Char :=
  let n : Int := d.digits.length
  if -4 < d.point ∧ d.point ≤ 16 then
    if d.point ≤ 0 then
      '0' :: '.' :: List.replicate (-d.point).toNat '0' ++ d.digits
    else if n ≤ d.point then
      d.digits ++ List.replicate (d.point - n).toNat '0' ++ ['.', '0']
    else
      d.digits.take d.point.toNat ++ '.' :: d.digits.drop d.point.toNat
  else
    let e := d.point - 1
    let sign := if e < 0 then '-' else '+'
    let ds := digitsOf e.natAbs
    let exponent := if ds.length < 2 then '0' :: ds else ds
    match d.digits with
    | [] => []
    | [c] => c :: 'e' :: sign :: exponent
    | c :: rest => c :: '.' :: rest ++ 'e' :: sign :: exponent

/-- The text of a double. -/
def Double.render (x : Double) : String :=
  let sign := if x.isNegative then "-" else ""
  if x.isNaN then "nan"
  else if x.isInfinite then sign ++ "inf"
  else if x.isZero then sign ++ "0.0"
  else sign ++ String.ofList x.shortest.render

end Recast.Decimal
