/-!
Double-precision numbers, kept as their 64 bits so that equality of numbers in this library is
equality of bits, and their exact value `± m · 2 ^ q`.
-/

set_option autoImplicit false

namespace Recast.Decimal

/-- A power of two. -/
def twoTo (n : Nat) : Nat := Nat.pow 2 n

/-- A power of ten. -/
def tenTo (n : Nat) : Nat := Nat.pow 10 n

/-- A double-precision number, by its bits. -/
structure Double where
  bits : UInt64
  deriving DecidableEq, Inhabited

namespace Double

/-- The machine number with these bits. -/
def toFloat (x : Double) : Float := Float.ofBits x.bits

/-- The bits of a machine number. -/
def ofFloat (x : Float) : Double := ⟨x.toBits⟩

/-- The sign bit. -/
def isNegative (x : Double) : Bool := x.bits.toNat ≥ twoTo 63

/-- The exponent field. -/
def exponentField (x : Double) : Nat := x.bits.toNat / twoTo 52 % twoTo 11

/-- The fraction field. -/
def fraction (x : Double) : Nat := x.bits.toNat % twoTo 52

/-- Neither infinite nor undefined. -/
def isFinite (x : Double) : Bool := x.exponentField != 2047

/-- Undefined. -/
def isNaN (x : Double) : Bool := x.exponentField == 2047 && x.fraction != 0

/-- Infinite, of either sign. -/
def isInfinite (x : Double) : Bool := x.exponentField == 2047 && x.fraction == 0

/-- The factor `m` of the exact value. -/
def significand (x : Double) : Nat :=
  if x.exponentField = 0 then x.fraction else x.fraction + twoTo 52

/-- The power `q` of two of the exact value. -/
def exponent (x : Double) : Int :=
  if x.exponentField = 0 then -1074 else (x.exponentField : Int) - 1075

/-- Zero of either sign. -/
def isZero (x : Double) : Bool := x.exponentField == 0 && x.fraction == 0

/-- The value as an integer, when it is one. -/
def toInt? (x : Double) : Option Int :=
  if !x.isFinite then none
  else
    let sign : Int := if x.isNegative then -1 else 1
    let m := x.significand
    if 0 ≤ x.exponent then some (sign * (m * twoTo x.exponent.toNat : Nat))
    else
      let unit := twoTo (-x.exponent).toNat
      if m % unit = 0 then some (sign * (m / unit : Nat)) else none

/-- The value cut toward zero, for a finite number. -/
def truncate (x : Double) : Int :=
  let sign : Int := if x.isNegative then -1 else 1
  if 0 ≤ x.exponent then sign * (x.significand * twoTo x.exponent.toNat : Nat)
  else sign * (x.significand / twoTo (-x.exponent).toNat : Nat)

/-- The nearest double to an integer; `none` when it is out of range. -/
def ofInt? (n : Int) : Option Double :=
  let x := ofFloat (Float.ofScientific n.natAbs false 0)
  if x.isFinite then some (if n < 0 then ⟨x.bits + 0x8000000000000000⟩ else x) else none

/-- The sum, rounded to the nearest double. -/
def add (x y : Double) : Double := ofFloat (x.toFloat + y.toFloat)

/-- Numeric equality: the two zeros are equal and an undefined number differs from all. -/
def sameNumber (x y : Double) : Bool :=
  !x.isNaN && !y.isNaN && (x.bits == y.bits || (x.isZero && y.isZero))

/-- Plus infinity. -/
def infinity : Double := ⟨0x7ff0000000000000⟩

/-- Minus infinity. -/
def negativeInfinity : Double := ⟨0xfff0000000000000⟩

/-- An undefined number. -/
def undefined : Double := ⟨0x7ff8000000000000⟩

end Double

end Recast.Decimal
