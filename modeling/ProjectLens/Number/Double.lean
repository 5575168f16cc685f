/-! # Numbers with 53 binary digits

A setting may be a number with a fraction. Such numbers are kept with 53 binary digits and an
exponent from a fixed range, and all arithmetic on them is exact arithmetic of natural numbers.

* `roundDiv`: the nearest quotient, a half going to the even one;
* `Double`, `Double.ofDecimal`: the nearest number to a decimal one. -/

namespace ProjectLens

/-- The natural number nearest to a quotient; of two that are equally near, the even one. -/
def roundDiv (num den : Nat) : Nat :=
  let quotient := num / den
  let twice := 2 * (num % den)
  if den < twice ∨ (twice = den ∧ quotient % 2 = 1) then quotient + 1 else quotient

/-- A number with 53 binary digits. -/
inductive Double where
  /-- The number `mantissa * 2 ^ exponent`, or its opposite. -/
  | finite (negative : Bool) (mantissa : Nat) (exponent : Int)
  /-- A number too great to be represented, or its opposite. -/
  | infinite (negative : Bool)
  /-- No number. -/
  | nan
  deriving DecidableEq, Repr

/-- Number of decimal digits. -/
def digitCount (n : Nat) : Nat := (toString n).length

namespace Double

/-- One more than the greatest mantissa. -/
def mantissaBound : Nat := 0x20000000000000

/-- The least exponent. -/
def leastExponent : Int := -1074

/-- The greatest exponent. -/
def greatestExponent : Int := 971

/-- Zero with a sign. -/
def zero (negative : Bool) : Double := .finite negative 0 leastExponent

/-- The fraction `num / den` divided by `2 ^ exponent`, as a fraction. -/
def scaled (num den : Nat) (exponent : Int) : Nat × Nat :=
  (num <<< (-exponent).toNat, den <<< exponent.toNat)

/-- The exponent for a positive fraction: with it the mantissa has 53 digits, or fewer when the
least exponent is reached. -/
def exponentFor (num den : Nat) : Int :=
  let low : Int := (num.log2 : Int) - (den.log2 : Int) - 53
  let (n, d) := scaled num den low
  max leastExponent (if mantissaBound ≤ n / d then low + 1 else low)

/-- The number nearest to a positive fraction. -/
def ofFraction (negative : Bool) (num den : Nat) : Double :=
  let exponent := exponentFor num den
  let (n, d) := scaled num den exponent
  let mantissa := roundDiv n d
  let (mantissa, exponent) :=
    if mantissa = mantissaBound then (mantissaBound / 2, exponent + 1) else (mantissa, exponent)
  if greatestExponent < exponent then .infinite negative else .finite negative mantissa exponent

/-- The number nearest to `digits * 10 ^ power`. Powers far out of reach are not worked out. -/
def ofDecimal (negative : Bool) (digits : Nat) (power : Int) : Double :=
  if digits = 0 then zero negative
  else if 310 < power then .infinite negative
  else if (digitCount digits : Int) + power < -330 then zero negative
  else ofFraction negative (digits * Nat.pow 10 power.toNat) (Nat.pow 10 (-power).toNat)

/-- Whether this is a number, and not too great to be represented. -/
def isFinite : Double → Bool
  | .finite .. => true
  | _ => false

/-- Whether this is zero, of either sign. -/
def isZero : Double → Bool
  | .finite _ mantissa _ => mantissa = 0
  | _ => false

end Double

end ProjectLens
