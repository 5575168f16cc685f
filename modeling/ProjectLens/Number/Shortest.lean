import ProjectLens.Number.Double

/-! # The shortest decimal of a number

A number is written with the fewest decimal digits that read back as the same number; among those
the nearest is taken, and of two equally near ones the greater. All digits are written out, however
great or small the number.

* `Double.shortest`: digits and power of ten;
* `Double.text`: how a number is written. -/

namespace ProjectLens

/-- A decimal number `digits * 10 ^ power`. -/
structure Decimal where
  /-- The digits as a natural number. -/
  digits : Nat
  /-- The power of ten. -/
  power : Int
  deriving DecidableEq, Repr

namespace Decimal

/-- Takes up to `count` zeros off the end of the digits. -/
def stripZeros : Nat → Decimal → Decimal
  | 0, d => d
  | count + 1, d =>
    if d.digits ≠ 0 ∧ d.digits % 10 = 0 then stripZeros count ⟨d.digits / 10, d.power + 1⟩ else d

/-- All digits, with a point where one is needed. -/
def text (d : Decimal) : String :=
  let digits := (toString d.digits).toList
  if 0 ≤ d.power then String.ofList (digits ++ List.replicate d.power.toNat '0')
  else
    let places := (-d.power).toNat
    let padded := List.replicate (places + 1 - digits.length) '0' ++ digits
    let whole := padded.length - places
    String.ofList (padded.take whole ++ '.' :: padded.drop whole)

end Decimal

namespace Double

/-- The fraction `amount * 2 ^ exponent`. -/
def fraction (amount : Nat) (exponent : Int) : Nat × Nat :=
  (amount <<< exponent.toNat, 1 <<< (-exponent).toNat)

/-- The power of ten at or below a positive fraction. -/
def leadingPower (num den : Nat) : Int :=
  if den ≤ num then (digitCount (num / den) : Int) - 1
  else -(digitCount ((den - 1) / num) : Int)

/-- How `digits * 10 ^ power` stands to a fraction. -/
def compareDecimal (digits : Nat) (power : Int) (fraction : Nat × Nat) : Ordering :=
  compare (digits * Nat.pow 10 power.toNat * fraction.2) (fraction.1 * Nat.pow 10 (-power).toNat)

/-- Whether a decimal is read as `mantissa * 2 ^ exponent`: it lies between the two points halfway
to the neighbours. The points themselves are read as the even one of the two. The neighbour below a
power of two is half as far away. -/
def readsAs (mantissa : Nat) (exponent : Int) (digits : Nat) (power : Int) : Bool :=
  let below := if mantissa = mantissaBound / 2 ∧ leastExponent < exponent then 1 else 2
  let low := compareDecimal digits power (fraction (4 * mantissa - below) (exponent - 2))
  let high := compareDecimal digits power (fraction (4 * mantissa + 2) (exponent - 2))
  if mantissa % 2 = 0 then low ≠ .lt && high ≠ .gt else low = .gt && high = .lt

/-- The nearest decimal on the grid of `10 ^ power` that is read as `mantissa * 2 ^ exponent`; of
two that are equally near, the greater one. -/
def onGrid (mantissa : Nat) (exponent power : Int) : Option Decimal :=
  let (num, den) := fraction mantissa exponent
  let low := num * Nat.pow 10 (-power).toNat / (den * Nat.pow 10 power.toNat)
  let nearerLow := compareDecimal (2 * low + 1) power (fraction (2 * mantissa) exponent) = .gt
  let (near, far) := if nearerLow then (low, low + 1) else (low + 1, low)
  if readsAs mantissa exponent near power then some ⟨near, power⟩
  else if readsAs mantissa exponent far power then some ⟨far, power⟩
  else none

/-- The shortest decimal of `mantissa * 2 ^ exponent`. Seventeen digits are always enough. -/
def shortest (mantissa : Nat) (exponent : Int) : Decimal :=
  let (num, den) := fraction mantissa exponent
  let leading := leadingPower num den
  match (List.range 17).findSome? fun (places : Nat) =>
      onGrid mantissa exponent (leading - places) with
  | some decimal => decimal.stripZeros 17
  | none => ⟨0, 0⟩

/-- How a number is written. -/
def text : Double → String
  | .nan => "NaN"
  | .infinite negative => if negative then "-inf" else "inf"
  | .finite negative mantissa exponent =>
    (if negative then "-" else "") ++
      if mantissa = 0 then "0" else (shortest mantissa exponent).text

/-- How a number is written when it must be told from a whole one: with a point. What is not finite
can be told anyway. -/
def pointedText (x : Double) : String :=
  if x.isFinite ∧ !x.text.toList.contains '.' then x.text ++ ".0" else x.text

end Double

end ProjectLens
