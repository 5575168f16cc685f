import ProjectLens.Number.Double

/-! # Reading numbers

* `digitsValue`: a run of digits in some base;
* `readWord`: whole numbers of 64 bits without a sign;
* `readInteger`: whole numbers of 64 bits with a sign;
* `readDouble`: numbers with a fraction or an exponent. -/

namespace ProjectLens

/-- The value of a digit, letters going on after nine. -/
def digitValue? (c : Char) : Option Nat :=
  if '0' ≤ c ∧ c ≤ '9' then some (c.toNat - '0'.toNat)
  else if 'a' ≤ c ∧ c ≤ 'z' then some (c.toNat - 'a'.toNat + 10)
  else if 'A' ≤ c ∧ c ≤ 'Z' then some (c.toNat - 'A'.toNat + 10)
  else none

/-- Whether a character is a digit of a base. -/
def isDigitOf (base : Nat) (c : Char) : Bool := (digitValue? c).any (· < base)

/-- Whether a character is a decimal digit. -/
def isDecimalDigit (c : Char) : Bool := isDigitOf 10 c

/-- The value of digits of a base. -/
def digitsValue (base : Nat) (digits : List Char) : Nat :=
  digits.foldl (fun value c => value * base + (digitValue? c).getD 0) 0

/-- A natural number from decimal digits, at least one. -/
def readDigits (chars : List Char) : Option Nat :=
  if chars.isEmpty || !chars.all isDecimalDigit then none else some (digitsValue 10 chars)

/-- A sign, if there is one, and what follows; the answer says whether the sign is a minus. -/
def splitSign : List Char → Bool × List Char
  | '-' :: rest => (true, rest)
  | '+' :: rest => (false, rest)
  | chars => (false, chars)

/-- A whole number from 0 to `2 ^ 64 - 1`; a plus may stand before it. -/
def readWord (chars : List Char) : Option Nat :=
  let digits := match chars with
    | '+' :: rest => rest
    | chars => chars
  match readDigits digits with
  | some n => if n ≤ 0xFFFFFFFFFFFFFFFF then some n else none
  | none => none

/-- A whole number with a sign, if it has 64 bits. -/
def signed64 (negative : Bool) (n : Nat) : Option Int :=
  if negative then (if n ≤ 0x8000000000000000 then some (-(n : Int)) else none)
  else if n < 0x8000000000000000 then some (n : Int) else none

/-- A whole number from `-2 ^ 63` to `2 ^ 63 - 1`. -/
def readInteger (chars : List Char) : Option Int :=
  let (negative, digits) := splitSign chars
  (readDigits digits).bind (signed64 negative)

/-- The exponent after its mark, if the rest is one; nothing stands for zero. -/
def readExponent : List Char → Option Int
  | [] => some 0
  | mark :: rest =>
    if mark = 'e' ∨ mark = 'E' then
      let (negative, digits) := splitSign rest
      (readDigits digits).map fun n => if negative then -(n : Int) else (n : Int)
    else none

/-- A number of digits with or without a point, at least one digit, and an exponent. -/
def readUnsigned (negative : Bool) (chars : List Char) : Option Double :=
  let whole := chars.takeWhile isDecimalDigit
  let (places, rest) := match chars.dropWhile isDecimalDigit with
    | '.' :: rest => (rest.takeWhile isDecimalDigit, rest.dropWhile isDecimalDigit)
    | rest => ([], rest)
  if whole.isEmpty && places.isEmpty then none
  else (readExponent rest).map fun exponent =>
    Double.ofDecimal negative (digitsValue 10 (whole ++ places)) (exponent - places.length)

/-- A number with or without a fraction and an exponent, or the name of infinity or of no number in
any letter case. -/
def readDouble (chars : List Char) : Option Double :=
  let (negative, rest) := splitSign chars
  let word := String.ofList (rest.map Char.toLower)
  if word = "inf" ∨ word = "infinity" then some (.infinite negative)
  else if word = "nan" then some .nan
  else readUnsigned negative rest

end ProjectLens
