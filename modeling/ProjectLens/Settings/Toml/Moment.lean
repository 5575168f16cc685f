import ProjectLens.Number.Literal

/-! # Dates and times in a settings file

A value may be a day, a time of day, or a day with a time and an offset from universal time. Such a
value is kept as a text in one form, whichever way it was written.

* `Toml.Moment`: dates and times;
* `Toml.Moment.read`: how they are read;
* `Toml.Moment.text`: their form. -/

namespace ProjectLens.Toml

/-- A day. -/
structure Day where
  /-- The year, of four digits. -/
  year : Nat
  /-- The month from 1 to 12. -/
  month : Nat
  /-- The day of the month. -/
  day : Nat
  deriving DecidableEq, Repr

/-- A time of day. -/
structure Clock where
  /-- The hour from 0 to 23. -/
  hour : Nat
  /-- The minute from 0 to 59. -/
  minute : Nat
  /-- The second from 0 to 60. -/
  second : Nat
  /-- The digits of a fraction of a second. -/
  fraction : List Char
  deriving DecidableEq, Repr

/-- The distance from universal time. -/
inductive Zone where
  /-- None. -/
  | universal
  /-- Hours and minutes, ahead or behind. -/
  | offset (behind : Bool) (hours minutes : Nat)
  deriving DecidableEq, Repr

/-- A day, a time of day or both. -/
inductive Moment where
  /-- A day. -/
  | day (day : Day)
  /-- A time of day. -/
  | clock (clock : Clock)
  /-- A time on a day, with or without an offset. -/
  | both (day : Day) (clock : Clock) (zone : Option Zone)
  deriving DecidableEq, Repr

/-! ## Reading -/

/-- A number of so many digits. -/
def fixedDigits (count : Nat) (chars : List Char) : Option (Nat × List Char) :=
  let digits := chars.take count
  if digits.length = count ∧ digits.all isDecimalDigit then
    some (digitsValue 10 digits, chars.drop count)
  else none

/-- A number of two digits with bounds. -/
def twoDigits (low high : Nat) (chars : List Char) : Option (Nat × List Char) :=
  (fixedDigits 2 chars).filter fun (n, _) => decide (low ≤ n ∧ n ≤ high)

/-- What comes after a mark. -/
def skipMark (mark : Char) : List Char → Option (List Char)
  | c :: rest => if c = mark then some rest else none
  | [] => none

namespace Day

/-- Whether a year has a day more than others. -/
def isLeapYear (year : Nat) : Bool :=
  year % 4 = 0 && (year % 100 ≠ 0 || year % 400 = 0)

/-- Number of days of a month. -/
def daysOfMonth (year month : Nat) : Nat :=
  if month = 2 then (if isLeapYear year then 29 else 28)
  else if [4, 6, 9, 11].contains month then 30
  else 31

/-- A day: year, month and day of the month with dashes between them. -/
def read (chars : List Char) : Option (Day × List Char) := do
  let (year, rest) ← fixedDigits 4 chars
  let (month, rest) ← twoDigits 1 12 (← skipMark '-' rest)
  let (day, rest) ← twoDigits 1 (daysOfMonth year month) (← skipMark '-' rest)
  return (⟨year, month, day⟩, rest)

end Day

/-- The digits of a fraction after a point, if there are any. -/
def readFraction (chars : List Char) : List Char × List Char :=
  match chars with
  | '.' :: rest =>
    let places := rest.takeWhile isDecimalDigit
    if places.isEmpty then ([], chars) else (places, rest.dropWhile isDecimalDigit)
  | _ => ([], chars)

/-- A time of day: hour, minute and second with colons between them. -/
def Clock.read (chars : List Char) : Option (Clock × List Char) := do
  let (hour, rest) ← twoDigits 0 23 chars
  let (minute, rest) ← twoDigits 0 59 (← skipMark ':' rest)
  let (second, rest) ← twoDigits 0 60 (← skipMark ':' rest)
  let (fraction, rest) := readFraction rest
  return (⟨hour, minute, second, fraction⟩, rest)

/-- An offset: a letter for none, or hours and minutes with a sign. -/
def Zone.read : List Char → Option (Zone × List Char)
  | [] => none
  | sign :: rest =>
    if sign = 'Z' ∨ sign = 'z' then some (.universal, rest)
    else if sign = '+' ∨ sign = '-' then do
      let (hours, rest) ← twoDigits 0 23 rest
      let (minutes, rest) ← twoDigits 0 59 (← skipMark ':' rest)
      return (.offset (sign = '-') hours minutes, rest)
    else none

/-- The time that follows a day after a letter or a space. -/
def readClockAfterDay : List Char → Option (Clock × List Char)
  | [] => none
  | c :: rest => if c = 'T' ∨ c = 't' ∨ c = ' ' then Clock.read rest else none

/-- A date or a time. -/
def Moment.read (chars : List Char) : Option (Moment × List Char) :=
  match Day.read chars with
  | none => (Clock.read chars).map fun (t, rest) => (.clock t, rest)
  | some (d, rest) =>
    match readClockAfterDay rest with
    | none => some (.day d, rest)
    | some (t, rest) =>
      match Zone.read rest with
      | none => some (.both d t none, rest)
      | some (zone, rest) => some (.both d t (some zone), rest)

/-! ## Writing -/

/-- A number with zeros in front. -/
def padded (width n : Nat) : String :=
  let digits := toString n
  String.ofList (List.replicate (width - digits.length) '0') ++ digits

/-- Year, month and day. -/
def Day.text (d : Day) : String :=
  padded 4 d.year ++ "-" ++ padded 2 d.month ++ "-" ++ padded 2 d.day

/-- Hour, minute and second, with up to nine digits of the fraction. -/
def Clock.text (t : Clock) : String :=
  let places := ((t.fraction.take 9).reverse.dropWhile (· = '0')).reverse
  padded 2 t.hour ++ ":" ++ padded 2 t.minute ++ ":" ++ padded 2 t.second ++
    if places.isEmpty then "" else "." ++ String.ofList places

/-- The offset; one of no minutes counts as ahead. -/
def Zone.text : Zone → String
  | .universal => "Z"
  | .offset behind hours minutes =>
    (if behind ∧ (hours, minutes) ≠ (0, 0) then "-" else "+") ++ padded 2 hours ++ ":" ++
      padded 2 minutes

/-- The form of a date or a time. -/
def Moment.text : Moment → String
  | .day d => d.text
  | .clock t => t.text
  | .both d t zone => d.text ++ "T" ++ t.text ++ (zone.map Zone.text).getD ""

end ProjectLens.Toml
