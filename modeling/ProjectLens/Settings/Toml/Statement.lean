import ProjectLens.Settings.Toml.Moment
import ProjectLens.Settings.Toml.Table
import ProjectLens.Settings.Toml.Text

/-! # The statements of a settings file

A settings file is a sequence of headers and assignments, one a line.

* `Toml.Statement`: headers and assignments;
* `Toml.value`: the values of assignments;
* `Toml.statements`: the statements of a text. -/

namespace ProjectLens.Toml

/-- One statement of a settings file. -/
inductive Statement where
  /-- Opens the table at a path. -/
  | header (path : List String)
  /-- Adds a table to the list at a path and opens it. -/
  | itemHeader (path : List String)
  /-- Gives a value to a key of the open table. -/
  | assignment (path : List String) (value : Datum)
  deriving Repr

/-! ## Lines -/

/-- Puts a line feed for every line end of two characters. -/
def joinLineEnds : List Char → List Char
  | '\r' :: '\n' :: rest => '\n' :: joinLineEnds rest
  | c :: rest => c :: joinLineEnds rest
  | [] => []

/-- Leaves out blanks, line ends and comments; `inComment` says that a comment is being read. It
fails on what may not stand in a comment. -/
def skipFiller (inComment : Bool) : List Char → Option (List Char)
  | [] => some []
  | c :: rest =>
    if c = '\n' then skipFiller false rest
    else if inComment then (if isPlain c then skipFiller true rest else none)
    else if isLineBlank c then skipFiller false rest
    else if c = '#' then skipFiller true rest
    else some (c :: rest)

/-- What comes after the rest of a line, on which nothing but blanks and a comment may stand. -/
def lineEnd (chars : List Char) : Option (List Char) :=
  let afterComment := match skipBlanks chars with
    | '#' :: rest => rest.dropWhile isPlain
    | rest => rest
  match afterComment with
  | [] => some []
  | c :: rest => if c = '\n' then some rest else none

/-! ## Numbers -/

/-- The digits of a base in a run where an underscore may stand between any two. -/
def digitRun (base : Nat) : List Char → Option (List Char)
  | [] => none
  | [c] => if isDigitOf base c then some [c] else none
  | c :: '_' :: rest => if isDigitOf base c then (digitRun base rest).map (c :: ·) else none
  | c :: rest => if isDigitOf base c then (digitRun base rest).map (c :: ·) else none

/-- The digits of a whole number, which has no zero in front. -/
def wholeDigits (chars : List Char) : Option (List Char) :=
  match digitRun 10 chars with
  | some digits => if digits.head? = some '0' ∧ digits.length ≠ 1 then none else some digits
  | none => none

/-- A whole number in another base. -/
def basedInteger (base : Nat) (chars : List Char) : Option Datum :=
  (digitRun base chars).bind fun digits => (signed64 false (digitsValue base digits)).map .integer

/-- A number with a fraction or an exponent, or one of its parts. A positive number must not be too
great to be represented. -/
def realNumber (negative : Bool) (chars : List Char) : Option Datum := do
  let isMark (c : Char) : Bool := c = 'e' || c = 'E'
  let mantissa := chars.takeWhile fun c => !isMark c
  let exponent ← match chars.dropWhile fun c => !isMark c with
    | [] => some 0
    | _ :: rest =>
      let (down, digits) := splitSign rest
      (digitRun 10 digits).map fun digits =>
        let n : Int := digitsValue 10 digits
        if down then -n else n
  let whole ← wholeDigits (mantissa.takeWhile (· ≠ '.'))
  let places ← match mantissa.dropWhile (· ≠ '.') with
    | [] => some []
    | _ :: rest => digitRun 10 rest
  let value :=
    Double.ofDecimal negative (digitsValue 10 (whole ++ places)) (exponent - places.length)
  if value = .infinite false then none else return .real value

/-- Whether a character may stand in a word or a number. -/
def isWordChar (c : Char) : Bool := c.isAlphanum || c = '_' || c = '+' || c = '-' || c = '.'

/-- A decimal number, with or without a sign. -/
def decimalNumber (word : List Char) : Option Datum :=
  let (negative, rest) := splitSign word
  match String.ofList rest with
  | "inf" => some (.real (.infinite negative))
  | "nan" => some (.real .nan)
  | _ =>
    match wholeDigits rest with
    | some digits => (signed64 negative (digitsValue 10 digits)).map .integer
    | none => realNumber negative rest

/-- A truth value or a number. -/
def wordValue (word : List Char) : Option Datum :=
  match word with
  | '0' :: 'x' :: digits => basedInteger 16 digits
  | '0' :: 'o' :: digits => basedInteger 8 digits
  | '0' :: 'b' :: digits => basedInteger 2 digits
  | _ =>
    match String.ofList word with
    | "true" => some (.boolean true)
    | "false" => some (.boolean false)
    | _ => decimalNumber word

/-! ## Values -/

/-- The items of a list up to its closing bracket; a comma may stand after the last one. -/
def arrayItems (item : List Char → Option (Datum × List Char)) :
    Nat → List Char → Option (List Datum × List Char)
  | 0, _ => none
  | count + 1, chars => do
    match ← skipFiller false chars with
    | ']' :: rest => return ([], rest)
    | start =>
      let (value, rest) ← item start
      match ← skipFiller false rest with
      | ',' :: rest =>
        let (values, rest) ← arrayItems item count rest
        return (value :: values, rest)
      | ']' :: rest => return ([value], rest)
      | _ => none

/-- An assignment, its value read by `item`. -/
def assignment (item : List Char → Option (Datum × List Char)) (chars : List Char) :
    Option ((List String × Datum) × List Char) := do
  let (path, rest) ← keyPath chars
  match skipBlanks rest with
  | '=' :: rest =>
    let (value, rest) ← item (skipBlanks rest)
    return ((path, value), rest)
  | _ => none

/-- The assignments of a table up to its closing brace; at least one, with commas between them. -/
def braceAssignments (item : List Char → Option (Datum × List Char)) :
    Nat → List Char → Option (List (List String × Datum) × List Char)
  | 0, _ => none
  | count + 1, chars => do
    let (first, rest) ← assignment item (skipBlanks chars)
    match skipBlanks rest with
    | ',' :: rest =>
      let (others, rest) ← braceAssignments item count rest
      return (first :: others, rest)
    | '\x7d' :: rest => return ([first], rest)
    | _ => none

/-- A value that is no list and no table. -/
def flatValue (chars : List Char) : Option (Datum × List Char) :=
  match textValue chars with
  | some (text, rest) => some (.text text, rest)
  | none =>
    match Moment.read chars with
    | some (moment, rest) => some (.text moment.text, rest)
    | none =>
      (wordValue (chars.takeWhile isWordChar)).map fun value => (value, chars.dropWhile isWordChar)

/-- A value whose lists and tables go no more than `depth` levels deep. -/
def valueWithin : Nat → List Char → Option (Datum × List Char)
  | 0, chars => flatValue chars
  | depth + 1, chars =>
    match chars with
    | '[' :: rest =>
      (arrayItems (valueWithin depth) (rest.length + 1) rest).map fun (items, rest) =>
        (.array items, rest)
    | '\x7b' :: rest =>
      match skipBlanks rest with
      | '\x7d' :: rest => some (.table [], rest)
      | rest => do
        let (assignments, rest) ← braceAssignments (valueWithin depth) (rest.length + 1) rest
        return (← Datum.ofAssignments assignments, rest)
    | _ => flatValue chars

/-- A value. -/
def value (chars : List Char) : Option (Datum × List Char) := valueWithin depthLimit chars

/-! ## Statements -/

/-- A header: a key between brackets, or between two pairs of them. -/
def header (chars : List Char) : Option (Statement × List Char) :=
  match chars with
  | '[' :: rest => do
    let (path, rest) ← keyPath rest
    return (.itemHeader path, ← skipMark ']' (← skipMark ']' (skipBlanks rest)))
  | _ => do
    let (path, rest) ← keyPath chars
    return (.header path, ← skipMark ']' (skipBlanks rest))

/-- A header or an assignment. -/
def statement (chars : List Char) : Option (Statement × List Char) :=
  match chars with
  | '[' :: rest => header rest
  | _ => (assignment value chars).map fun ((path, value), rest) => (.assignment path value, rest)

/-- Statements, one a line. Every one takes a character, so `count` is no less than the number of
characters. -/
def statementsWithin : Nat → List Char → Option (List Statement)
  | 0, _ => none
  | count + 1, chars => do
    match ← skipFiller false chars with
    | [] => return []
    | start =>
      let (first, rest) ← statement start
      let others ← statementsWithin count (← lineEnd rest)
      return first :: others

/-- The statements of a settings file. A mark of its encoding may stand before them. -/
def statements (text : String) : Option (List Statement) :=
  let chars := match text.toList with
    | c :: rest => if c = Char.ofNat 0xFEFF then rest else c :: rest
    | [] => []
  statementsWithin (chars.length + 1) (joinLineEnds chars)

end ProjectLens.Toml
