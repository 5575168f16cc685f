import ProjectLens.Number.Literal

/-! # Texts and keys of a settings file

A text stands between quotation marks, in which escapes are read, or between apostrophes, in which
all characters stand for themselves. Between three of the marks it may go on over several lines.

* `Toml.textValue`: texts;
* `Toml.keyPath`: keys. -/

namespace ProjectLens.Toml

/-! ## Characters -/

/-- Whether a character is a blank within a line. -/
def isLineBlank (c : Char) : Bool := c = ' ' || c = '\t'

/-- Whether a character may stand in comments and texts: no control character but the tab. -/
def isPlain (c : Char) : Bool := c = '\t' || (0x20 ≤ c.toNat && c.toNat ≠ 0x7F)

/-- Leaves out blanks within a line. -/
def skipBlanks (chars : List Char) : List Char := chars.dropWhile isLineBlank

/-- The mark around texts with escapes. -/
def quotation : Char := '\x22'

/-- The mark around texts without escapes. -/
def apostrophe : Char := '\x27'

/-! ## Texts -/

/-- The character with a code given by hexadecimal digits. -/
def charOfHex (digits : List Char) : Option Char :=
  if digits.all (isDigitOf 16) then
    let code := digitsValue 16 digits
    if code.isValidChar then some (Char.ofNat code) else none
  else none

/-- The character that a backslash and a letter stand for. -/
def escapedChar (letter : Char) : Option Char :=
  [('b', '\x08'), ('t', '\t'), ('n', '\n'), ('f', '\x0c'), ('r', '\r'), ('\x22', '\x22'),
    ('\\', '\\')].lookup letter

/-- Whether a character may stand in a text; in a `long` one lines may end. -/
def isTextChar (long : Bool) (c : Char) : Bool := isPlain c || (long && c = '\n')

/-- What comes after a text that ends here, and the marks before it that are part of the text. A
`long` text ends with three marks and may have one or two of its own right before them. -/
def closing (mark : Char) (long : Bool) (chars : List Char) : Option (List Char × List Char) :=
  let marks := (chars.takeWhile (· = mark)).length
  if long then
    let own := min (marks - 3) 2
    if marks < 3 then none else some (List.replicate own mark, chars.drop (own + 3))
  else if marks = 0 then none
  else some ([], chars.drop 1)

/-- What is left out of a text after a backslash at the end of a line. -/
inductive Gap where
  /-- Nothing is. -/
  | closed
  /-- Blanks up to the end of the line, which has to come. -/
  | toLineEnd
  /-- Blanks and line ends. -/
  | toText
  deriving DecidableEq, Repr

/-- The characters of a text up to its end, with escapes read, and what comes after it. -/
def escapedText (long : Bool) : Gap → List Char → Option (List Char × List Char)
  | .toLineEnd, c :: rest =>
    if c = '\n' then escapedText long .toText rest
    else if isLineBlank c then escapedText long .toLineEnd rest
    else none
  | _, '\\' :: 'u' :: a :: b :: c :: d :: rest => do
    let char ← charOfHex [a, b, c, d]
    let (text, rest) ← escapedText long .closed rest
    return (char :: text, rest)
  | _, '\\' :: 'U' :: a :: b :: c :: d :: e :: f :: g :: h :: rest => do
    let char ← charOfHex [a, b, c, d, e, f, g, h]
    let (text, rest) ← escapedText long .closed rest
    return (char :: text, rest)
  | _, '\\' :: letter :: rest =>
    if long ∧ letter = '\n' then escapedText long .toText rest
    else if long ∧ isLineBlank letter then escapedText long .toLineEnd rest
    else do
      let char ← escapedChar letter
      let (text, rest) ← escapedText long .closed rest
      return (char :: text, rest)
  | gap, c :: rest =>
    if gap = .toText ∧ (isLineBlank c ∨ c = '\n') then escapedText long .toText rest
    else match closing quotation long (c :: rest) with
      | some ending => some ending
      | none =>
        if isTextChar long c then do
          let (text, rest) ← escapedText long .closed rest
          return (c :: text, rest)
        else none
  | _, [] => none

/-- The characters of a text up to its end, as they stand, and what comes after it. -/
def literalText (long : Bool) : List Char → Option (List Char × List Char)
  | [] => none
  | c :: rest =>
    match closing apostrophe long (c :: rest) with
    | some ending => some ending
    | none =>
      if isTextChar long c then do
        let (text, rest) ← literalText long rest
        return (c :: text, rest)
      else none

/-- Leaves out a line end at the start. -/
def skipLineEnd : List Char → List Char
  | '\n' :: rest => rest
  | chars => chars

/-- A text on one line. -/
def shortText (chars : List Char) : Option (String × List Char) :=
  match chars with
  | '\x22' :: rest => (escapedText false .closed rest).map fun (text, rest) => (.ofList text, rest)
  | '\x27' :: rest => (literalText false rest).map fun (text, rest) => (.ofList text, rest)
  | _ => none

/-- A text. A line end right after three marks is not part of it. -/
def textValue (chars : List Char) : Option (String × List Char) :=
  match chars with
  | '\x22' :: '\x22' :: '\x22' :: rest =>
    (escapedText true .closed (skipLineEnd rest)).map fun (text, rest) => (.ofList text, rest)
  | '\x27' :: '\x27' :: '\x27' :: rest =>
    (literalText true (skipLineEnd rest)).map fun (text, rest) => (.ofList text, rest)
  | _ => shortText chars

/-! ## Keys -/

/-- Whether a character may stand in a key without marks. -/
def isBareKeyChar (c : Char) : Bool := c.isAlphanum || c = '_' || c = '-'

/-- One part of a key. -/
def keyPart (chars : List Char) : Option (String × List Char) :=
  let name := chars.takeWhile isBareKeyChar
  if name.isEmpty then shortText chars
  else some (String.ofList name, chars.dropWhile isBareKeyChar)

/-- A key of one or more parts with points between them, at most `count`. -/
def keyPathWithin : Nat → List Char → Option (List String × List Char)
  | 0, _ => none
  | count + 1, chars => do
    let (part, rest) ← keyPart (skipBlanks chars)
    match skipBlanks rest with
    | '.' :: rest => do
      let (parts, rest) ← keyPathWithin count rest
      return (part :: parts, rest)
    | rest => return ([part], rest)

/-- How many levels deep a value or a key may go. -/
def depthLimit : Nat := 79

/-- A key. -/
def keyPath (chars : List Char) : Option (List String × List Char) :=
  keyPathWithin depthLimit chars

end ProjectLens.Toml
