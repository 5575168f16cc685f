import ProjectLens.Markup.Fault

/-! # Reading characters of markup

A cursor stands between two characters of a document. Reading steps give what was read together with
the cursor after it, or the cause why it could not be read.

* `Cursor`, `Cursor.takeWhile`, `Cursor.expect`, `Cursor.expectText`: single steps;
* `Cursor.chars`: a run of characters that a document may hold;
* `Cursor.name`, `Cursor.qualifiedName`: names. -/

namespace ProjectLens.Markup

/-- A place in a document. -/
structure Cursor where
  /-- Number of characters before it. -/
  offset : Nat
  /-- The characters after it. -/
  rest : List Char
  deriving DecidableEq, Repr

/-- A name that may have a qualifier. -/
structure QName where
  /-- What stands before the colon; empty when there is none. -/
  qualifier : List Char
  /-- What stands after the colon, or the whole name. -/
  base : List Char
  /-- Where the name stands: from its qualifier on when that is not empty. -/
  span : Span
  deriving DecidableEq, Repr

/-- The name as it is known: with its qualifier, if that is not empty. -/
def QName.text (name : QName) : String :=
  if name.qualifier.isEmpty then String.ofList name.base
  else String.ofList (name.qualifier ++ ':' :: name.base)

namespace Cursor

/-- Whether there is nothing after the cursor. -/
def atEnd (c : Cursor) : Bool := c.rest.isEmpty

/-- The cursor after some more characters. -/
def advance (c : Cursor) (count : Nat) : Cursor := ⟨c.offset + count, c.rest.drop count⟩

/-- The span from a cursor to a later one. -/
def spanTo (c later : Cursor) : Span := ⟨c.offset, later.offset⟩

/-- Whether a text comes next. -/
def startsWith (c : Cursor) (text : String) : Bool := text.toList.isPrefixOf c.rest

/-- The characters with a property that come next, and the cursor after them. -/
def takeWhile (c : Cursor) (p : Char → Bool) : List Char × Cursor :=
  let taken := c.rest.takeWhile p
  (taken, ⟨c.offset + taken.length, c.rest.dropWhile p⟩)

/-- The cursor after the spaces that come next. -/
def skipSpaces (c : Cursor) : Cursor := (c.takeWhile isSpace).2

/-- Whether a space comes next. -/
def startsWithSpace (c : Cursor) : Bool := c.rest.head?.any isSpace

/-- The next character. -/
def peek (c : Cursor) : Except Cause Char :=
  match c.rest with
  | [] => .error .endOfText
  | next :: _ => .ok next

/-- Reads exactly this character. -/
def expect (c : Cursor) (wanted : Char) : Except Cause Cursor := do
  let found ← c.peek
  if found = wanted then return c.advance 1
  else throw (.unexpectedChar [wanted] found c.offset)

/-- Reads exactly this text. -/
def expectText (c : Cursor) (wanted : String) : Except Cause Cursor :=
  if c.startsWith wanted then .ok (c.advance wanted.length)
  else .error (.missingText [wanted] c.offset)

/-- Reads spaces, at least one. -/
def spaces (c : Cursor) : Except Cause Cursor := do
  let found ← c.peek
  if isSpace found then return c.skipSpaces else throw (.missingSpace found c.offset)

/-- Reads an equals sign with spaces around it. -/
def equalsSign (c : Cursor) : Except Cause Cursor := do
  return (← c.skipSpaces.expect '=').skipSpaces

/-- Reads a quotation mark of either kind. -/
def quote (c : Cursor) : Except Cause (Char × Cursor) := do
  let found ← c.peek
  if found = '\x22' ∨ found = '\x27' then return (found, c.advance 1)
  else throw (.missingQuote found c.offset)

/-- The characters before the first place where `stop` holds of what comes next. -/
def charsBefore (stop : List Char → Bool) (offset : Nat) :
    List Char → Except Cause (List Char × List Char)
  | [] => .ok ([], [])
  | c :: rest =>
    if !isChar c then .error (.forbiddenChar c offset)
    else if stop (c :: rest) then .ok ([], c :: rest)
    else match charsBefore stop (offset + 1) rest with
      | .error cause => .error cause
      | .ok (taken, left) => .ok (c :: taken, left)

/-- Reads characters that a document may hold, up to where `stop` holds of what comes next. -/
def chars (c : Cursor) (stop : List Char → Bool) : Except Cause (List Char × Cursor) := do
  let (taken, left) ← charsBefore stop c.offset c.rest
  return (taken, ⟨c.offset + taken.length, left⟩)

/-- Reads characters up to a text, and that text. -/
def charsThrough (c : Cursor) (closing : String) : Except Cause (List Char × Cursor) := do
  let (taken, after) ← c.chars fun rest => closing.toList.isPrefixOf rest
  return (taken, ← after.expectText closing)

/-- Reads a literal between quotation marks; it may hold anything but the mark. -/
def literal (c : Cursor) : Except Cause Cursor := do
  let (mark, inside) ← c.quote
  (inside.takeWhile (· ≠ mark)).2.expect mark

/-- Reads a name if the text goes on at all. -/
def skipName (c : Cursor) : Except Cause Cursor :=
  match c.rest with
  | [] => .ok c
  | first :: _ =>
    if startsName first then .ok (c.takeWhile continuesName).2 else .error .invalidName

/-- Reads a name. -/
def name (c : Cursor) : Except Cause (List Char × Cursor) :=
  match c.rest with
  | [] => .error .invalidName
  | first :: _ =>
    if startsName first then .ok (c.takeWhile continuesName) else .error .invalidName

/-- Whether a part of a qualified name starts as names do. -/
def startsWell (part : List Char) : Bool := part.head?.all startsName

/-- A qualified name from the characters it is made of, which start at an offset. At most one colon
parts it; the part after it must not be empty. -/
def parted (offset : Nat) (whole : List Char) : Option QName :=
  let front := whole.takeWhile (· ≠ ':')
  match whole.dropWhile (· ≠ ':') with
  | [] => if front.isEmpty || !startsWell front then none
    else some ⟨[], front, ⟨offset, offset + front.length⟩⟩
  | _ :: back =>
    if back.contains ':' || back.isEmpty || !startsWell front || !startsWell back then none
    else
      let start := if front.isEmpty then offset + 1 else offset
      some ⟨front, back, ⟨start, offset + whole.length⟩⟩

/-- Reads a name that may have a qualifier. -/
def qualifiedName (c : Cursor) : Except Cause (QName × Cursor) :=
  let (whole, after) := c.takeWhile continuesName
  match parted c.offset whole with
  | some name => .ok (name, after)
  | none => .error .invalidName

end Cursor

end ProjectLens.Markup
