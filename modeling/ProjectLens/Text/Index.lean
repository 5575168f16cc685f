import ProjectLens.Text.Range
import ProjectLens.Text.Span

/-! # The lines of a text

`Index` cuts a text into its lines once and answers every question about places in it: which
position an offset has, which offset a position has, and how character counts relate to UTF-8 byte
counts. Offsets count characters.

* `splitLines`: lines keep their terminator, and there is always a last line without one;
* `Index.toOffset`, `Index.toPosition`, `Index.positionAt`, `Index.spanToRange`;
* `Index.byteToOffset`, `Index.offsetToByte`, `Index.slice`. -/

namespace ProjectLens

/-- The lines of a text, each with its terminating line feed. The last one has none, and is empty
when the text ends with a line feed. -/
def splitLines : List Char → List (List Char)
  | [] => [[]]
  | c :: rest =>
    if c = '\n' then [c] :: splitLines rest
    else match splitLines rest with
      | [] => [[c]]
      | line :: lines => (c :: line) :: lines

/-- What a text uses to end its lines. -/
inductive LineEnding where
  /-- A line feed. -/
  | lf
  /-- A carriage return and a line feed. -/
  | crLf
  deriving DecidableEq, Repr

namespace LineEnding

/-- The characters of a line ending. -/
def text : LineEnding → String
  | .lf => "\n"
  | .crLf => "\r\n"

/-- Whether a carriage return stands right before a line feed somewhere. -/
def hasCrLf : List Char → Bool
  | '\r' :: '\n' :: _ => true
  | _ :: rest => hasCrLf rest
  | [] => false

/-- The line ending of a text: a text without line feeds, or with one after a carriage return,
counts as ending its lines with both. -/
def ofChars (chars : List Char) : LineEnding :=
  if hasCrLf chars || !chars.contains '\n' then .crLf else .lf

end LineEnding

/-- Number of UTF-8 bytes of some characters. -/
def byteLength : List Char → Nat
  | [] => 0
  | c :: rest => c.utf8Size + byteLength rest

/-- Number of characters that start before byte `limit`. -/
def charsBefore : List Char → Nat → Nat
  | [], _ => 0
  | c :: rest, limit => if limit = 0 then 0 else charsBefore rest (limit - c.utf8Size) + 1

/-- A text with its lines. -/
structure Index where
  /-- All characters. -/
  chars : List Char
  /-- The lines, terminators included. -/
  lines : List (List Char)
  deriving Repr

namespace Index

/-- The index of a text. -/
def ofChars (chars : List Char) : Index := ⟨chars, splitLines chars⟩

/-- The index of a text. -/
def ofText (text : String) : Index := ofChars text.toList

/-- The text itself. -/
def text (index : Index) : String := String.ofList index.chars

/-- Number of characters. -/
def length (index : Index) : Nat := index.chars.length

/-- Number of lines. -/
def lineCount (index : Index) : Nat := index.lines.length

/-- The line ending of the text. -/
def lineEnding (index : Index) : LineEnding := LineEnding.ofChars index.chars

/-- Number of characters before line `line`. -/
def lineStart (index : Index) (line : Nat) : Nat := (index.lines.take line).flatten.length

/-- The offset a position stands for, in either basis. The characters of a terminator are
addressable, and on the last line the place after the last character is too. -/
def toOffset (index : Index) (p : Position) : Except PositionError Nat :=
  let zero := p.toZeroBased
  match index.lines[zero.line]? with
  | none => .error (.lineOutOfRange p.line index.lineCount)
  | some line =>
    if zero.column < line.length ∨
        (zero.column = line.length ∧ zero.line + 1 = index.lineCount) then
      .ok (index.lineStart zero.line + zero.column)
    else .error (.columnOutOfRange p.line p.column line.length)

/-- Line and column, counted from zero, of an offset into consecutive lines; an offset past the end
counts on in the last line. -/
def locate : List (List Char) → Nat → Nat × Nat
  | [], offset => (0, offset)
  | [_], offset => (0, offset)
  | line :: next :: lines, offset =>
    if offset < line.length then (0, offset)
    else
      let (row, column) := locate (next :: lines) (offset - line.length)
      (row + 1, column)

/-- The position of an offset, counted from one; an offset past the end is taken for the end. -/
def positionAt (index : Index) (offset : Nat) : Position :=
  let (row, column) := locate index.lines (min offset index.length)
  ⟨row + 1, column + 1, .one⟩

/-- The position of an offset, counted from one. The length of the text is the offset of its end. -/
def toPosition (index : Index) (offset : Nat) : Except PositionError Position :=
  if offset ≤ index.length then .ok (index.positionAt offset)
  else .error (.offsetOutOfRange offset index.length)

/-- The closed range of a span. It ends at the position of the span's end, so a cursor right after
the last character is still on it. -/
def spanToRange (index : Index) (span : Span) : Range :=
  ⟨index.positionAt span.start, index.positionAt (max span.start span.stop)⟩

/-- Number of characters of consecutive lines that start before a byte. -/
def offsetIn : List (List Char) → Nat → Nat
  | [], _ => 0
  | line :: lines, byte =>
    if byte < byteLength line then charsBefore line byte
    else line.length + offsetIn lines (byte - byteLength line)

/-- The character offset of a byte offset; a byte inside a character counts that character. -/
def byteToOffset (index : Index) (byte : Nat) : Nat := offsetIn index.lines byte

/-- Number of bytes of the first characters of consecutive lines. -/
def bytesIn : List (List Char) → Nat → Nat
  | [], _ => 0
  | line :: lines, offset =>
    if offset < line.length then byteLength (line.take offset)
    else byteLength line + bytesIn lines (offset - line.length)

/-- The byte offset of a character offset; an offset past the end is taken for the end. -/
def offsetToByte (index : Index) (offset : Nat) : Nat := bytesIn index.lines offset

/-- The characters of a span. -/
def sliceChars (index : Index) (span : Span) : List Char :=
  (index.chars.drop span.start).take (span.stop - span.start)

/-- The text of a span. -/
def slice (index : Index) (span : Span) : String := String.ofList (index.sliceChars span)

end Index

end ProjectLens
