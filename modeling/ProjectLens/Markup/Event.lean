import ProjectLens.Markup.Cursor

/-! # The pieces a document is made of

An event is one piece of markup, or a run of text between pieces, with its place in the document.

* `Event`;
* `tagStart`, `tagRest`, `endTag`, `comment` and so on: the pieces, each read where it starts. -/

namespace ProjectLens.Markup

/-- One piece of a document. -/
inductive Event where
  /-- `<name` -/
  | tagStart (name : QName) (span : Span)
  /-- `name="value"` in a start tag; `valueSpan` is the value without its marks. -/
  | attribute (name : QName) (value : String) (valueSpan span : Span)
  /-- `>` or `/>` -/
  | tagEnd (selfClosing : Bool) (span : Span)
  /-- `</name>` -/
  | endTag (name : QName) (span : Span)
  /-- Text between pieces. -/
  | text (text : String) (span : Span)
  /-- `<![CDATA[text]]>`; `textSpan` is the text alone. -/
  | cdata (text : String) (textSpan span : Span)
  /-- A comment; `text` is what stands between its marks. -/
  | comment (text : String) (span : Span)
  /-- A declaration or an instruction. -/
  | skipped (span : Span)
  deriving DecidableEq, Repr

/-- The characters a piece covers. -/
def Event.span : Event → Span
  | .tagStart _ span => span
  | .attribute _ _ _ span => span
  | .tagEnd _ span => span
  | .endTag _ span => span
  | .text _ span => span
  | .cdata _ _ span => span
  | .comment _ span => span
  | .skipped span => span

/-- What reading one piece gives: the piece and the cursor after it. -/
abbrev Piece := Except Cause (Event × Cursor)

/-- `<name` -/
def tagStart (c : Cursor) : Piece := do
  let (name, after) ← (c.advance 1).qualifiedName
  return (.tagStart name (c.spanTo after), after)

/-- `</name>` -/
def endTag (c : Cursor) : Piece := do
  let (name, after) ← (c.advance 2).qualifiedName
  let after ← after.skipSpaces.expect '>'
  return (.endTag name (c.spanTo after), after)

/-- `name="value"`, `start` being the cursor at the name. -/
def tagAttribute (start : Cursor) : Piece := do
  let (name, after) ← start.qualifiedName
  let (mark, inside) ← (← after.equalsSign).quote
  let (value, after) ← inside.chars fun rest => rest.head?.any fun c => c = mark ∨ c = '<'
  let closed ← after.expect mark
  return (.attribute name (String.ofList value) (inside.spanTo after) (start.spanTo closed), closed)

/-- What goes on a start tag: an attribute after spaces, or the end of the tag. -/
def tagRest (c : Cursor) : Piece :=
  let start := c.skipSpaces
  match start.rest with
  | '/' :: _ => do
    let after ← (start.advance 1).expect '>'
    return (.tagEnd true (start.spanTo after), after)
  | '>' :: _ =>
    let after := start.advance 1
    .ok (.tagEnd false (start.spanTo after), after)
  | _ => do
    if c.startsWithSpace then tagAttribute start
    else throw (.missingSpace (← c.peek) c.offset)

/-- A comment: no two hyphens inside it, and none at its end. -/
def comment (c : Cursor) : Piece := do
  let (text, after) ← (c.advance 4).charsThrough "-->"
  if (text.zip text.tail).contains ('-', '-') then throw .hyphensInComment
  else if text.getLast? = some '-' then throw .hyphenEndsComment
  else return (.comment (String.ofList text) (c.spanTo after), after)

/-- `<![CDATA[text]]>` -/
def cdata (c : Cursor) : Piece := do
  let inside := c.advance 9
  let (text, after) ← inside.charsThrough "]]>"
  return (.cdata (String.ofList text) ⟨inside.offset, inside.offset + text.length⟩
    (c.spanTo after), after)

/-- Whether text holds the end of a character data section. -/
def holdsSectionEnd : List Char → Bool
  | [] => false
  | c :: rest => "]]>".toList.isPrefixOf (c :: rest) || holdsSectionEnd rest

/-- Text up to the next piece of markup. -/
def plainText (c : Cursor) : Piece := do
  let (text, after) ← c.chars fun rest => rest.head? = some '<'
  if holdsSectionEnd text then throw .sectionEndInText
  else return (.text (String.ofList text) (c.spanTo after), after)

/-- A processing instruction. -/
def instruction (c : Cursor) : Piece := do
  let (_, after) ← (c.advance 2).name
  let (_, after) ← after.skipSpaces.charsThrough "?>"
  return (.skipped (c.spanTo after), after)

namespace Declaration

/-- The spaces after a part of the declaration: needed unless it ends there. -/
def gap (c : Cursor) : Except Cause Cursor :=
  if c.startsWithSpace then .ok c.skipSpaces
  else if c.startsWith "?>" then .ok c
  else match c.rest with
    | [] => .ok c
    | found :: _ => .error (.missingSpace found c.offset)

/-- `version = "1.0"` -/
def version (c : Cursor) : Except Cause Cursor := do
  let after ← c.skipSpaces.expectText "version"
  let (mark, inside) ← (← after.equalsSign).quote
  let after ← inside.expectText "1."
  (after.takeWhile isDigit).2.expect mark

/-- Whether a character may stand in the name of an encoding. -/
def isEncodingChar (c : Char) : Bool := isLetter c || isDigit c || c = '.' || c = '-' || c = '_'

/-- `encoding = "name"`, if it is there. -/
def encoding (c : Cursor) : Except Cause Cursor := do
  if c.startsWith "encoding" then
    let (mark, inside) ← (← (c.advance 8).equalsSign).quote
    let after ← (inside.takeWhile isEncodingChar).2.expect mark
    gap after
  else return c

/-- `standalone = "yes"` or `"no"`, if it is there. -/
def standalone (c : Cursor) : Except Cause Cursor := do
  if c.startsWith "standalone" then
    let (mark, inside) ← (← (c.advance 10).equalsSign).quote
    let (value, after) ← inside.name
    if value = "yes".toList ∨ value = "no".toList then after.expect mark
    else throw (.missingText ["yes", "no"] inside.offset)
  else return c

end Declaration

/-- The declaration at the start of a document. -/
def declaration (c : Cursor) : Piece := do
  let after ← Declaration.version (c.advance 6)
  let after ← Declaration.gap after
  let after ← Declaration.encoding after
  let after ← Declaration.standalone after
  let after ← after.skipSpaces.expectText "?>"
  return (.skipped (c.spanTo after), after)

/-- A reference to something outside: `none` when no reference starts here. -/
def externalId (c : Cursor) : Except Cause (Option Cursor) := do
  if c.startsWith "SYSTEM" then
    return some (← (← (c.advance 6).spaces).literal)
  else if c.startsWith "PUBLIC" then
    let after ← (← (c.advance 6).spaces).literal
    return some (← (← after.spaces).literal)
  else return none

/-- The document type up to its bracket; the answer also says whether declarations follow. -/
def doctype (c : Cursor) : Except Cause (Bool × Event × Cursor) := do
  let (_, after) ← (← (c.advance 9).spaces).name
  let before := after.skipSpaces
  let after := ((← externalId before).getD before).skipSpaces
  let found ← after.peek
  if found = '[' ∨ found = '>' then
    let closed := after.advance 1
    return (found = '[', .skipped (c.spanTo closed), closed)
  else throw (.unexpectedChar ['[', '>'] found after.offset)

/-- What an entity stands for. Only a general entity may name the format of what it refers to. -/
def entityDefinition (general : Bool) (c : Cursor) : Except Cause Cursor := do
  let found ← c.peek
  if found = '\x22' ∨ found = '\x27' then c.literal
  else if found = 'S' ∨ found = 'P' then
    match ← externalId c with
    | none => throw .invalidExternalId
    | some after =>
      let next := after.skipSpaces
      if general && next.startsWith "NDATA" then (← (next.advance 5).spaces).skipName
      else return after
  else throw (.unexpectedChar ['\x22', '\x27', 'S', 'P'] found c.offset)

/-- An entity declaration. -/
def entity (c : Cursor) : Piece := do
  let after ← (c.advance 8).spaces
  let general := !after.startsWith "%"
  let after ← if general then pure after else (after.advance 1).spaces
  let (_, after) ← after.name
  let after ← entityDefinition general (← after.spaces)
  let closed ← after.skipSpaces.expect '>'
  return (.skipped (c.spanTo closed), closed)

/-- The end of the declarations of a document type. -/
def doctypeEnd (c : Cursor) : Piece := do
  let closed ← (c.advance 1).skipSpaces.expect '>'
  return (.skipped (c.spanTo closed), closed)

end ProjectLens.Markup
