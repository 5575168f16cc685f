import ProjectLens.Markup.Event

/-! # Going through a document piece by piece

A scanner stands in one part of a document: before its element, among the declarations of its type,
in content, inside a start tag, or after its element. The part decides what may come next.

A document has one element. In a fragment there may be any number of elements, and the scanner never
leaves content for good.

* `Phase`, `Scanner`;
* `Scanner.next`: the next piece, the fault that stops reading, or the end. -/

namespace ProjectLens.Markup

/-- The part of a document a scanner stands in. -/
inductive Phase where
  /-- At the very start, where a declaration may stand. -/
  | opening
  /-- Before the document type. -/
  | prolog
  /-- Among the declarations of the document type. -/
  | doctype
  /-- After the document type, before the element. -/
  | beforeElement
  /-- Between the tags of elements. -/
  | content
  /-- Inside a start tag. -/
  | tag
  /-- After the element. -/
  | epilog
  deriving DecidableEq, Repr

/-- A place in a document together with what may come next. -/
structure Scanner where
  /-- The part of the document. -/
  phase : Phase
  /-- Number of open elements. -/
  depth : Nat
  /-- Whether any number of elements may follow each other. -/
  fragment : Bool
  /-- The place. -/
  cursor : Cursor
  deriving DecidableEq, Repr

/-- What a scanner finds. -/
inductive Step where
  /-- The end of the text. -/
  | done
  /-- A piece, and the scanner after it. -/
  | event (event : Event) (next : Scanner)
  /-- Something that cannot be read. -/
  | fault (fault : Fault)
  deriving DecidableEq, Repr

/-- The character that may stand before a document to mark its encoding. -/
def byteOrderMark : Char := Char.ofNat 0xFEFF

namespace Scanner

/-- A scanner at the start of a document. -/
def ofDocument (chars : List Char) : Scanner :=
  ⟨.opening, 0, false, if chars.head? = some byteOrderMark then ⟨1, chars.tail⟩ else ⟨0, chars⟩⟩

/-- A scanner in content, at an offset of a text. -/
def ofFragment (chars : List Char) (offset : Nat) : Scanner :=
  ⟨.content, 0, true, ⟨offset, chars.drop offset⟩⟩

/-- Reads one piece and goes on in `phase`. -/
def read (s : Scanner) (construct : Construct) (piece : Cursor → Piece) (phase : Phase) : Step :=
  match piece s.cursor with
  | .ok (event, cursor) => .event event { s with phase := phase, cursor := cursor }
  | .error cause => .fault (.invalid construct s.cursor.offset cause)

/-- Nothing that may stand here comes next. -/
def unknown (s : Scanner) : Step := .fault (.unknown s.cursor.offset)

/-- A processing instruction; the declaration of a document may only stand at its start. -/
def instruction (s : Scanner) : Step :=
  if s.cursor.startsWith "<?xml " then s.unknown else s.read .instruction Markup.instruction s.phase

/-- The scanner after the spaces that come next. -/
def skipSpaces (s : Scanner) : Scanner := { s with cursor := s.cursor.skipSpaces }

/-- The phase after a tag at some depth: outside all elements only a fragment goes on with
content. -/
def phaseAt (s : Scanner) (depth : Nat) : Phase :=
  if depth = 0 ∧ s.fragment = false then .epilog else .content

/-- After the document type: up to the element. -/
def beforeElement (s : Scanner) : Step :=
  let s := s.skipSpaces
  if s.cursor.atEnd then .done
  else if s.cursor.startsWith "<!--" then s.read .comment comment .beforeElement
  else if s.cursor.startsWith "<?" then { s with phase := .beforeElement }.instruction
  else if s.cursor.startsWith "<!" then s.unknown
  else if s.cursor.startsWith "<" then s.read .element tagStart .tag
  else s.unknown

/-- Before the document type. -/
def prolog (s : Scanner) : Step :=
  let s := { s.skipSpaces with phase := .prolog }
  if s.cursor.startsWith "<!DOCTYPE" then
    match doctype s.cursor with
    | .ok (declarations, event, cursor) =>
      .event event { s with
        phase := if declarations then .doctype else .beforeElement
        cursor := cursor }
    | .error cause => .fault (.invalid .doctype s.cursor.offset cause)
  else if s.cursor.startsWith "<!--" then s.read .comment comment .prolog
  else if s.cursor.startsWith "<?" then s.instruction
  else s.beforeElement

/-- Whether a declaration that says nothing about places comes next. -/
def atIgnored (s : Scanner) : Bool :=
  s.cursor.startsWith "<!ELEMENT" || s.cursor.startsWith "<!ATTLIST" ||
    s.cursor.startsWith "<!NOTATION"

/-- Skipping spaces never adds to what is left. -/
theorem length_skipSpaces_le (s : Scanner) :
    s.skipSpaces.cursor.rest.length ≤ s.cursor.rest.length :=
  (List.dropWhile_sublist _).length_le

/-- Among the declarations of the document type. Each one that is left out is read to its end, so
the rest gets shorter. -/
def declarations (s : Scanner) : Step :=
  let here := s.skipSpaces
  if here.cursor.atEnd then .done
  else if here.cursor.startsWith "<!ENTITY" then here.read .entity entity .doctype
  else if here.cursor.startsWith "<!--" then here.read .comment comment .doctype
  else if here.cursor.startsWith "<?" then here.instruction
  else if here.cursor.startsWith "]" then here.read .doctype doctypeEnd .beforeElement
  else if here.atIgnored then
    match (here.cursor.takeWhile (· ≠ '>')).2.expect '>' with
    | .error _ => here.unknown
    | .ok after =>
      if after.rest.length < here.cursor.rest.length then declarations { here with cursor := after }
      else here.unknown
  else here.unknown
termination_by s.cursor.rest.length
decreasing_by exact Nat.lt_of_lt_of_le (by assumption) s.length_skipSpaces_le

/-- In content. -/
def inContent (s : Scanner) : Step :=
  match s.cursor.rest with
  | [] => .done
  | '<' :: '!' :: _ =>
    if s.cursor.startsWith "<!--" then s.read .comment comment .content
    else if s.cursor.startsWith "<![CDATA[" then s.read .cdata cdata .content
    else s.unknown
  | '<' :: '?' :: _ => s.instruction
  | '<' :: '/' :: _ =>
    let depth := s.depth - 1
    { s with depth := depth }.read .element endTag (s.phaseAt depth)
  | ['<'] => s.unknown
  | '<' :: _ => s.read .element tagStart .tag
  | _ => s.read .text plainText .content

/-- Inside a start tag. -/
def inTag (s : Scanner) : Step :=
  if s.cursor.atEnd then .done
  else match tagRest s.cursor with
    | .error cause => .fault (.invalid .attribute s.cursor.offset cause)
    | .ok (.tagEnd selfClosing span, cursor) =>
      let depth := if selfClosing then s.depth else s.depth + 1
      .event (.tagEnd selfClosing span)
        { s with phase := s.phaseAt depth, depth := depth, cursor := cursor }
    | .ok (event, cursor) => .event event { s with cursor := cursor }

/-- After the element. -/
def epilog (s : Scanner) : Step :=
  let s := s.skipSpaces
  if s.cursor.atEnd then .done
  else if s.cursor.startsWith "<!--" then s.read .comment comment .epilog
  else if s.cursor.startsWith "<?" then s.instruction
  else s.unknown

/-- The next piece. -/
def next (s : Scanner) : Step :=
  match s.phase with
  | .opening =>
    if s.cursor.startsWith "<?xml " then s.read .declaration declaration .prolog else s.prolog
  | .prolog => s.prolog
  | .doctype => s.declarations
  | .beforeElement => s.beforeElement
  | .content => s.inContent
  | .tag => s.inTag
  | .epilog => s.epilog

end Scanner

end ProjectLens.Markup
