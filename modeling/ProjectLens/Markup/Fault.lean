import ProjectLens.Markup.Character
import ProjectLens.Text.Index
import ProjectLens.Text.Quoted

/-! # Faults in markup

Where a document cannot be read as markup, and why. Places are offsets; messages give them as row
and column.

* `Cause`: what was wrong inside a construct;
* `Fault`: which construct could not be read, and where it started. -/

namespace ProjectLens.Markup

/-- What was wrong inside a construct. -/
inductive Cause where
  /-- The text ends too early. -/
  | endOfText
  /-- A name is missing or misformed. -/
  | invalidName
  /-- A character that no document may hold. -/
  | forbiddenChar (found : Char) (offset : Nat)
  /-- Another character than one of those expected. -/
  | unexpectedChar (expected : List Char) (found : Char) (offset : Nat)
  /-- No quotation mark. -/
  | missingQuote (found : Char) (offset : Nat)
  /-- No space. -/
  | missingSpace (found : Char) (offset : Nat)
  /-- None of the texts expected. -/
  | missingText (expected : List String) (offset : Nat)
  /-- No reference to something outside. -/
  | invalidExternalId
  /-- Two hyphens inside a comment. -/
  | hyphensInComment
  /-- A hyphen at the end of a comment. -/
  | hyphenEndsComment
  /-- The end of a character data section inside plain text. -/
  | sectionEndInText
  deriving DecidableEq, Repr

/-- The constructs that can be misformed. -/
inductive Construct where
  /-- The declaration at the start of a document. -/
  | declaration
  /-- A comment. -/
  | comment
  /-- A processing instruction. -/
  | instruction
  /-- The document type. -/
  | doctype
  /-- An entity declaration. -/
  | entity
  /-- The start of a tag, or an end tag. -/
  | element
  /-- An attribute, or the end of a start tag. -/
  | attribute
  /-- A character data section. -/
  | cdata
  /-- Plain text. -/
  | text
  deriving DecidableEq, Repr

/-- The name of a construct in messages. -/
def Construct.name : Construct → String
  | .declaration => "XML declaration"
  | .comment => "comment"
  | .instruction => "processing instruction"
  | .doctype => "DTD"
  | .entity => "DTD entity"
  | .element => "element"
  | .attribute => "attribute"
  | .cdata => "CDATA"
  | .text => "character data"

/-- Where a document cannot be read. -/
inductive Fault where
  /-- Nothing that may stand there starts at an offset. -/
  | unknown (offset : Nat)
  /-- The construct that starts at an offset is misformed. -/
  | invalid (construct : Construct) (offset : Nat) (cause : Cause)
  deriving DecidableEq, Repr

/-- Where a fault is: at the start of what could not be read. -/
def Fault.offset : Fault → Nat
  | .unknown offset => offset
  | .invalid _ offset _ => offset

/-- An offset as row and column, counted from one. -/
def place (index : Index) (offset : Nat) : String :=
  let p := index.positionAt offset
  toString p.line ++ ":" ++ toString p.column

/-- Texts between apostrophes, with commas. -/
def quotedList (texts : List String) : String :=
  ", ".intercalate (texts.map fun text => "'" ++ text ++ "'")

/-- The wording of a cause. A character that was found is shown by its first byte. -/
def Cause.message (index : Index) : Cause → String
  | .endOfText => "unexpected end of stream"
  | .invalidName => "invalid name token"
  | .forbiddenChar found offset =>
    "a non-XML character " ++ Quoted.ofChar found ++ " found at " ++ place index offset
  | .unexpectedChar expected found offset =>
    "expected " ++ quotedList (expected.map fun c => String.ofList [c]) ++ " not '" ++
      String.ofList [leadByte found] ++ "' at " ++ place index offset
  | .missingQuote found offset =>
    "expected quote mark not '" ++ String.ofList [leadByte found] ++ "' at " ++ place index offset
  | .missingSpace found offset =>
    "expected space not '" ++ String.ofList [leadByte found] ++ "' at " ++ place index offset
  | .missingText expected offset =>
    "expected " ++ quotedList expected ++ " at " ++ place index offset
  | .invalidExternalId => "invalid ExternalID"
  | .hyphensInComment => "'--' is not allowed in comments"
  | .hyphenEndsComment => "comment cannot end with '-'"
  | .sectionEndInText => "']]>' is not allowed inside a character data"

/-- The wording of a fault. -/
def Fault.message (index : Index) : Fault → String
  | .unknown offset => "unknown token at " ++ place index offset
  | .invalid construct offset cause =>
    "invalid " ++ construct.name ++ " at " ++ place index offset ++ " cause " ++ cause.message index

end ProjectLens.Markup
