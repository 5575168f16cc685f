import ProjectLens.Diagnostic.Sink
import ProjectLens.Markup.Element
import ProjectLens.Markup.Scanner
import ProjectLens.Text.Alphanumeric

/-! # Reading documents that may be broken

The reader builds a document from the pieces the scanner finds. Text that is being edited is rarely
well-formed, so a fault does not end reading: the fault is reported, the tag at hand is closed or
salvaged, and reading goes on at the next `<` as in a fragment.

* `Reader`: the document so far and the elements that are still open;
* `Reader.take`: one more piece;
* `Reader.recover`: what to do about a fault, and where to go on;
* `readDocument`. -/

namespace ProjectLens.Markup

/-- An element that is still open. -/
structure Frame where
  /-- The element. -/
  element : Nat
  /-- Whether its start tag has not ended yet. -/
  inStartTag : Bool
  deriving DecidableEq, Repr

/-- A document in the making, with what takes the diagnostics: all of them are kept unless another
receiver is named. -/
structure Reader (σ : Type := Array Diagnostic) where
  /-- The elements so far. -/
  elements : Array Element
  /-- The outermost elements so far. -/
  roots : List Nat
  /-- The open elements, innermost first. -/
  stack : List Frame
  /-- The receiver of what there was to say so far. -/
  diagnostics : σ
  deriving Repr

namespace Reader

/-- A reader that has not read anything and says what it has to say to a receiver. -/
def into {σ : Type} (receiver : σ) : Reader σ := ⟨#[], [], [], receiver⟩

/-- A reader that has not read anything. -/
def start : Reader := into #[]

section Reading

variable {σ : Type} (index : Index)

/-- Changes an element. -/
def update (r : Reader σ) (id : Nat) (f : Element → Element) : Reader σ :=
  { r with elements := r.elements.modify id f }

/-- The name of an element. -/
def nameOf (r : Reader σ) (id : Nat) : String := (r.elements[id]?.map Element.name).getD ""

/-- The span of an element. -/
def spanOf (r : Reader σ) (id : Nat) : Span := (r.elements[id]?.map Element.span).getD default

/-- Whether a start tag is being read. -/
def inStartTag (r : Reader σ) : Bool := r.stack.head?.any Frame.inStartTag

/-- Adds content to an element. -/
def addContent (r : Reader σ) (id : Nat) (content : Content) : Reader σ :=
  r.update id fun element => { element with content := element.content ++ [content] }

/-- Adds an element inside the innermost open one. -/
def newElement (r : Reader σ) (name qualifier : String) (span nameSpan : Span) : Reader σ :=
  let id := r.elements.size
  let parent := r.stack.head?.map Frame.element
  let element : Element :=
    { id, name, qualifier, span, nameSpan, parent
      startTag := none
      attributesSpan := none
      endTag := none
      selfClosing := false
      attributes := []
      content := []
      location := ⟨index.spanToRange span, r.stack.length, name⟩ }
  let r := { r with elements := r.elements.push element }
  match parent with
  | some parent => r.addContent parent (.element id)
  | none => { r with roots := r.roots ++ [id] }

/-- Text and comments belong to the innermost open element, once its start tag has ended. -/
def keep (r : Reader σ) (content : Content) : Reader σ :=
  match r.stack with
  | ⟨id, false⟩ :: _ => r.addContent id content
  | _ => r

variable [Receiver σ]

/-- Says something about a span, to a receiver that may not want to hear it. -/
def say (r : Reader σ) (severity : Severity) (span : Span) (message : String) : Reader σ :=
  { r with
    diagnostics := Receiver.give
      ⟨severity, .reader, message, some (index.spanToRange span)⟩ r.diagnostics }

/-- Notes where an element that ends here stands. -/
def finishElement (r : Reader σ) (id : Nat) : Reader σ :=
  let r := r.update id fun element =>
    { element with location := { element.location with range := index.spanToRange element.span } }
  r.say index .trace (r.spanOf id) ("closed element #" ++ toString id)

/-- Ends an element that nothing closes, at an offset. -/
def closeUnclosed (r : Reader σ) (id stop : Nat) : Reader σ :=
  let r := r.update id fun element =>
    { element with span := ⟨element.span.start, max stop element.span.start⟩ }
  let r := r.say index .warning (Span.emptyAt (r.spanOf id).start)
    ("element <" ++ r.nameOf id ++ "> is not closed")
  r.finishElement index id

/-- The start of a tag opens an element. -/
def openElement (r : Reader σ) (name : QName) (span : Span) : Reader σ :=
  let id := r.elements.size
  let r := r.newElement index name.text (String.ofList name.qualifier) span name.span
  let r := r.say index .trace (Span.emptyAt span.start) ("opened element #" ++ toString id)
  { r with stack := ⟨id, true⟩ :: r.stack }

/-- An attribute belongs to the element whose start tag is being read. -/
def addAttribute (r : Reader σ) (name : QName) (value : String) (valueSpan span : Span) : Reader σ :=
  match r.stack with
  | ⟨id, true⟩ :: _ =>
    let location : Location := ⟨index.spanToRange span, r.stack.length, name.text⟩
    let r := r.say index .trace span ("captured attribute " ++ name.text)
    r.update id fun element =>
      { element with
        attributesSpan := some (match element.attributesSpan with
          | some block => ⟨block.start, span.stop⟩
          | none => span)
        span := ⟨element.span.start, span.stop⟩
        attributes := element.attributes ++
          [⟨name.text, value, span, name.span, valueSpan, location⟩] }
  | _ => r

/-- The end of a start tag; an element that closes itself ends there. -/
def endStartTag (r : Reader σ) (selfClosing : Bool) (span : Span) : Reader σ :=
  match r.stack with
  | [] => r
  | ⟨id, _⟩ :: below =>
    let r := r.update id fun element =>
      { element with
        startTag := some ⟨element.span.start, span.stop⟩
        span := ⟨element.span.start, span.stop⟩
        selfClosing := element.selfClosing || selfClosing }
    if selfClosing then { r with stack := below }.finishElement index id
    else { r with stack := ⟨id, false⟩ :: below }

/-- An end tag closes the innermost open element of its name; those inside it are left unclosed. -/
def closeElement (r : Reader σ) (name : QName) (span : Span) : Reader σ :=
  let isOther (frame : Frame) : Bool := r.nameOf frame.element ≠ name.text
  match r.stack.dropWhile isOther with
  | [] =>
      r.say index .warning span
        ("closing tag </" ++ name.text ++ "> does not match any open element")
  | ⟨id, _⟩ :: below =>
    let r := (r.stack.takeWhile isOther).foldl
      (fun r frame => r.closeUnclosed index frame.element span.start) r
    let r := r.update id fun element =>
      { element with endTag := some span, span := ⟨element.span.start, span.stop⟩ }
    { r with stack := below }.finishElement index id

/-- Takes one more piece. -/
def take (r : Reader σ) : Event → Reader σ
  | .tagStart name span => r.openElement index name span
  | .attribute name value valueSpan span => r.addAttribute index name value valueSpan span
  | .tagEnd selfClosing span => r.endStartTag index selfClosing span
  | .endTag name span => r.closeElement index name span
  | .text text span => r.keep (.text text span)
  | .cdata text textSpan _ => r.keep (.cdata text textSpan)
  | .comment text span => r.keep (.comment text span)
  | .skipped span => r.say index .trace span "skipped markup declaration"

/-- Whether a character may belong to the name of a broken tag. -/
def isSalvageable (c : Char) : Bool :=
  isAlphanumeric c || c = '_' || c = '-' || c = '.' || c = ':'

/-- Makes an element without attributes and content from a tag that cannot be read. -/
def salvage (r : Reader σ) (junk : Span) : Reader σ :=
  let inside := index.sliceChars ⟨junk.start + 1, junk.stop⟩
  let name := inside.takeWhile isSalvageable
  let qualifier := if name.contains ':' then name.takeWhile (· ≠ ':') else []
  let id := r.elements.size
  let r := r.newElement index (String.ofList name) (String.ofList qualifier) junk
    ⟨junk.start + 1, junk.start + 1 + name.length⟩
  let r := r.say index .trace junk ("salvaged broken tag as element #" ++ toString id)
  r.finishElement index id

/-- The offset of the last `<` in a span. -/
def lastTag? (span : Span) : Option Nat :=
  let back := (index.sliceChars span).reverse
  if back.contains '<' then some (span.start + (back.dropWhile (· ≠ '<')).length - 1) else none

/-- The offset of the first `<` at or after an offset. -/
def nextTag? (offset : Nat) : Option Nat :=
  let rest := index.chars.drop offset
  if rest.contains '<' then some (offset + (rest.takeWhile (· ≠ '<')).length) else none

/-- Deals with a fault at or after `lastGood`, the end of the last piece that was read, and says
where to go on. A tag that was refused is first tried again as a fragment, which helps where only
its place in the document was wrong; `retried` says that this has been done. -/
def recover (r : Reader σ) (lastGood faultAt : Nat) (retried : Bool) (message : String) :
    Reader σ × Option Nat :=
  let junkStart := (lastTag? index ⟨lastGood, faultAt⟩).getD lastGood
  let rest := index.chars.drop junkStart
  let atTag := rest.head? = some '<'
  if atTag && !r.inStartTag && !retried then (r, some junkStart)
  else
    let resume := nextTag? index (max faultAt (junkStart + 1))
    let junk : Span := ⟨junkStart, resume.getD index.length⟩
    let r := r.say index .error (Span.emptyAt junkStart) message
    if r.inStartTag then
      match r.stack with
      | [] => (r, resume)
      | frame :: below =>
          ({ r with stack := below }.closeUnclosed index frame.element junk.stop, resume)
    else if atTag && !"</".toList.isPrefixOf rest then (r.salvage index junk, resume)
    else (r.say index .trace junk "skipped unreadable markup", resume)

/-- Ends all elements that are still open. -/
def finish (r : Reader σ) : Reader σ :=
  let length := index.length
  let r := r.stack.foldl (fun r frame => r.closeUnclosed index frame.element length) r
  { r with stack := [] }

end Reading

end Reader

/-- How far reading has come. -/
structure Progress where
  /-- End of the last piece that was read. -/
  lastGood : Nat
  /-- Where reading last went on after a fault. -/
  resumed : Option Nat
  deriving DecidableEq, Repr

namespace Progress

/-- Whether nothing has been read since reading went on after a fault. -/
def isRetry (p : Progress) : Bool := p.resumed = some p.lastGood

/-- What is left to do: every piece, and every new place to go on at, makes it less. -/
def left (p : Progress) (length : Nat) : Nat :=
  2 * (length - p.lastGood) + if p.isRetry then 0 else 1

end Progress

/-- Reads on from a scanner's place. -/
def readFrom {σ : Type} [Receiver σ] (index : Index) (r : Reader σ) (scanner : Scanner)
    (p : Progress) : Reader σ :=
  match scanner.next with
  | .done => r.finish index
  | .event event next =>
    let later : Progress := ⟨event.span.stop, p.resumed⟩
    if later.left index.length < p.left index.length then
      readFrom index (r.take index event) next later
    else r.finish index
  | .fault fault =>
    let faultAt := max fault.offset p.lastGood
    match r.recover index p.lastGood faultAt p.isRetry (fault.message index) with
    | (after, none) => after.finish index
    | (after, some resume) =>
      let later : Progress := ⟨resume, some resume⟩
      if later.left index.length < p.left index.length then
        readFrom index after (Scanner.ofFragment index.chars resume) later
      else after.finish index
termination_by p.left index.length
decreasing_by all_goals assumption

/-- Reads a text into a document; what there is to say goes to a receiver as it comes up. -/
def readDocumentInto {σ : Type} [Receiver σ] (index : Index) (receiver : σ) : Document × σ :=
  let r := readFrom index (Reader.into receiver) (Scanner.ofDocument index.chars) ⟨0, none⟩
  (⟨r.elements, r.roots⟩, r.diagnostics)

/-- Reads a text into a document; also gives all there was to say, traces included. -/
def readDocument (index : Index) : Document × List Diagnostic :=
  let (document, diagnostics) := readDocumentInto index (#[] : Array Diagnostic)
  (document, diagnostics.toList)

end ProjectLens.Markup
