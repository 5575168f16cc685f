import ProjectLens.Markup.Element
import ProjectLens.Model.Node
import ProjectLens.Text.Blank
import ProjectLens.Text.Index

/-! # Nodes that have no numbers yet

The elements of a document are turned into a tree of drafts: what each node is, and the nodes that
belong to it. Numbers, and with them the links between nodes, are given in a second step.

* `Draft`;
* `shapeOf`: the shape of an element and the span of its node;
* `textDrafts`: a run of text falls into blanks, text and blanks;
* `Draft.ofElement`. -/

namespace ProjectLens

/-- A node without a number, with the nodes that belong to it. -/
inductive Draft where
  /-- What it is, the characters it covers, its path, its attributes and its content. -/
  | node (part : Part) (span : Span) (path : Path) (attributes content : List Draft)
  deriving Repr

/-- A node that no other node belongs to. -/
def Draft.leaf (part : Part) (span : Span) (path : Path) : Draft := .node part span path [] []

section Drafting

variable (index : Index)

/-- The range of an element's start tag, or of all of it when the start tag is broken. -/
def openingRange (element : Markup.Element) : Range :=
  index.spanToRange (element.startTag.getD element.span)

/-- The shape of an element that has an end tag. -/
def closedShape (element : Markup.Element) (endTag : Span) : Shape :=
  let whole := index.spanToRange element.span
  let openingTag := openingRange index element
  let closingTag := index.spanToRange endTag
  let content : Range :=
    if openingTag.stop ≤ closingTag.start then ⟨openingTag.stop, closingTag.start⟩ else whole
  if isBlankText element.name || openingTag = whole || closingTag = whole || content = whole then
    .invalid true
  else .withContent openingTag content closingTag

/-- The shape of an element and the span of its node. Without an end tag the node is only as long as
its start tag. -/
def shapeOf (element : Markup.Element) : Shape × Span :=
  if element.selfClosing then
    (if isBlankText element.name then .invalid false else .empty, element.span)
  else match element.endTag with
    | none => (.invalid false, element.startTag.getD element.span)
    | some endTag => (closedShape index element endTag, element.span)

/-- What the node of an element is. -/
def elementPart (element : Markup.Element) : ElementPart :=
  { name := element.name
    qualifier := element.qualifier
    shape := (shapeOf index element).1
    attributesRange := match element.attributesSpan with
      | some span => index.spanToRange span
      | none => openingRange index element
    nameSpan := element.nameSpan
    startTag := element.startTag
    attributesSpan := element.attributesSpan
    endTag := element.endTag }

/-- What the node of an attribute is. It is valid when its name is not blank and neither name nor
value is all of it. -/
def attributePart (attr : Markup.Attribute) : AttributePart :=
  let range := index.spanToRange attr.span
  let nameRange :=
    if attr.nameSpan.isEmpty then range else index.spanToRange attr.nameSpan
  let valueRange := index.spanToRange attr.valueSpan
  { name := attr.name
    value := attr.value
    nameRange, valueRange
    nameSpan := attr.nameSpan
    valueSpan := attr.valueSpan
    valid := !isBlankText attr.name && nameRange ≠ range && valueRange ≠ range }

/-- The node of an attribute. -/
def attributeDraft (path : Path) (attr : Markup.Attribute) : Draft :=
  .leaf (.attribute (attributePart index attr)) attr.span
    (path.join ("@" ++ attr.name))

/-- The segment of an element in paths. -/
def segmentOf (element : Markup.Element) : String :=
  if isBlankText element.name then "#invalid" else element.name

end Drafting

/-- The node of a run of blanks that starts at an offset, unless the run is empty. -/
def whitespaceDraft (path : Path) (start : Nat) (run : List Char) : List Draft :=
  if run.isEmpty then []
  else
    [.leaf (.whitespace (String.ofList run)) ⟨start, start + run.length⟩ (path.join "#whitespace")]

/-- The node of a run of text that starts at an offset, unless the run is empty. -/
def textDraft (path : Path) (start : Nat) (run : List Char) : List Draft :=
  if run.isEmpty then []
  else [.leaf (.text (String.ofList run)) ⟨start, start + run.length⟩ (path.join "#text")]

/-- The nodes of a run of characters that starts at an offset: leading blanks, text, trailing
blanks. -/
def textDrafts (path : Path) (start : Nat) (run : List Char) : List Draft :=
  let leading := run.takeWhile isBlank
  let rest := run.dropWhile isBlank
  let trailing := (rest.reverse.takeWhile isBlank).reverse
  let core := (rest.reverse.dropWhile isBlank).reverse
  whitespaceDraft path start leading ++
    textDraft path (start + leading.length) core ++
    whitespaceDraft path (start + leading.length + core.length) trailing

/-- The node of an element below `path`, with all that belongs to it. Text is kept only where it
lies within the element's node. Elements come after the element they stand in, so this ends. -/
def Draft.ofElement (document : Markup.Document) (index : Index) (path : Path)
    (element : Markup.Element) : Draft :=
  let own := path.join (segmentOf element)
  let span := (shapeOf index element).2
  .node (.element (elementPart index element)) span own
    (element.attributes.map (attributeDraft index own))
    (element.content.flatMap fun
      | .element id =>
        match document.get? id with
        | some child =>
          if element.id < child.id ∧ child.id < document.elements.size then
            [ofElement document index own child]
          else []
        | none => []
      | .text run place =>
        if span.encloses place then textDrafts own place.start run.toList else []
      | .cdata run place =>
        if span.encloses place then textDrafts own place.start run.toList else []
      | .comment .. => [])
termination_by document.elements.size - element.id

/-- The nodes of a document's outermost elements. -/
def Draft.ofDocument (document : Markup.Document) (index : Index) : List Draft :=
  (document.roots.filterMap document.get?).map (Draft.ofElement document index Path.root)

end ProjectLens
