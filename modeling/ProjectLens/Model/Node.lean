import ProjectLens.Model.Path
import ProjectLens.Text.Export

/-! # The nodes of a project file

Every element, attribute, run of text and run of blanks of a project file is a node with its place,
its path and its neighbours.

* `Shape`: how much of an element's structure could be told apart;
* `Part`: what a node is;
* `Node`. -/

namespace ProjectLens

/-- How much of an element's structure could be told apart. -/
inductive Shape where
  /-- Both tags are there, and the three parts are ranges of their own. -/
  | withContent (openingTag content closingTag : Range)
  /-- The start tag closes the element. -/
  | empty
  /-- The name is blank, the end tag is missing, or the parts cannot be told apart. -/
  | invalid (hasContent : Bool)
  deriving DecidableEq, Repr

/-- What is known of an element apart from its neighbours. -/
structure ElementPart where
  /-- The name, with its qualifier. -/
  name : String
  /-- What stands before the colon of the name. -/
  qualifier : String
  /-- How much of its structure could be told apart. -/
  shape : Shape
  /-- The attributes, or the start tag when there are none. -/
  attributesRange : Range
  /-- The name in the start tag. -/
  nameSpan : Span
  /-- The start tag, unless that is broken. -/
  startTag : Option Span
  /-- From the first attribute to the last. -/
  attributesSpan : Option Span
  /-- The end tag, if there is one. -/
  endTag : Option Span
  deriving DecidableEq, Repr

/-- What is known of an attribute apart from its neighbours. -/
structure AttributePart where
  /-- The name, with its qualifier. -/
  name : String
  /-- The value as written. -/
  value : String
  /-- The name alone. -/
  nameRange : Range
  /-- The value without its marks. -/
  valueRange : Range
  /-- The name alone, in characters. -/
  nameSpan : Span
  /-- The value without its marks, in characters. -/
  valueSpan : Span
  /-- Whether name and value could be told apart. -/
  valid : Bool
  deriving DecidableEq, Repr

/-- What a node is. -/
inductive Part where
  /-- An element. -/
  | element (element : ElementPart)
  /-- An attribute. -/
  | attribute (attr : AttributePart)
  /-- Text that neither starts nor ends with a blank. -/
  | text (text : String)
  /-- Blanks. -/
  | whitespace (text : String)
  deriving DecidableEq, Repr

namespace Part

/-- The name of a kind of node. -/
def kindName : Part → String
  | .element _ => "Element"
  | .attribute _ => "Attribute"
  | .text _ => "Text"
  | .whitespace _ => "Whitespace"

/-- The name of a kind of node in structured output. -/
def kindTag : Part → String
  | .element _ => "element"
  | .attribute _ => "attribute"
  | .text _ => "text"
  | .whitespace _ => "whitespace"

/-- The name of an element or attribute; runs of text have made-up ones. -/
def name : Part → String
  | .element own => own.name
  | .attribute own => own.name
  | .text _ => "#text"
  | .whitespace _ => "#whitespace"

/-- The element that this is. -/
def element? : Part → Option ElementPart
  | .element own => some own
  | _ => none

/-- The attribute that this is. -/
def attribute? : Part → Option AttributePart
  | .attribute own => some own
  | _ => none

/-- The text of a run. -/
def text? : Part → Option String
  | .text run => some run
  | .whitespace run => some run
  | _ => none

/-- Whether this is an element. -/
def isElement (part : Part) : Bool := part.element?.isSome

end Part

namespace Shape

/-- Whether the parts could be told apart. -/
def isValid : Shape → Bool
  | .invalid _ => false
  | _ => true

/-- Whether there is something between the tags. -/
def hasContent : Shape → Bool
  | .withContent .. => true
  | .empty => false
  | .invalid hasContent => hasContent

/-- A shape in structured output. -/
def toJson : Shape → Json
  | .withContent openingTag content closingTag =>
    .obj [("shape", .str "with-content"), ("opening_tag", openingTag.toJson),
      ("content", content.toJson), ("closing_tag", closingTag.toJson)]
  | .empty => .obj [("shape", .str "empty")]
  | .invalid hasContent => .obj [("shape", .str "invalid"), ("has_content", .bool hasContent)]

end Shape

/-- Whether an attribute declares a namespace. -/
def AttributePart.isNamespaceDeclaration (attr : AttributePart) : Bool :=
  attr.name = "xmlns" || "xmlns:".toList.isPrefixOf attr.name.toList

/-- A node with its place and its neighbours, which are known by their numbers. -/
structure Node where
  /-- Its number in the order of discovery. -/
  id : Nat
  /-- The closed range. -/
  range : Range
  /-- The characters it covers. -/
  span : Span
  /-- The path from the root. -/
  path : Path
  /-- The element it belongs to. -/
  parent : Option Nat
  /-- The node before it in the same list. -/
  previous : Option Nat
  /-- The node after it in the same list. -/
  next : Option Nat
  /-- What it is. -/
  part : Part
  /-- The attributes of an element, in order. -/
  attributes : List Nat
  /-- Elements, text and blanks between the tags of an element, in order. -/
  content : List Nat
  deriving DecidableEq, Repr

namespace Node

/-- The name of a node. -/
def name (node : Node) : String := node.part.name

/-- Whether the parts of the node could be told apart. -/
def isValid (node : Node) : Bool :=
  match node.part with
  | .element element => element.shape.isValid
  | .attribute attr => attr.valid
  | .text _ | .whitespace _ => true

/-- What a node is, in structured output. -/
def partMembers (node : Node) : List (String × Json) :=
  match node.part with
  | .element element =>
    [("name", .str element.name), ("prefix", .str element.qualifier),
      ("shape", element.shape.toJson), ("attributes_range", element.attributesRange.toJson),
      ("attributes", Json.list Json.num node.attributes),
      ("content", Json.list Json.num node.content)]
  | .attribute attr =>
    [("name", .str attr.name), ("value", .str attr.value),
      ("name_range", attr.nameRange.toJson), ("value_range", attr.valueRange.toJson),
      ("valid", .bool attr.valid)]
  | .text run => [("text", .str run)]
  | .whitespace run => [("text", .str run)]

/-- A node in structured output. -/
def toJson (node : Node) : Json :=
  .obj ([("id", .num node.id), ("range", node.range.toJson), ("path", .str node.path.display),
    ("kind", .str node.part.kindTag)] ++ node.partMembers)

end Node

end ProjectLens
