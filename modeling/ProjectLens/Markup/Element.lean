import ProjectLens.Text.Export

/-! # Documents as read

A document is an array of elements in the order their tags start. Elements know each other by their
places in it. All spans count characters of the document.

* `Element`, `Attribute`, `Content`, `Location`;
* `Document`. -/

namespace ProjectLens.Markup

/-- Where an element or attribute stands: its range, how deep, and its name. -/
structure Location where
  /-- The closed range. -/
  range : Range
  /-- Number of elements around it. -/
  depth : Nat
  /-- Its name. -/
  name : String
  deriving DecidableEq, Repr

/-- An attribute of a start tag. -/
structure Attribute where
  /-- The name, with its qualifier. -/
  name : String
  /-- The value as written. -/
  value : String
  /-- From the name to the closing mark. -/
  span : Span
  /-- The name alone. -/
  nameSpan : Span
  /-- The value without its marks. -/
  valueSpan : Span
  /-- Where it stands. -/
  location : Location
  deriving DecidableEq, Repr

/-- What may stand between the tags of an element. -/
inductive Content where
  /-- Another element. -/
  | element (id : Nat)
  /-- Text. -/
  | text (text : String) (span : Span)
  /-- The text of a character data section. -/
  | cdata (text : String) (span : Span)
  /-- A comment. -/
  | comment (text : String) (span : Span)
  deriving DecidableEq, Repr

/-- An element. -/
structure Element where
  /-- Its place in the document's array. -/
  id : Nat
  /-- The name, with its qualifier; blank when markup could not be read as a tag. -/
  name : String
  /-- What stands before the colon of the name. -/
  qualifier : String
  /-- All of it. -/
  span : Span
  /-- The name in the start tag. -/
  nameSpan : Span
  /-- The start tag, unless that is broken. -/
  startTag : Option Span
  /-- From the first attribute to the last. -/
  attributesSpan : Option Span
  /-- The end tag, if there is one. -/
  endTag : Option Span
  /-- Whether the start tag closes itself. -/
  selfClosing : Bool
  /-- The attributes in order. -/
  attributes : List Attribute
  /-- What stands between the tags, in order. -/
  content : List Content
  /-- The element around it. -/
  parent : Option Nat
  /-- Where it stands. -/
  location : Location
  deriving DecidableEq, Repr

namespace Element

/-- The name without its qualifier. -/
def localName (element : Element) : String :=
  match element.name.toList.dropWhile (· ≠ ':') with
  | [] => element.name
  | _ :: rest => String.ofList rest

/-- Whether an end tag or the start tag itself closes it. -/
def isClosed (element : Element) : Bool := element.selfClosing || element.endTag.isSome

/-- The first attribute with a name. -/
def attribute? (element : Element) (name : String) : Option Attribute :=
  element.attributes.find? (·.name = name)

/-- The elements directly inside it. -/
def childElements (element : Element) : List Nat :=
  element.content.filterMap fun
    | .element id => some id
    | _ => none

end Element

/-- A document as read. -/
structure Document where
  /-- The elements in the order their tags start. -/
  elements : Array Element
  /-- The elements that stand in no other one. -/
  roots : List Nat
  deriving Repr

namespace Document

/-- An element by its place. -/
def get? (document : Document) (id : Nat) : Option Element := document.elements[id]?

/-- The outermost element that comes first. -/
def root? (document : Document) : Option Element := document.roots.head?.bind document.get?

/-- Where every element and attribute stands, in order. -/
def locations (document : Document) : List Location :=
  document.elements.toList.flatMap fun element =>
    element.location :: element.attributes.map Attribute.location

end Document

/-- A location in structured output. -/
def Location.toJson (l : Location) : Json :=
  .obj [("range", l.range.toJson), ("depth", .num l.depth), ("name", .str l.name)]

/-- An attribute in structured output. -/
def Attribute.toJson (a : Attribute) : Json :=
  .obj [("name", .str a.name), ("value", .str a.value), ("span", a.span.toJson),
    ("name_span", a.nameSpan.toJson), ("value_span", a.valueSpan.toJson),
    ("location", a.location.toJson)]

/-- Content in structured output. -/
def Content.toJson : Content → Json
  | .element id => .obj [("type", .str "element"), ("id", .num id)]
  | .text run span => .obj [("type", .str "text"), ("text", .str run), ("span", span.toJson)]
  | .cdata run span => .obj [("type", .str "cdata"), ("text", .str run), ("span", span.toJson)]
  | .comment run span => .obj [("type", .str "comment"), ("text", .str run), ("span", span.toJson)]

/-- An element in structured output. -/
def Element.toJson (e : Element) : Json :=
  .obj [("id", .num e.id), ("name", .str e.name), ("prefix", .str e.qualifier),
    ("span", e.span.toJson), ("name_span", e.nameSpan.toJson),
    ("start_tag", Json.opt Span.toJson e.startTag),
    ("attributes_span", Json.opt Span.toJson e.attributesSpan),
    ("end_tag", Json.opt Span.toJson e.endTag), ("is_empty", .bool e.selfClosing),
    ("attributes", Json.list Attribute.toJson e.attributes),
    ("content", Json.list Content.toJson e.content), ("location", e.location.toJson)]

/-- A document in structured output. -/
def Document.toJson (d : Document) : Json :=
  .obj [("elements", Json.list Element.toJson d.elements.toList),
    ("roots", Json.list Json.num d.roots)]

end ProjectLens.Markup
