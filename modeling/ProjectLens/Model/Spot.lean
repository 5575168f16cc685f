import ProjectLens.Model.Basic
import ProjectLens.Model.Flag

/-! # What is at a position

A position falls on the most specific node around it, and there on some part of that node.

* `classify`: the parts of a node that an offset falls on;
* `Spot`, `Model.inspect`. -/

namespace ProjectLens

/-- A flag that is set when something holds. -/
def Flag.when (flag : Flag) (holds : Bool) : List Flag := if holds then [flag] else []

/-- The parts of an element's structure that an offset falls on. An element whose parts can be told
apart has content from the end of its start tag to the start of its end tag, both included. -/
def classifyShape (element : ElementPart) (offset : Nat) : List Flag :=
  match element.shape with
  | .empty => [.empty]
  | .invalid _ => []
  | .withContent .. =>
    let between := match element.startTag, element.endTag with
      | some startTag, some endTag => decide (startTag.stop ≤ offset ∧ offset ≤ endTag.start)
      | _, _ => false
    Flag.openingTag.when (element.startTag.any (·.contains offset)) ++
      Flag.closingTag.when (element.endTag.any (·.contains offset)) ++
      Flag.value.when between

/-- The parts of a node that an offset falls on. Names and tags stop before their ends, the value of
an attribute includes its end. -/
def classify (node : Node) (offset : Nat) : Flags :=
  let validity := Flag.invalid.when (!node.isValid)
  match node.part with
  | .element element =>
    ⟨validity ++ .element :: Flag.name.when (element.nameSpan.contains offset) ++
      Flag.attributes.when (element.attributesSpan.any (·.contains offset)) ++
      classifyShape element offset⟩
  | .attribute attr =>
    ⟨validity ++ .attribute :: Flag.name.when (attr.nameSpan.contains offset) ++
      Flag.value.when (attr.valueSpan.touches offset)⟩
  | .text _ => ⟨validity ++ [.text, .element, .value]⟩
  | .whitespace _ => ⟨validity ++ [.whitespace, .element, .value]⟩

/-- A position with the node it falls on and the parts of that node. -/
structure Spot where
  /-- The position, counted from one. -/
  position : Position
  /-- Its offset. -/
  offset : Nat
  /-- The node it falls on. -/
  node : Node
  /-- The parts of that node it falls on. -/
  flags : Flags
  deriving Repr

namespace Spot

/-- On an element, or on text in it. -/
def isElement (spot : Spot) : Bool := spot.flags.has .element

/-- On an attribute. -/
def isAttribute (spot : Spot) : Bool := spot.flags.has .attribute

/-- On the name of an element. -/
def isElementName (spot : Spot) : Bool := spot.flags.contains ⟨[.element, .name]⟩

/-- On the name of an attribute. -/
def isAttributeName (spot : Spot) : Bool := spot.flags.contains ⟨[.attribute, .name]⟩

/-- On the value of an attribute. -/
def isAttributeValue (spot : Spot) : Bool := spot.flags.contains ⟨[.attribute, .value]⟩

/-- Between the tags of an element, also on text. -/
def isElementContent (spot : Spot) : Bool := spot.flags.contains ⟨[.element, .value]⟩

/-- In a start tag. -/
def isOpeningTag (spot : Spot) : Bool := spot.flags.has .openingTag

/-- In an end tag. -/
def isClosingTag (spot : Spot) : Bool := spot.flags.has .closingTag

/-- Among the attributes of an element, but on none of them. -/
def isBetweenAttributes (spot : Spot) : Bool := spot.flags.contains ⟨[.element, .attributes]⟩

/-- On text. -/
def isText (spot : Spot) : Bool := spot.flags.has .text

/-- On blanks. -/
def isWhitespace (spot : Spot) : Bool := spot.flags.has .whitespace

/-- On an element that closes itself. -/
def isEmptyElement (spot : Spot) : Bool := spot.flags.contains ⟨[.element, .empty]⟩

/-- On a node whose parts could be told apart. -/
def isValid (spot : Spot) : Bool := !spot.flags.has .invalid

end Spot

namespace Model

/-- Where a node ends and the next one in its list starts, the position belongs to the next one. -/
def settle (model : Model) (position : Position) (node : Node) : Node :=
  if position = node.range.stop then
    match model.next? node with
    | some next => if next.range.start = position then next else node
    | none => node
  else node

/-- What is at a position in either basis: nothing when the position is none of the text's or no
node is around it. -/
def inspect (model : Model) (index : Index) (lookup : Lookup Nat) (position : Position) :
    Except PositionError (Option Spot) := do
  let position ← position.toOneBased
  let found ← lookup.find position
  match index.toOffset position, found.bind model.get? with
  | .ok offset, some node =>
    let node := model.settle position node
    return some ⟨position, offset, node, classify node offset⟩
  | _, _ => return none

/-- The element a spot belongs to: its node, or the element around that. -/
def elementAt? (model : Model) (spot : Spot) : Option Node :=
  if spot.node.part.isElement then some spot.node else model.parent? spot.node

end Model

end ProjectLens
