import ProjectLens.Model.Basic
import ProjectLens.Outline
import ProjectLens.Text.Quoted

/-! # Outlines of models -/

namespace ProjectLens

namespace Node

/-- The icon of a node. -/
def icon (node : Node) : String :=
  match node.part with
  | .element _ => "◇"
  | .attribute _ => "@"
  | .text _ => "¶"
  | .whitespace _ => "␣"

/-- The label of a node: elements as tags, texts and values quoted. -/
def label (node : Node) : String :=
  match node.part with
  | .element element =>
    match element.shape with
    | .empty => "<" ++ element.name ++ "/>"
    | .withContent .. => "<" ++ element.name ++ ">"
    | .invalid _ => "<" ++ element.name ++ "> (invalid)"
  | .attribute attr => attr.name ++ "=" ++ Quoted.ofText attr.value
  | .text run => Quoted.ofText run
  | .whitespace run => Quoted.ofText run

/-- The line of a node, with its range if wanted. -/
def outlineLine (showRanges : Bool) (node : Node) : String :=
  Outline.line node.icon node.label (if showRanges then some node.range.display else none)

end Node

namespace Model

/-- The numbers of the nodes below a node in outlines: its attributes, then its content. -/
def below (node : Node) : List Nat := node.attributes ++ node.content

/-- The outlines of the outermost elements. -/
def outlines (model : Model) : List (Outline Node) :=
  model.roots.filterMap (Outline.grow model.get? below model.size)

/-- The drawn outlines of the outermost elements, with ranges if wanted. -/
def outline (model : Model) (showRanges : Bool) : String :=
  String.join (model.outlines.map (Outline.draw (Node.outlineLine showRanges)))

end Model

end ProjectLens
