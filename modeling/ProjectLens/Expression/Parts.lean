import ProjectLens.Expression.Tree
import ProjectLens.Text.Blank

/-! # The parts of expression nodes

What the children of a node mean, by the kind of the node. A question that does not fit the kind has
no answer. -/

namespace ProjectLens.ExprTree

/-- A child of a node by its place. -/
def child? (tree : ExprTree) (node : ExprNode) (place : Nat) : Option ExprNode :=
  (node.children[place]?).bind tree.get?

/-- The item type that an item reference or a transform names. -/
def itemName? (tree : ExprTree) (node : ExprNode) : Option String :=
  match node.kind with
  | .itemGroup | .itemTransform => (tree.child? node 0).bind ExprNode.name?
  | _ => none

/-- What a transform makes of each item. -/
def transformBody? (tree : ExprTree) (node : ExprNode) : Option ExprNode :=
  match node.kind with
  | .itemTransform => tree.child? node 1
  | _ => none

/-- The text a transform puts between items. -/
def transformSeparator? (tree : ExprTree) (node : ExprNode) : Option String :=
  match node.kind with
  | .itemTransform =>
    match (tree.child? node 2).map ExprNode.kind with
    | some (.quotedLiteral content) => some content
    | _ => none
  | _ => none

/-- The metadata that `%(Name)` or `%(Type.Name)` names. -/
def metadataName? (tree : ExprTree) (node : ExprNode) : Option String :=
  match node.kind with
  | .itemMetadata => (node.children.getLast?.bind tree.get?).bind ExprNode.name?
  | _ => none

/-- The item type that `%(Type.Name)` is qualified by. -/
def metadataItemType? (tree : ExprTree) (node : ExprNode) : Option String :=
  match node.kind with
  | .itemMetadata =>
    if node.children.length = 2 then (tree.child? node 0).bind ExprNode.name? else none
  | _ => none

/-- The decoded text of a quoted string, without the references in it. -/
def stringContent? (tree : ExprTree) (node : ExprNode) : Option String :=
  match node.kind with
  | .quotedString =>
    some (String.join ((tree.childrenOf node).filterMap fun child =>
      match child.kind with
      | .stringContent content => some content
      | _ => none))
  | .quotedLiteral content => some content
  | .stringContent content => some content
  | _ => none

/-- The property references among the children. -/
def evaluations (tree : ExprTree) (node : ExprNode) : List ExprNode :=
  (tree.childrenOf node).filter (·.kind = .evaluate)

/-- The receiver of a call. -/
def functionTarget? (tree : ExprTree) (node : ExprNode) : Option ExprNode :=
  match node.kind with
  | .call _ form => if form.hasTarget then tree.child? node 0 else none
  | _ => none

/-- The arguments of a call. -/
def functionArguments (tree : ExprTree) (node : ExprNode) : List ExprNode :=
  match node.kind with
  | .call _ form => (tree.childrenOf node).drop (if form.hasTarget then 1 else 0)
  | _ => []

/-- The first operand of a comparison or a condition. -/
def left? (tree : ExprTree) (node : ExprNode) : Option ExprNode :=
  match node.kind with
  | .comparison _ | .logical _ => tree.child? node 0
  | _ => none

/-- The second operand of a comparison or a joined condition. -/
def right? (tree : ExprTree) (node : ExprNode) : Option ExprNode :=
  match node.kind with
  | .comparison _ | .logical .and | .logical .or => tree.child? node 1
  | _ => none

/-- Whether a name is there and not blank. -/
def isNamed : Option String → Bool
  | some name => !isBlankText name
  | none => false

/-- Whether a node is complete. Incomplete references parse as well, so that they can be looked at
while they are being written. -/
def isValid (tree : ExprTree) (node : ExprNode) : Bool :=
  match node.kind with
  | .evaluate => node.children.length = 1
  | .itemGroup => isNamed (tree.itemName? node)
  | .itemTransform => 2 ≤ node.children.length
  | .itemMetadata => isNamed (tree.metadataName? node)
  | _ => true

end ProjectLens.ExprTree
