import ProjectLens.Expression.Expr
import ProjectLens.Text.Index

/-! # Expression trees as numbered nodes

For navigation an expression is laid out as an array of nodes in preorder, each node being known by
its place in it. Links to parents and siblings are added in a second step.

* `ExprNode`, `ExprTree`, `ExprTree.ofExpr`;
* `ExprTree.link`: parent and sibling links;
* `ExprTree.ancestors`, `ExprTree.descendants`;
* `ExprTree.deepestAt`, `ExprTree.itemAt`: what stands at an offset;
* `ExprTree.rangeOf`: a node's place in the document its text was taken from. -/

namespace ProjectLens

/-- One node of an expression tree. -/
structure ExprNode where
  /-- Its place in preorder. -/
  id : Nat
  /-- What it is. -/
  kind : Kind
  /-- Offset of its first character. -/
  start : Nat
  /-- Number of characters. -/
  length : Nat
  /-- Its children in order. -/
  children : List Nat
  /-- The node it is a child of, once linked. -/
  parent : Option Nat
  /-- The child before it, once linked. -/
  previous : Option Nat
  /-- The child after it, once linked. -/
  next : Option Nat
  deriving DecidableEq, Repr

namespace ExprNode

/-- Offset just after its last character. -/
def stop (node : ExprNode) : Nat := node.start + node.length

/-- The characters it covers. -/
def span (node : ExprNode) : Span := ⟨node.start, node.stop⟩

/-- Whether it covers no character: an empty slot, or a name not written yet. -/
def isVirtual (node : ExprNode) : Bool := node.length = 0

/-- The name of a symbol or a call. -/
def name? (node : ExprNode) : Option String :=
  match node.kind with
  | .symbol name _ => some name
  | .call name _ => some name
  | _ => none

/-- Whether a child is the one at an offset: it covers its characters, and one that covers none its
start. -/
def claims (node : ExprNode) (offset : Nat) : Bool :=
  if node.length = 0 then offset = node.start else node.start ≤ offset ∧ offset < node.stop

/-- A node in structured output. -/
def toJson (node : ExprNode) : Json :=
  .obj (("id", .num node.id) :: node.kind.members ++
    [("start", .num node.start), ("length", .num node.length),
      ("children", Json.list Json.num node.children)])

end ExprNode

namespace Expr

/-- The numbers of consecutive subtrees, the first one starting at `id`. -/
def childIds (id : Nat) : List Expr → List Nat
  | [] => []
  | expr :: exprs => id :: childIds (id + expr.size) exprs

mutual

/-- The nodes of an expression in preorder, numbered from `id`. -/
def nodesFrom (id : Nat) : Expr → List ExprNode
  | .node kind span children =>
    ⟨id, kind, span.start, span.length, childIds (id + 1) children, none, none, none⟩ ::
      nodesAllFrom (id + 1) children

/-- The nodes of consecutive expressions. -/
def nodesAllFrom (id : Nat) : List Expr → List ExprNode
  | [] => []
  | expr :: exprs => nodesFrom id expr ++ nodesAllFrom (id + expr.size) exprs

end

end Expr

/-- The nodes of an expression in preorder. -/
structure ExprTree where
  /-- The nodes; the first one is the root. -/
  nodes : Array ExprNode
  /-- Whether parent and sibling links are set. -/
  linked : Bool
  deriving Repr

/-- Why the nodes of a tree cannot be linked. -/
inductive LinkError where
  /-- A child covers text that its parent does not. -/
  | childEscapes
  deriving DecidableEq, Repr

/-- The wording of a link error. -/
def LinkError.message : LinkError → String
  | .childEscapes => "child span escapes its parent"

/-- The links of one node. -/
structure Links where
  /-- The node that is linked. -/
  id : Nat
  /-- Its parent. -/
  parent : Nat
  /-- The child before it. -/
  previous : Option Nat
  /-- The child after it. -/
  next : Option Nat
  deriving DecidableEq, Repr

/-- The links of consecutive children, `previous` being the one before them. -/
def childLinks (parent : Nat) (previous : Option Nat) : List Nat → List Links
  | [] => []
  | child :: rest => ⟨child, parent, previous, rest.head?⟩ :: childLinks parent (some child) rest

namespace ExprTree

/-- The tree of an expression, not linked yet. -/
def ofExpr (expr : Expr) : ExprTree := ⟨(expr.nodesFrom 0).toArray, false⟩

/-- Number of nodes. -/
def size (tree : ExprTree) : Nat := tree.nodes.size

/-- A node by its number. -/
def get? (tree : ExprTree) (id : Nat) : Option ExprNode := tree.nodes[id]?

/-- The root. -/
def root? (tree : ExprTree) : Option ExprNode := tree.get? 0

/-- The children of a node. -/
def childrenOf (tree : ExprTree) (node : ExprNode) : List ExprNode :=
  node.children.filterMap tree.get?

/-- Whether every child lies within its parent. -/
def isNested (tree : ExprTree) : Bool :=
  tree.nodes.all fun node => (tree.childrenOf node).all fun child => node.span.encloses child.span

/-- The tree with the links that the lists of children give. -/
def withLinks (tree : ExprTree) : ExprTree :=
  let links := tree.nodes.toList.flatMap fun node => childLinks node.id none node.children
  let set (nodes : Array ExprNode) (l : Links) : Array ExprNode :=
    nodes.modify l.id fun node =>
      { node with parent := some l.parent, previous := l.previous, next := l.next }
  ⟨links.foldl set tree.nodes, true⟩

/-- Links a tree whose children lie within their parents. A linked tree stays as it is. -/
def link (tree : ExprTree) : Except LinkError ExprTree :=
  if tree.linked then .ok tree
  else if tree.isNested then .ok tree.withLinks
  else .error .childEscapes

/-- Parent, grandparent and so on of node `id`. A parent comes before its children in preorder, so
this ends. -/
def ancestorsFrom (tree : ExprTree) (id : Nat) : List Nat :=
  match tree.get? id with
  | some node =>
    match node.parent with
    | some parent => if parent < id then parent :: ancestorsFrom tree parent else []
    | none => []
  | none => []
termination_by id

/-- Parent, grandparent and so on up to the root. -/
def ancestors (tree : ExprTree) (node : ExprNode) : List Nat := tree.ancestorsFrom node.id

/-- Every node below node `id`, in preorder. Children come after their parent, so this ends. -/
def descendantsFrom (tree : ExprTree) (id : Nat) : List Nat :=
  match tree.get? id with
  | some node => node.children.flatMap fun child =>
      if id < child ∧ child < tree.size then child :: descendantsFrom tree child else []
  | none => []
termination_by tree.size - id

/-- Every node below a node, in preorder. -/
def descendants (tree : ExprTree) (node : ExprNode) : List Nat := tree.descendantsFrom node.id

/-- Goes down from a node to the first child that claims an offset, as long as there is one. -/
def descend (tree : ExprTree) (offset : Nat) (node : ExprNode) : ExprNode :=
  match (tree.childrenOf node).find? (·.claims offset) with
  | some child =>
    if node.id < child.id ∧ child.id < tree.size then descend tree offset child else node
  | none => node
termination_by tree.size - node.id

/-- The innermost node at an offset. The root covers both of its ends, so a cursor right after the
expression is still on it. -/
def deepestAt (tree : ExprTree) (offset : Nat) : Option ExprNode :=
  match tree.root? with
  | none => none
  | some root => if root.span.touches offset then some (tree.descend offset root) else none

/-- Whether a node is a list of either kind. -/
def isList (node : ExprNode) : Bool :=
  match node.kind with
  | .list | .simpleList => true
  | _ => false

/-- The item a cursor belongs to among the children `before` and `after` a candidate, the last child
that starts at or before the cursor. On a separator, the places up to its semicolon belong to the
item before and the others to the item after. -/
def itemNear (before after : List ExprNode) (candidate : ExprNode) (offset : Nat) :
    Except PositionError (Option ExprNode) :=
  match candidate.kind with
  | .separator shift => do
    let semicolon ← Position.add candidate.start shift
    if offset ≤ semicolon then return before.reverse.find? (·.kind.isItem)
    else return after.find? (·.kind.isItem)
  | _ => .ok (some candidate)

/-- The list item a cursor belongs to. -/
def itemAt (tree : ExprTree) (offset : Nat) : Except PositionError (Option ExprNode) :=
  match tree.root? with
  | none => .ok none
  | some root =>
    if isList root then
      let children := tree.childrenOf root
      -- the children from the last one back, without those that start after the cursor
      match children.reverse.dropWhile (fun child => offset < child.start) with
      | [] => .ok none
      | candidate :: earlier =>
        itemNear earlier.reverse (children.drop (earlier.length + 1)) candidate offset
    else .ok none

/-- The children of the root that are not separators. -/
def listItems (tree : ExprTree) : List ExprNode :=
  match tree.root? with
  | none => []
  | some root => (tree.childrenOf root).filter (·.kind.isItem)

/-- The place of a node in a document, given the offset there of the text that was parsed. -/
def rangeOf (node : ExprNode) (base : Nat) (index : Index) : Except PositionError Range := do
  let start ← index.toPosition (← Position.add base node.start)
  let stop ← index.toPosition (← Position.add base node.stop)
  Range.ofEnds start stop

/-- A tree in structured output. -/
def toJson (tree : ExprTree) : Json := .obj [("nodes", Json.list ExprNode.toJson tree.nodes.toList)]

end ExprTree

end ProjectLens
