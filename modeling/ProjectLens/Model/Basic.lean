import ProjectLens.Lookup.Forest
import ProjectLens.Model.Draft

/-! # The model of a project file

The nodes of a project file are numbered in the order of discovery: an element, its attributes, then
what stands between its tags.

* `Draft.nodesFrom`: numbers and links;
* `Model`, `Model.ofDocument`;
* `Model.sorted`: the nodes by range;
* `Model.lookup`: finding nodes by position. -/

namespace ProjectLens

namespace Draft

mutual

/-- Number of nodes. -/
def size : Draft → Nat
  | .node _ _ _ attributes content => 1 + sizeAll attributes + sizeAll content

/-- Number of nodes of several drafts. -/
def sizeAll : List Draft → Nat
  | [] => 0
  | draft :: drafts => draft.size + sizeAll drafts

end

/-- The numbers of consecutive drafts, the first one being `id`. -/
def ids (id : Nat) : List Draft → List Nat
  | [] => []
  | draft :: drafts => id :: ids (id + draft.size) drafts

mutual

/-- The nodes of a draft in the order of discovery, numbered from `id`. -/
def nodesFrom (index : Index) (id : Nat) (parent previous next : Option Nat) : Draft → List Node
  | .node part span path attributes content =>
    let inside := id + 1 + sizeAll attributes
    { id, span, path, parent, previous, next, part
      range := index.spanToRange span
      attributes := ids (id + 1) attributes
      content := ids inside content } ::
      (nodesAllFrom index (id + 1) (some id) none attributes ++
        nodesAllFrom index inside (some id) none content)

/-- The nodes of consecutive drafts, which are neighbours. -/
def nodesAllFrom (index : Index) (id : Nat) (parent previous : Option Nat) :
    List Draft → List Node
  | [] => []
  | draft :: drafts =>
    let later := id + draft.size
    nodesFrom index id parent previous (if drafts.isEmpty then none else some later) draft ++
      nodesAllFrom index later parent (some id) drafts

end

end Draft

/-- The nodes of a project file. -/
structure Model where
  /-- The nodes in the order of discovery. -/
  nodes : Array Node
  /-- The outermost elements. -/
  roots : List Nat
  deriving Repr

namespace Model

/-- The model of a document. -/
def ofDocument (document : Markup.Document) (index : Index) : Model :=
  let drafts := Draft.ofDocument document index
  ⟨(Draft.nodesAllFrom index 0 none none drafts).toArray, Draft.ids 0 drafts⟩

/-- Number of nodes. -/
def size (model : Model) : Nat := model.nodes.size

/-- A node by its number. -/
def get? (model : Model) (id : Nat) : Option Node := model.nodes[id]?

/-- The outermost element that comes first. -/
def root? (model : Model) : Option Node := model.roots.head?.bind model.get?

/-- The nodes by range; of equal ranges the node discovered first comes first. -/
def sorted (model : Model) : List Node :=
  model.nodes.toList.mergeSort fun a b => a.range.order b.range ≠ .gt

/-- The element a node belongs to. -/
def parent? (model : Model) (node : Node) : Option Node := node.parent.bind model.get?

/-- The node after a node in the same list. -/
def next? (model : Model) (node : Node) : Option Node := node.next.bind model.get?

/-- The attributes of an element. -/
def attributesOf (model : Model) (node : Node) : List Node := node.attributes.filterMap model.get?

/-- What stands between the tags of an element. -/
def contentOf (model : Model) (node : Node) : List Node := node.content.filterMap model.get?

/-- The elements directly inside an element. -/
def childElements (model : Model) (node : Node) : List Node :=
  (model.contentOf node).filter (·.part.isElement)

/-- The first attribute of an element with a name. -/
def attribute? (model : Model) (node : Node) (name : String) : Option Node :=
  (model.attributesOf node).find? (·.name = name)

/-- Finds nodes by position. -/
def lookup (model : Model) : Lookup Nat :=
  Lookup.ofOneBased (model.nodes.toList.map fun node => (node.range, node.id))

end Model

end ProjectLens
