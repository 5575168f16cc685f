import ProjectLens.Model.Basic

/-! # The model put together in one walk

The nodes of a project file stand in one row, and they are pushed as they are discovered, on a walk through
the document with a stack of the elements whose content is still being walked. An element is pushed before
its attributes and its content are known, so their numbers are written into its node later: those of the
attributes once these have been pushed, those of the content when the element is closed. What comes before
and after a node in its list is written last of all, list by list.

* `Assembly.openElement`: pushes the node of an element and those of its attributes;
* `Assembly.turn`, `Assembly.run`: the walk;
* `Assembly.linkList`: the links between the nodes of a list;
* `Assembly.build`: all of it. -/

namespace ProjectLens

namespace Assembly

/-- What can go wrong while nodes are put together. -/
inductive Fault where
  /-- A number is that of no element or node. -/
  | missing
  /-- There are more turns than are allowed. -/
  | unfinished
  deriving DecidableEq, Repr

/-- An element whose content is still being walked. -/
structure Frame where
  /-- The number of its node. -/
  id : Nat
  /-- The element. -/
  element : Markup.Element
  /-- The span of its node; content outside of it is dropped. -/
  span : Span
  /-- The path of its node. -/
  path : Path
  /-- The place of the content that comes next. -/
  next : Nat
  /-- The numbers of the content so far. -/
  content : List Nat
  deriving Repr

/-- Nodes and the links between them, as they are stored. -/
structure Stored where
  /-- The nodes in the order of discovery. -/
  nodes : Array Node
  /-- Their numbers by range; of equal ranges the smaller number comes first. -/
  order : List Nat
  /-- The outermost elements. -/
  roots : List Nat
  deriving Repr

/-- What is stored as a model. -/
def Stored.model (stored : Stored) : Model := ⟨stored.nodes, stored.roots⟩

section Walk

variable (document : Markup.Document) (index : Index)

/-- Pushes a node, which gets the next number and no links yet. -/
def push (nodes : Array Node) (parent : Option Nat) (part : Part) (span : Span) (path : Path) :
    Array Node :=
  nodes.push
    { id := nodes.size, span, path, parent, part
      range := index.spanToRange span
      previous := none
      next := none
      attributes := []
      content := [] }

/-- Pushes nodes that belong to `parent`, one after another; with their numbers. -/
def pushAll (parent : Nat) (nodes : Array Node) : List (Part × Span × Path) → Array Node × List Nat
  | [] => (nodes, [])
  | (part, span, path) :: rest =>
    let (later, ids) := pushAll parent (push index nodes (some parent) part span path) rest
    (later, nodes.size :: ids)

/-- Writes into a node. -/
def write (nodes : Array Node) (id : Nat) (change : Node → Node) : Except Fault (Array Node) :=
  if id < nodes.size then .ok (nodes.modify id change) else .error .missing

/-- Writes into a node if it is that of an element. -/
def patch (nodes : Array Node) (id : Nat) (change : Node → Node) : Except Fault (Array Node) :=
  write nodes id fun node => if node.part.isElement then change node else node

/-- What is pushed for an attribute. -/
def attributeLeaf (path : Path) (attr : Markup.Attribute) : Part × Span × Path :=
  (.attribute (attributePart index attr), attr.span, path.join ("@" ++ attr.name))

/-- Pushes the node of an element and those of its attributes, and then writes the numbers of the
attributes into the node. -/
def openElement (nodes : Array Node) (element : Markup.Element) (parent : Option Nat)
    (around : Path) : Except Fault (Array Node × Frame) := do
  let id := nodes.size
  let span := (shapeOf index element).2
  let path := around.join (segmentOf element)
  let nodes := push index nodes parent (.element (elementPart index element)) span path
  let (nodes, attributes) := pushAll index id nodes (element.attributes.map (attributeLeaf index path))
  let nodes ← patch nodes id fun node => { node with attributes }
  return (nodes, ⟨id, element, span, path, 0, []⟩)

/-- What is pushed for a run of blanks that starts at an offset. -/
def whitespaceRun (path : Path) (start : Nat) (run : List Char) : Part × Span × Path :=
  (.whitespace (String.ofList run), ⟨start, start + run.length⟩, path.join "#whitespace")

/-- What is pushed for a run of characters that starts at an offset: nothing, only blanks, or text with
the blanks around it. -/
def textRuns (path : Path) (start : Nat) (run : List Char) : List (Part × Span × Path) :=
  let leading := (run.takeWhile isBlank).length
  let trailing := (run.reverse.takeWhile isBlank).length
  let stop := run.length - trailing
  if run.isEmpty then []
  else if leading = run.length then [whitespaceRun path start run]
  else
    (if 0 < leading then [whitespaceRun path start (run.take leading)] else []) ++
      (.text (String.ofList ((run.take stop).drop leading)), ⟨start + leading, start + stop⟩,
        path.join "#text") ::
      (if 0 < trailing then [whitespaceRun path (start + stop) (run.drop stop)] else [])

/-- Adds a number to the content of the element that is being walked. -/
def adopt (id : Nat) : List Frame → List Frame
  | [] => []
  | frame :: frames => { frame with content := frame.content ++ [id] } :: frames

/-- Pushes the nodes of a run, if that lies within the element's node. -/
def pushText (nodes : Array Node) (frame : Frame) (run : String) (place : Span) :
    Array Node × Frame :=
  if frame.span.encloses place then
    let (nodes, ids) := pushAll index frame.id nodes (textRuns frame.path place.start run.toList)
    (nodes, { frame with content := frame.content ++ ids })
  else (nodes, frame)

/-- One turn of the walk: looks at what comes next in the innermost element, or closes it. -/
def turn (nodes : Array Node) (frame : Frame) (frames : List Frame) :
    Except Fault (Array Node × List Frame) :=
  match frame.element.content[frame.next]? with
  | none => do
    let nodes ← patch nodes frame.id fun node => { node with content := frame.content }
    return (nodes, adopt frame.id frames)
  | some item =>
    let frame := { frame with next := frame.next + 1 }
    match item with
    | .element id =>
      match document.get? id with
      | none => .error .missing
      | some child => do
        let (nodes, opened) ← openElement index nodes child (some frame.id) frame.path
        return (nodes, opened :: frame :: frames)
    | .text run place | .cdata run place =>
      let (nodes, frame) := pushText index nodes frame run place
      return (nodes, frame :: frames)
    | .comment .. => return (nodes, frame :: frames)

/-- Walks on until no element is open any more, in at most some number of turns. -/
def run : Nat → Array Node → List Frame → Except Fault (Array Node)
  | _, nodes, [] => .ok nodes
  | 0, _, _ :: _ => .error .unfinished
  | turns + 1, nodes, frame :: frames => do
    let (nodes, frames) ← turn document index nodes frame frames
    run turns nodes frames

/-- Some numbers together. -/
def total : List Nat → Nat
  | [] => 0
  | n :: ns => n + total ns

/-- The number of turns an element takes: one for each thing in it, those of the elements in it, and one
to close it. Elements come after the element they stand in, so this ends. -/
def turns (document : Markup.Document) (element : Markup.Element) : Nat :=
  total (element.content.map fun
    | .element id =>
      match document.get? id with
      | some child =>
        if element.id < child.id ∧ child.id < document.elements.size then turns document child + 1
        else 1
      | none => 1
    | _ => 1) + 1
termination_by document.elements.size - element.id

/-- Pushes an outermost element with all that is in it; with its number. -/
def pushTree (nodes : Array Node) (root : Markup.Element) : Except Fault (Array Node × Nat) := do
  let (nodes, frame) ← openElement index nodes root none Path.root
  let nodes ← run document index (turns document root) nodes [frame]
  return (nodes, frame.id)

/-- Pushes outermost elements one after another; with their numbers. -/
def pushTrees (nodes : Array Node) : List Nat → Except Fault (Array Node × List Nat)
  | [] => return (nodes, [])
  | root :: roots =>
    match document.get? root with
    | none => .error .missing
    | some root => do
      let (nodes, id) ← pushTree document index nodes root
      let (nodes, ids) ← pushTrees nodes roots
      return (nodes, id :: ids)

end Walk

/-- What comes before and after the node at a place of a list. -/
def linkAt (ids : List Nat) (place : Nat) (node : Node) : Node :=
  { node with
    previous := if place = 0 then none else ids[place - 1]?
    next := ids[place + 1]? }

/-- Links the nodes of a list. -/
def linkList (nodes : Array Node) (ids : List Nat) : Except Fault (Array Node) :=
  ids.zipIdx.foldlM (fun nodes (id, place) => write nodes id (linkAt ids place)) nodes

/-- The lists that nodes stand in. -/
def listsOf (nodes : Array Node) (roots : List Nat) : List (List Nat) :=
  (nodes.toList.filter (·.part.isElement)).flatMap (fun node => [node.attributes, node.content]) ++
    [roots]

/-- The numbers of nodes by range, and of nodes with the same range by number. -/
def orderOf (nodes : Array Node) : List Nat :=
  (nodes.toList.zipIdx.mergeSort fun a b =>
    (a.1.range.order b.1.range).then (compare a.2 b.2) ≠ .gt).map Prod.snd

/-- Puts the nodes of a document together: pushes them, links them and sorts their numbers. -/
def build (document : Markup.Document) (index : Index) : Except Fault Stored := do
  let (nodes, roots) ← pushTrees document index #[] document.roots
  let nodes ← (listsOf nodes roots).foldlM linkList nodes
  return ⟨nodes, orderOf nodes, roots⟩

end Assembly

end ProjectLens
