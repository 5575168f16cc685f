import ProjectLens.Diagnostic.Sink
import ProjectLens.Expression.Parse
import ProjectLens.Markup.Reader
import ProjectLens.Model.Spot

/-! # One reading of a project file

A snapshot holds all that follows from a text: its lines, its elements, its model, and what there
was to say about it. It answers what is at a position and which expression stands there.

* `Snapshot.ofText`, `Snapshot.readInto`;
* `Snapshot.nodeAt`, `Snapshot.inspect`;
* `Snapshot.expressionAt`: the expression under a cursor. -/

namespace ProjectLens

/-- What follows from the text of a project file. -/
structure Snapshot where
  /-- The text with its lines. -/
  index : Index
  /-- The elements as read. -/
  document : Markup.Document
  /-- The nodes. -/
  model : Model
  /-- Finds nodes by position. -/
  lookup : Lookup Nat
  /-- What there was to say, without traces. -/
  diagnostics : List Diagnostic

/-- The expression under a cursor. -/
structure Found where
  /-- The attribute or text it stands in. -/
  source : Node
  /-- Offset of its first character in the document. -/
  base : Nat
  /-- What it was parsed as. -/
  form : Form
  /-- The tree, or what is wrong. -/
  result : Except Complaint ExprTree
  /-- The innermost expression node at the cursor. -/
  node : Option ExprNode

namespace Snapshot

/-- The snapshot of a document that was read from a text. -/
def ofDocument (index : Index) (document : Markup.Document) (diagnostics : List Diagnostic) :
    Snapshot :=
  let model := Model.ofDocument document index
  ⟨index, document, model, model.lookup, diagnostics⟩

/-- Reads a text; whatever there is to say also goes into a sink, as it comes up. -/
def readInto (text : String) (sink : Sink) : Snapshot × Sink :=
  let index := Index.ofText text
  let (document, reports, sink) := Markup.readDocumentInto index ((⟨[]⟩ : Reports), sink)
  (ofDocument index document reports.kept, sink)

/-- Reads a text. -/
def ofText (text : String) : Snapshot :=
  let index := Index.ofText text
  let (document, diagnostics) := Markup.readDocument index
  ofDocument index document (diagnostics.filter fun d => !d.isTrace)

/-- The most specific node at a position in either basis. -/
def nodeAt (s : Snapshot) (position : Position) : Except PositionError (Option Node) := do
  return (← s.lookup.find position).bind s.model.get?

/-- What is at a position in either basis. -/
def inspect (s : Snapshot) (position : Position) : Except PositionError (Option Spot) :=
  s.model.inspect s.index s.lookup position

/-- What is at an offset. -/
def inspectOffset (s : Snapshot) (offset : Nat) : Except PositionError (Option Spot) :=
  match s.index.toPosition offset with
  | .ok position => s.inspect position
  | .error _ => .ok none

/-- Whether an attribute of this name holds a condition; letter case does not matter. -/
def isCondition (name : String) : Bool := name.toList.map Char.toLower = "condition".toList

/-- Where the expression at a spot stands and what it is to be parsed as: a value, or text. -/
def expressionPlace (spot : Spot) : Option (Span × Form) :=
  match spot.node.part with
  | .attribute attr =>
    if spot.isAttributeValue then
      some (attr.valueSpan, if isCondition attr.name then .root else .list)
    else none
  | .text _ => some (spot.node.span, .list)
  | _ => none

/-- Parses a text; what is not a list of expressions is a plain list. -/
def parseLeniently (form : Form) (text : String) : Form × Except Complaint ExprTree :=
  match form with
  | .root => (.root, parseAs .root text)
  | _ =>
    match parseAs .list text with
    | .ok tree => (.list, .ok tree)
    | .error _ => (.simpleList, parseAs .simpleList text)

/-- The expression at a spot. -/
def expressionOn (s : Snapshot) (spot : Spot) : Option Found :=
  (expressionPlace spot).map fun (span, wanted) =>
    let (form, result) := parseLeniently wanted (s.index.slice span)
    let node := match result with
      | .ok tree => tree.deepestAt (spot.offset - span.start)
      | .error _ => none
    ⟨spot.node, span.start, form, result, node⟩

/-- The expression at a position in either basis. -/
def expressionAt (s : Snapshot) (position : Position) : Except PositionError (Option Found) := do
  return (← s.inspect position).bind s.expressionOn

end Snapshot

namespace Found

/-- The tree, if the text parses. -/
def tree? (found : Found) : Option ExprTree := found.result.toOption

/-- What is wrong, if the text does not parse. -/
def complaints (found : Found) : List Complaint :=
  match found.result with
  | .ok _ => []
  | .error complaint => [complaint]

/-- The place of an expression node in the document. -/
def rangeOf (found : Found) (index : Index) (node : ExprNode) : Except PositionError Range :=
  ExprTree.rangeOf node found.base index

end Found

end ProjectLens
