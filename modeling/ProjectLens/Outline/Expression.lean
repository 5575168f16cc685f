import ProjectLens.Expression.Tree
import ProjectLens.Outline
import ProjectLens.Text.Quoted

/-! # Outlines of expressions -/

namespace ProjectLens

/-- The icon of a kind. -/
def Kind.icon : Kind → String
  | .symbol .. => "◦"
  | .number _ => "#"
  | .quotedString => "\""
  | .quotedLiteral _ => "'"
  | .stringContent _ => "¶"
  | .evaluate => "$"
  | .itemGroup => "@"
  | .itemTransform => "⇒"
  | .itemMetadata => "%"
  | .call .. => "ƒ"
  | .comparison _ => "≟"
  | .logical .and => "∧"
  | .logical .or => "∨"
  | .logical .not => "¬"
  | .list | .simpleList => "☰"
  | .simpleItem _ => "•"
  | .separator _ => ";"
  | .emptyItem => "∅"

/-- The label of a kind: names as they are, texts quoted. -/
def Kind.label (kind : Kind) : String :=
  match kind with
  | .symbol name space => if space.isEmpty then name else space ++ "." ++ name
  | .number value => value
  | .quotedLiteral content => Quoted.ofText content
  | .stringContent content => Quoted.ofText content
  | .simpleItem value => Quoted.ofText value
  | .call name .plain => name ++ "()"
  | .call name .onInstance => "." ++ name ++ "()"
  | .call name .onType => "::" ++ name ++ "()"
  | .comparison .equality => "=="
  | .comparison .inequality => "!="
  | .logical connective => connective.name
  | _ => kind.name

/-- The line of a node, with its span if wanted. -/
def ExprNode.outlineLine (showSpans : Bool) (node : ExprNode) : String :=
  Outline.line node.kind.icon node.kind.label
    (if showSpans then some ("@" ++ toString node.start ++ ".." ++ toString node.stop) else none)

/-- The drawn outline of a tree, with spans if wanted. -/
def ExprTree.outline (tree : ExprTree) (showSpans : Bool) : String :=
  match Outline.grow tree.get? ExprNode.children tree.size 0 with
  | some root => root.draw (ExprNode.outlineLine showSpans)
  | none => ""

end ProjectLens
