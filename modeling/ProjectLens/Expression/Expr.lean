import ProjectLens.Text.Span
import ProjectLens.Json

/-! # Expressions

The tree an expression text stands for. Every node has a kind, the span of the text it covers and
its children; spans are relative to the parsed text.

* `Kind`: what a node is, `Kind.name` and `Kind.tag` its names;
* `Expr`: the tree. -/

namespace ProjectLens

/-- How a function is called. -/
inductive FunctionForm where
  /-- `Name(arguments)` -/
  | plain
  /-- `Target.Name(arguments)` -/
  | onInstance
  /-- `[Type]::Name(arguments)` -/
  | onType
  deriving DecidableEq, Repr

namespace FunctionForm

/-- Whether the first child of a call is its receiver. -/
def hasTarget : FunctionForm → Bool
  | .plain => false
  | _ => true

/-- The name of a form. -/
def tag : FunctionForm → String
  | .plain => "global"
  | .onInstance => "instance-method"
  | .onType => "static-method"

end FunctionForm

/-- What a comparison asks. -/
inductive Comparison where
  /-- `==` -/
  | equality
  /-- `!=` -/
  | inequality
  deriving DecidableEq, Repr

/-- The name of a comparison. -/
def Comparison.tag : Comparison → String
  | .equality => "equality"
  | .inequality => "inequality"

/-- What joins or turns round conditions. -/
inductive Connective where
  /-- Both operands hold. -/
  | and
  /-- One of the operands holds. -/
  | or
  /-- The operand does not hold. -/
  | not
  deriving DecidableEq, Repr

namespace Connective

/-- The tag of a connective. -/
def tag : Connective → String
  | .and => "and"
  | .or => "or"
  | .not => "not"

/-- The name of a connective. -/
def name : Connective → String
  | .and => "And"
  | .or => "Or"
  | .not => "Not"

end Connective

/-- What a node of an expression is. -/
inductive Kind where
  /-- An identifier, or a type reference when `space`, the part before its last period, is not
  empty. -/
  | symbol (name space : String)
  /-- A numeric argument, as written. -/
  | number (value : String)
  /-- `'...'`, with plain runs and references as children. -/
  | quotedString
  /-- `'...'` without references. -/
  | quotedLiteral (content : String)
  /-- A plain run inside a quoted string, escapes decoded. -/
  | stringContent (content : String)
  /-- `$(...)`; its child is a symbol or a call. -/
  | evaluate
  /-- `@(Name)`; its child, if any, is the name. -/
  | itemGroup
  /-- `@(Name->'body', 'separator')`; its children are the name, then body and separator if
  given. -/
  | itemTransform
  /-- `%(Type.Name)`; its children are the type if given and the name, or none. -/
  | itemMetadata
  /-- A call; its children are the receiver if there is one and the arguments. -/
  | call (name : String) (form : FunctionForm)
  /-- A comparison of two children. -/
  | comparison (relation : Comparison)
  /-- A condition made of one child or two. -/
  | logical (connective : Connective)
  /-- Expressions separated by semicolons. -/
  | list
  /-- Texts separated by semicolons. -/
  | simpleList
  /-- One text of a simple list. -/
  | simpleItem (value : String)
  /-- A semicolon with the white space around it; `offset` is where the semicolon stands in it. -/
  | separator (offset : Nat)
  /-- A list item of no character. -/
  | emptyItem
  deriving DecidableEq, Repr

namespace Kind

/-- The name of a kind. -/
def name : Kind → String
  | .symbol .. => "Symbol"
  | .number _ => "Number"
  | .quotedString => "QuotedString"
  | .quotedLiteral _ => "QuotedStringLiteral"
  | .stringContent _ => "StringContent"
  | .evaluate => "Evaluate"
  | .itemGroup => "ItemGroup"
  | .itemTransform => "ItemGroupTransform"
  | .itemMetadata => "ItemMetadata"
  | .call .. => "FunctionCall"
  | .comparison _ => "Comparison"
  | .logical _ => "Logical"
  | .list => "List"
  | .simpleList => "SimpleList"
  | .simpleItem _ => "SimpleListItem"
  | .separator _ => "ListSeparator"
  | .emptyItem => "EmptyListItem"

/-- The tag of a kind in structured output. -/
def tag : Kind → String
  | .symbol .. => "symbol"
  | .number _ => "number"
  | .quotedString => "quoted-string"
  | .quotedLiteral _ => "quoted-string-literal"
  | .stringContent _ => "string-content"
  | .evaluate => "evaluate"
  | .itemGroup => "item-group"
  | .itemTransform => "item-group-transform"
  | .itemMetadata => "item-metadata"
  | .call .. => "function-call"
  | .comparison _ => "comparison"
  | .logical _ => "logical"
  | .list => "list"
  | .simpleList => "simple-list"
  | .simpleItem _ => "simple-list-item"
  | .separator _ => "list-separator"
  | .emptyItem => "empty-list-item"

/-- What a kind carries, as members of structured output. -/
def fields : Kind → List (String × Json)
  | .symbol name space => [("name", .str name), ("namespace", .str space)]
  | .number value => [("value", .str value)]
  | .quotedLiteral content => [("content", .str content)]
  | .stringContent content => [("content", .str content)]
  | .call name form => [("name", .str name), ("function", .str form.tag)]
  | .comparison relation => [("comparison", .str relation.tag)]
  | .logical connective => [("operator", .str connective.tag)]
  | .simpleItem value => [("value", .str value)]
  | .separator offset => [("separator_offset", .num offset)]
  | _ => []

/-- A kind as members of structured output, its tag first. -/
def members (kind : Kind) : List (String × Json) := ("kind", .str kind.tag) :: kind.fields

/-- Whether a child of a list is one of its items. -/
def isItem : Kind → Bool
  | .separator _ => false
  | _ => true

end Kind

/-- An expression: a node with its span and its children. -/
inductive Expr where
  /-- A node. -/
  | node (kind : Kind) (span : Span) (children : List Expr)
  deriving Repr

namespace Expr

instance : Inhabited Expr := ⟨.node .emptyItem ⟨0, 0⟩ []⟩

/-- A node without children. -/
def leaf (kind : Kind) (span : Span) : Expr := .node kind span []

/-- What the root is. -/
def kind : Expr → Kind
  | .node kind _ _ => kind

/-- The span of the root. -/
def span : Expr → Span
  | .node _ span _ => span

/-- The children of the root. -/
def children : Expr → List Expr
  | .node _ _ children => children

/-- The same expression over another span: parentheses add nothing else. -/
def withSpan (span : Span) : Expr → Expr
  | .node kind _ children => .node kind span children

/-- An identifier. -/
def symbol (name : String) (span : Span) : Expr := leaf (.symbol name "") span

/-- Two conditions joined, over the text of both. -/
def join (connective : Connective) (left right : Expr) : Expr :=
  .node (.logical connective) ⟨left.span.start, right.span.stop⟩ [left, right]

mutual

/-- Number of nodes. -/
def size : Expr → Nat
  | .node _ _ children => sizeAll children + 1

/-- Number of nodes of several expressions. -/
def sizeAll : List Expr → Nat
  | [] => 0
  | expr :: exprs => size expr + sizeAll exprs

end

end Expr

end ProjectLens
