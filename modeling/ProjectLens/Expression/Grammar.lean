import ProjectLens.Expression.Expr
import ProjectLens.Expression.Rule

/-! # The grammar of expressions

The rules, alternatives being tried in order:

```text
root         := ws (grouped | expression | quotedString) ws end
expression   := conjunction (Or conjunction)*
conjunction  := unary (And unary)*
unary        := (Not | '!') unary | primary
primary      := grouped | comparison | functionCall | itemTransform | itemGroup | itemMetadata
              | quotedString | evaluate | symbol
comparison   := operand ('==' | '!=') operand
operand      := quotedString | evaluate | symbol
evaluate     := '$(' (functionCall | symbol) ')'
itemGroup    := '@(' symbol? ')'
itemTransform := '@(' symbol '->' (quotedString (',' quotedLiteral)?)? ')'
itemMetadata := '%(' ((symbol '.' name?) | symbol)? ')'
functionCall := staticCall | instanceCall | globalCall
staticCall   := '[' type ']' '::' identifier arguments
instanceCall := symbol '.' identifier arguments
globalCall   := identifier arguments
arguments    := '(' ((number | expression) (',' (number | expression))*)? ')'
number       := '-'? digits ('.' digits)?
quotedString := "'" (evaluate | itemMetadata | itemGroup | plain)* "'"
list         := item? (';' item?)*
simpleList   := text (';' text)*
```

White space is allowed between the parts of a construct, but not inside a type reference.

The rules refer to `expression` only after a parenthesis has been read. So they are written over
that rule as a parameter, and `expressionWithin` ties the knot with as many levels as there are
tokens. -/

namespace ProjectLens.Grammar

open Rule

/-- The white space between parts. -/
def ws : Rule Unit := (satisfying Token.isWhitespace).many.map fun _ => ()

/-- An identifier. -/
def identifier : Rule String :=
  (token [] fun
    | .identifier name => some name
    | _ => none).labelled "identifier"

/-- A keyword, in any letter case. -/
def keyword (word : String) : Rule Unit :=
  ((satisfying (Token.isKeyword word)).map fun _ => ()).labelled word

/-- An identifier as an expression. -/
def symbol : Rule Expr := identifier.spanned Expr.symbol

/-- A run of digits. -/
def digits : Rule String :=
  token [] fun
    | .number digits => some digits
    | _ => none

/-- The text of a number from its sign, its whole part and its fraction. -/
def numberText (sign : Option Unit) (whole : String) (fraction : Option String) : String :=
  (if sign.isSome then "-" else "") ++ whole ++
    match fraction with
    | some fraction => "." ++ fraction
    | none => ""

/-- A numeric argument. -/
def number : Rule Expr :=
  ((((just (.other '-')).optional.andThen digits).andThen
    ((just .period).skipThen digits).optional).spanned
      fun ((sign, whole), fraction) span =>
        Expr.leaf (.number (numberText sign whole fraction)) span).labelled "number"

/-- A type reference from its segments: the last one is the name. -/
def typeSymbol (segments : List String) (span : Span) : Expr :=
  Expr.leaf (.symbol (segments.getLast?.getD "") (".".intercalate segments.dropLast)) span

/-- `[Namespace.Type]` -/
def typeRef : Rule Expr :=
  (((just .openBracket).skipThen (sepByOne identifier (just .period))).thenSkip
    (just .closeBracket)).spanned typeSymbol |>.labelled "type reference"

/-- The text that tokens contribute to a string. -/
def decode (tokens : List Token) : String := String.join (tokens.map Token.decoded)

/-- A quoted string without references. -/
def quotedLiteral : Rule Expr :=
  (((just .quote).skipThen (satisfying fun t => t ≠ .quote).many).thenSkip (just .quote)).spanned
    (fun tokens span => Expr.leaf (.quotedLiteral (decode tokens)) span)
    |>.labelled "string literal"

/-- The name after the period of a metadata reference; right after it white space counts as a name,
which is being typed. -/
def metadataName : Rule Expr :=
  symbol.orElse ((satisfying Token.isWhitespace).spanned fun t span => Expr.symbol t.text span)

/-- A metadata name with its item type; a missing name is an empty one after the period. -/
def qualifiedMetadata : Rule (List Expr) :=
  (((symbol.thenSkip ws).andThen ((just .period).spanned fun _ span => span)).andThen
    metadataName.optional).map fun ((itemType, period), name) =>
      [itemType, name.getD (Expr.symbol "" (Span.emptyAt period.stop))]

/-- `%(Name)`, `%(Type.Name)` and what is written on the way there. -/
def itemMetadata : Rule Expr :=
  ((((just .itemMetadataOpen).skipThen ws).skipThen
    (qualifiedMetadata.orElse (symbol.map fun name => [name])).optional).thenSkip ws).thenSkip
      (just .closeParen)
    |>.spanned (fun children span => .node .itemMetadata span (children.getD []))
    |>.labelled "metadata reference"

/-- `@(Name)` -/
def itemGroup : Rule Expr :=
  ((((just .itemGroupOpen).skipThen ws).skipThen symbol.optional).thenSkip ws).thenSkip
      (just .closeParen)
    |>.spanned (fun name span => .node .itemGroup span name.toList)
    |>.labelled "item reference"

/-- Whether a token belongs to a plain run inside a quoted string. -/
def isPlain : Token → Bool
  | .quote | .evaluateOpen | .itemMetadataOpen | .itemGroupOpen => false
  | _ => true

/-- A plain run inside a quoted string. -/
def plain : Rule Expr :=
  (satisfying isPlain).oneOrMore.spanned fun tokens span =>
    Expr.leaf (.stringContent (decode tokens)) span

/-- `==` or `!=` -/
def comparisonOperator : Rule Comparison :=
  choice [(just .equals).map fun _ => .equality, (just .notEquals).map fun _ => .inequality]

section Recursive

variable (expression : Rule Expr)

/-- The arguments of a call. -/
def argumentList : Rule (List Expr) :=
  ((((just .openParen).skipThen ws).skipThen
    (sepBy ((number.orElse expression).thenSkip ws) ((just .comma).thenSkip ws))).thenSkip
      (just .closeParen)).labelled "argument list"

/-- `Name(arguments)` -/
def globalCall : Rule Expr :=
  (identifier.andThen (argumentList expression)).spanned
    fun (name, arguments) span => .node (.call name .plain) span arguments

/-- `Target.Name(arguments)` -/
def instanceCall : Rule Expr :=
  (((symbol.thenSkip (just .period)).andThen identifier).andThen (argumentList expression)).spanned
    fun ((target, name), arguments) span =>
      .node (.call name .onInstance) span (target :: arguments)

/-- `[Type]::Name(arguments)` -/
def staticCall : Rule Expr :=
  (((typeRef.thenSkip (just .doubleColon)).andThen identifier).andThen
    (argumentList expression)).spanned
    fun ((target, name), arguments) span => .node (.call name .onType) span (target :: arguments)

/-- A call of any form. -/
def functionCall : Rule Expr :=
  (choice [staticCall expression, instanceCall expression, globalCall expression]).labelled
    "function call"

/-- `$(...)` -/
def evaluate : Rule Expr :=
  ((((just .evaluateOpen).skipThen ws).skipThen
    (choice [functionCall expression, symbol])).thenSkip ws).thenSkip (just .closeParen)
    |>.spanned (fun inner span => .node .evaluate span [inner])
    |>.labelled "property reference"

/-- `'...'` with references. -/
def quotedString : Rule Expr :=
  (((just .quote).skipThen
    (choice [evaluate expression, itemMetadata, itemGroup, plain]).many).thenSkip (just .quote))
    |>.spanned (fun children span => .node .quotedString span children)
    |>.labelled "quoted string"

/-- The separator of a transform. -/
def transformSeparator : Rule Expr :=
  ((ws.skipThen (just .comma)).skipThen ws).skipThen quotedLiteral

/-- `@(Name->'body', 'separator')` -/
def itemTransform : Rule Expr :=
  (((((((just .itemGroupOpen).skipThen ws).skipThen symbol).thenSkip ws).thenSkip
    (just .arrow)).thenSkip ws).andThen
      ((quotedString expression).andThen transformSeparator.optional).optional
    |>.thenSkip ws).thenSkip (just .closeParen)
    |>.spanned (fun (name, body) span =>
      .node .itemTransform span (name :: match body with
        | none => []
        | some (body, separator) => body :: separator.toList))
    |>.labelled "item transform"

/-- One side of a comparison. -/
def operand : Rule Expr := choice [quotedString expression, evaluate expression, symbol]

/-- Two sides with `==` or `!=` between them. -/
def comparison : Rule Expr :=
  (((((operand expression).thenSkip ws).andThen comparisonOperator).thenSkip ws).andThen
    (operand expression)).spanned
    (fun ((left, relation), right) span => .node (.comparison relation) span [left, right])
    |>.labelled "comparison"

/-- A parenthesised expression: the node inside, over a wider span. -/
def grouped : Rule Expr :=
  ((((just .openParen).skipThen ws).skipThen expression).thenSkip ws).thenSkip (just .closeParen)
    |>.spanned (fun inner span => inner.withSpan span)
    |>.labelled "group"

/-- What a condition is made of. -/
def primary : Rule Expr :=
  choice [grouped expression, comparison expression, functionCall expression,
    itemTransform expression, itemGroup, itemMetadata, quotedString expression,
    evaluate expression, symbol]

/-- A primary after any number of negations, at most `depth` of them. -/
def unaryWithin : Nat → Rule Expr
  | 0 => primary expression
  | depth + 1 =>
    (((choice [just .bang, keyword "not"]).thenSkip ws).skipThen (unaryWithin depth)).spanned
      (fun inner span => .node (.logical .not) span [inner])
      |>.orElse (primary expression)

/-- A primary after any number of negations: each takes a token, so there are no more of them than
tokens that are left. -/
def unary : Rule Expr := ⟨fun input => (unaryWithin expression (input.left + 1)).run input⟩

/-- Conditions joined by `and`. -/
def conjunction : Rule Expr :=
  ((unary expression).andThen
    (((ws.skipThen (keyword "and")).skipThen ws).skipThen (unary expression)).many).map
    fun (first, rest) => rest.foldl (Expr.join .and) first

/-- Conditions joined by `or`, whose operands may be joined by `and`. -/
def disjunction : Rule Expr :=
  ((conjunction expression).andThen
    (((ws.skipThen (keyword "or")).skipThen ws).skipThen (conjunction expression)).many).map
    fun (first, rest) => rest.foldl (Expr.join .or) first

end Recursive

/-- An expression with at most `depth` parentheses open at once. -/
def expressionWithin : Nat → Rule Expr
  | 0 => ⟨fun input => .fail (input.unexpected [])⟩
  | depth + 1 => ⟨fun input => (disjunction (expressionWithin depth)).run input⟩

/-- An expression: parentheses take a token each, so no more are open than there are tokens. -/
def expression : Rule Expr := ⟨fun input => (expressionWithin (input.left + 1)).run input⟩

/-- Whether an expression is a condition made of others. -/
def isLogical (expr : Expr) : Bool :=
  match expr.kind with
  | .logical _ => true
  | _ => false

/-- An expression that joins or negates conditions. -/
def logical : Rule Expr := expression.require isLogical "expected a logical expression"

/-- A whole text that is one expression. -/
def root : Rule Expr :=
  let toEnd (rule : Rule Expr) := (rule.thenSkip ws).thenSkip endOfInput
  ws.skipThen (choice [toEnd (grouped expression), toEnd expression,
    toEnd (quotedString expression)])

/-- A list separator: the span of its semicolon, and of all of it. -/
structure SeparatorSpans where
  /-- The semicolon. -/
  semicolon : Span
  /-- The semicolon with the white space around it. -/
  whole : Span
  deriving DecidableEq, Repr

/-- A list as read: slots may be missing. -/
structure ListParts where
  /-- What stands before the first separator. -/
  first : Option Expr
  /-- The separators, each with what follows it. -/
  rest : List (SeparatorSpans × Option Expr)
  deriving Repr

/-- A semicolon with the white space around it. -/
def separator : Rule SeparatorSpans :=
  ((ws.skipThen ((just .semicolon).spanned fun _ span => span)).thenSkip ws).spanned
    SeparatorSpans.mk

/-- What may stand in a slot of a list. -/
def listItem : Rule (Option Expr) := (ws.skipThen expression).optional

/-- Expressions with semicolons between them. -/
def list : Rule ListParts :=
  ((listItem.andThen (separator.andThen listItem).many).thenSkip ws).map
    fun (first, rest) => ⟨first, rest⟩

/-- Any tokens but semicolons. -/
def listText : Rule (List Token) := (satisfying fun t => t ≠ .semicolon).many

/-- The semicolons of a text. -/
def simpleList : Rule (List Span) :=
  listText.skipThen (((just .semicolon).spanned fun _ span => span).thenSkip listText).many

end ProjectLens.Grammar
