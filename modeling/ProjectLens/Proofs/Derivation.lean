import ProjectLens.Expression.Grammar
import ProjectLens.Proofs.Layout

/-! # Derivations of expressions

The grammar of expressions as relations between tokens and trees, one for each construct, without any
order among alternatives: `P tokens tree` says that `tokens` can be derived as a `P` whose tree is
`tree`. The span of a node is the span of the tokens it is derived from, parentheses included.

Relations are over two parameters. `named` says which identifiers may be used as symbols, as names of
calls and as receivers of calls. `inner` is what may stand inside parentheses; `Expression` ties the
knot.

* `Bracket`, `Spaced`: where white space is allowed;
* `Symbol` to `Primary`: the constructs of which conditions are made;
* `Unary`, `Joined`: negations, and operands joined by a keyword, folded to the left;
* `Expression`, `Root`;
* `Expression.induction`: what holds of a derivation whenever it holds of the shorter ones inside it
  holds of every derivation. -/

namespace ProjectLens

/-- Putting an expression over another span gives it that span. -/
@[simp] theorem Expr.span_withSpan (span : Span) (e : Expr) : (e.withSpan span).span = span := by
  cases e
  rfl

/-- `(e.withSpan span).children = e.children`. -/
@[simp] theorem Expr.children_withSpan (span : Span) (e : Expr) :
    (e.withSpan span).children = e.children := by
  cases e
  rfl

namespace Derivation

/-! ## Tokens around the parts -/

/-- An opening token and a closing parenthesis with the white space inside them. -/
structure Bracket (opens : Token) where
  /-- The opening token. -/
  opening : Lexeme
  /-- The white space after it. -/
  before : List Lexeme
  /-- The white space before the closing parenthesis. -/
  after : List Lexeme
  /-- The closing parenthesis. -/
  closing : Lexeme
  opening_token : opening.token = opens
  blank_before : Blank before
  blank_after : Blank after
  closing_token : closing.token = .closeParen

namespace Bracket

variable {opens : Token}

/-- The tokens of a construct with `body` inside the brackets. -/
def around (b : Bracket opens) (body : List Lexeme) : List Lexeme :=
  b.opening :: (b.before ++ (body ++ (b.after ++ [b.closing])))

/-- `b.around body ≠ []`: the brackets themselves are tokens. -/
theorem around_ne_nil (b : Bracket opens) (body : List Lexeme) : b.around body ≠ [] := by
  simp [around]

/-- What is inside the brackets is shorter than all of it. -/
theorem length_lt_around (b : Bracket opens) (body : List Lexeme) :
    body.length < (b.around body).length := by
  simp only [around, List.length_cons, List.length_append]
  omega

end Bracket

/-- A token between two parts, with the white space around it. -/
structure Spaced (p : Token → Prop) where
  /-- The white space before the token. -/
  before : List Lexeme
  /-- The token. -/
  lexeme : Lexeme
  /-- The white space after it. -/
  after : List Lexeme
  blank_before : Blank before
  holds : p lexeme.token
  blank_after : Blank after

/-- The tokens from one part to the next. -/
def Spaced.lexemes {p : Token → Prop} (s : Spaced p) : List Lexeme :=
  s.before ++ s.lexeme :: s.after

/-- Something that may be missing. -/
inductive Maybe {α : Type} (p : List Lexeme → α → Prop) : List Lexeme → Option α → Prop where
  /-- It is missing. -/
  | none : Maybe p [] none
  /-- It is there. -/
  | some {tokens : List Lexeme} {value : α} : p tokens value → Maybe p tokens (some value)

/-! ## Constructs without expressions inside -/

/-- The minus sign of a number. -/
inductive Minus : List Lexeme → Unit → Prop where
  /-- `'-'` -/
  | intro {lexeme : Lexeme} : lexeme.token = .other '-' → Minus [lexeme] ()

/-- The digits after the period of a number. -/
inductive Fraction : List Lexeme → String → Prop where
  /-- `'.' digits` -/
  | intro {period digits : Lexeme} {text : String} :
      period.token = .period → digits.token = .number text → Fraction [period, digits] text

/-- The names of a type reference with periods between them. -/
inductive Segments : List Lexeme → List String → Prop where
  /-- The last name. -/
  | last {lexeme : Lexeme} {name : String} :
      lexeme.token = .identifier name → Segments [lexeme] [name]
  /-- `identifier '.'` and further names. -/
  | more {lexeme period : Lexeme} {name : String} {rest : List Lexeme} {names : List String} :
      lexeme.token = .identifier name → period.token = .period → Segments rest names →
      Segments (lexeme :: period :: rest) (name :: names)

/-- `'[' identifier ('.' identifier)* ']'`, without white space. -/
inductive TypeRef : List Lexeme → Expr → Prop where
  /-- The only form. -/
  | intro {opening closing : Lexeme} {body : List Lexeme} {names : List String} :
      opening.token = .openBracket → Segments body names → closing.token = .closeBracket →
      TypeRef (opening :: (body ++ [closing]))
        (Grammar.typeSymbol names (cover (opening :: (body ++ [closing]))))

/-- `"'" (any token but "'")* "'"` -/
inductive QuotedLiteral : List Lexeme → Expr → Prop where
  /-- The only form. -/
  | intro {opening closing : Lexeme} {body : List Lexeme} :
      opening.token = .quote → (∀ lexeme ∈ body, lexeme.token ≠ .quote) →
      closing.token = .quote →
      QuotedLiteral (opening :: (body ++ [closing]))
        (Expr.leaf (.quotedLiteral (Grammar.decode (body.map Lexeme.token)))
          (cover (opening :: (body ++ [closing]))))

section Names

variable (named : String → Prop)

/-- `identifier` -/
inductive Symbol : List Lexeme → Expr → Prop where
  /-- The only form. -/
  | intro {lexeme : Lexeme} {name : String} :
      lexeme.token = .identifier name → named name →
      Symbol [lexeme] (Expr.symbol name lexeme.span)

/-- The name after the period of a metadata reference. -/
inductive MetadataName : List Lexeme → Expr → Prop where
  /-- A symbol. -/
  | symbol {tokens : List Lexeme} {tree : Expr} : Symbol named tokens tree →
      MetadataName tokens tree
  /-- White space right after the period is a name that is being typed. -/
  | blank {lexeme : Lexeme} : lexeme.token.isWhitespace = true →
      MetadataName [lexeme] (Expr.symbol lexeme.token.text lexeme.span)

/-- `'%(' ws ((symbol ws '.' name?) | symbol)? ws ')'` -/
inductive ItemMetadata : List Lexeme → Expr → Prop where
  /-- `%()` -/
  | empty (b : Bracket .itemMetadataOpen) :
      ItemMetadata (b.around []) (.node .itemMetadata (cover (b.around [])) [])
  /-- `%(Name)` -/
  | plain (b : Bracket .itemMetadataOpen) {body : List Lexeme} {name : Expr} :
      Symbol named body name →
      ItemMetadata (b.around body) (.node .itemMetadata (cover (b.around body)) [name])
  /-- `%(Type.Name)` -/
  | qualified (b : Bracket .itemMetadataOpen) {type gap name : List Lexeme} {period : Lexeme}
      {typeTree nameTree : Expr} :
      Symbol named type typeTree → Blank gap → period.token = .period →
      MetadataName named name nameTree →
      ItemMetadata (b.around (type ++ (gap ++ period :: name)))
        (.node .itemMetadata (cover (b.around (type ++ (gap ++ period :: name))))
          [typeTree, nameTree])
  /-- `%(Type.)`, with an empty name after the period. White space there would be the name. -/
  | unnamed (b : Bracket .itemMetadataOpen) {type gap : List Lexeme} {period : Lexeme}
      {typeTree : Expr} :
      b.after = [] → Symbol named type typeTree → Blank gap → period.token = .period →
      ItemMetadata (b.around (type ++ (gap ++ [period])))
        (.node .itemMetadata (cover (b.around (type ++ (gap ++ [period]))))
          [typeTree, Expr.symbol "" (Span.emptyAt period.span.stop)])

/-- `'@(' ws symbol? ws ')'` -/
inductive ItemGroup : List Lexeme → Expr → Prop where
  /-- The only form. -/
  | intro (b : Bracket .itemGroupOpen) {body : List Lexeme} {name : Option Expr} :
      Maybe (Symbol named) body name →
      ItemGroup (b.around body) (.node .itemGroup (cover (b.around body)) name.toList)

end Names

/-! ## Constructs with expressions inside -/

section Inner

variable (named : String → Prop) (inner : List Lexeme → Expr → Prop)

/-- One argument of a call. -/
inductive Argument : List Lexeme → Expr → Prop where
  /-- `'-'? digits ('.' digits)?` -/
  | number {sign fraction : List Lexeme} {digits : Lexeme} {minus : Option Unit} {whole : String}
      {decimals : Option String} :
      Maybe Minus sign minus → digits.token = .number whole → Maybe Fraction fraction decimals →
      Argument (sign ++ digits :: fraction)
        (Expr.leaf (.number (Grammar.numberText minus whole decimals))
          (cover (sign ++ digits :: fraction)))
  /-- Any expression. -/
  | expression {tokens : List Lexeme} {tree : Expr} : inner tokens tree → Argument tokens tree

/-- Arguments with commas between them. -/
inductive Arguments : List Lexeme → List Expr → Prop where
  /-- The last argument. -/
  | last {tokens : List Lexeme} {tree : Expr} :
      Argument inner tokens tree → Arguments tokens [tree]
  /-- `argument ws ',' ws` and further arguments. -/
  | more (comma : Spaced (· = .comma)) {tokens rest : List Lexeme} {tree : Expr}
      {trees : List Expr} :
      Argument inner tokens tree → Arguments rest trees →
      Arguments (tokens ++ (comma.lexemes ++ rest)) (tree :: trees)

/-- `'(' ws (argument ws (',' ws argument ws)*)? ')'` -/
inductive ArgumentList : List Lexeme → List Expr → Prop where
  /-- `()` -/
  | empty (b : Bracket .openParen) : ArgumentList (b.around []) []
  /-- `(arguments)` -/
  | filled (b : Bracket .openParen) {body : List Lexeme} {trees : List Expr} :
      Arguments inner body trees → ArgumentList (b.around body) trees

/-- A call of any form. -/
inductive FunctionCall : List Lexeme → Expr → Prop where
  /-- `identifier arguments` -/
  | plain {name : Lexeme} {text : String} {arguments : List Lexeme} {trees : List Expr} :
      name.token = .identifier text → named text → ArgumentList inner arguments trees →
      FunctionCall (name :: arguments)
        (.node (.call text .plain) (cover (name :: arguments)) trees)
  /-- `symbol '.' identifier arguments` -/
  | onInstance {target arguments : List Lexeme} {period name : Lexeme} {text : String}
      {targetTree : Expr} {trees : List Expr} :
      Symbol named target targetTree → period.token = .period → name.token = .identifier text →
      named text → ArgumentList inner arguments trees →
      FunctionCall (target ++ period :: name :: arguments)
        (.node (.call text .onInstance) (cover (target ++ period :: name :: arguments))
          (targetTree :: trees))
  /-- `'[' type ']' '::' identifier arguments` -/
  | onType {target arguments : List Lexeme} {colons name : Lexeme} {text : String}
      {targetTree : Expr} {trees : List Expr} :
      TypeRef target targetTree → colons.token = .doubleColon → name.token = .identifier text →
      named text → ArgumentList inner arguments trees →
      FunctionCall (target ++ colons :: name :: arguments)
        (.node (.call text .onType) (cover (target ++ colons :: name :: arguments))
          (targetTree :: trees))

/-- `'$(' ws (functionCall | symbol) ws ')'` -/
inductive Evaluate : List Lexeme → Expr → Prop where
  /-- The value of a call. -/
  | call (b : Bracket .evaluateOpen) {body : List Lexeme} {tree : Expr} :
      FunctionCall named inner body tree →
      Evaluate (b.around body) (.node .evaluate (cover (b.around body)) [tree])
  /-- The value of a property. -/
  | symbol (b : Bracket .evaluateOpen) {body : List Lexeme} {tree : Expr} :
      Symbol named body tree →
      Evaluate (b.around body) (.node .evaluate (cover (b.around body)) [tree])

/-- `(evaluate | itemMetadata | itemGroup | plain)*`, where plain runs are as long as they can be. -/
inductive Parts : List Lexeme → List Expr → Prop where
  /-- No part. -/
  | nil : Parts [] []
  /-- A property reference, then other parts. -/
  | evaluate {tokens rest : List Lexeme} {tree : Expr} {trees : List Expr} :
      Evaluate named inner tokens tree → Parts rest trees → Parts (tokens ++ rest) (tree :: trees)
  /-- A metadata reference, then other parts. -/
  | metadata {tokens rest : List Lexeme} {tree : Expr} {trees : List Expr} :
      ItemMetadata named tokens tree → Parts rest trees → Parts (tokens ++ rest) (tree :: trees)
  /-- An item reference, then other parts. -/
  | group {tokens rest : List Lexeme} {tree : Expr} {trees : List Expr} :
      ItemGroup named tokens tree → Parts rest trees → Parts (tokens ++ rest) (tree :: trees)
  /-- A plain run, then parts that do not go on with it. -/
  | plain {run rest : List Lexeme} {trees : List Expr} :
      run ≠ [] → (∀ lexeme ∈ run, Grammar.isPlain lexeme.token = true) →
      (∀ lexeme ∈ rest.head?, Grammar.isPlain lexeme.token = false) → Parts rest trees →
      Parts (run ++ rest)
        (Expr.leaf (.stringContent (Grammar.decode (run.map Lexeme.token))) (cover run) :: trees)

/-- `"'" (evaluate | itemMetadata | itemGroup | plain)* "'"` -/
inductive QuotedString : List Lexeme → Expr → Prop where
  /-- The only form. -/
  | intro {opening closing : Lexeme} {body : List Lexeme} {trees : List Expr} :
      opening.token = .quote → Parts named inner body trees → closing.token = .quote →
      QuotedString (opening :: (body ++ [closing]))
        (.node .quotedString (cover (opening :: (body ++ [closing]))) trees)

/-- What a transform makes of each item: `quotedString (ws ',' ws quotedLiteral)?` -/
inductive TransformText : List Lexeme → List Expr → Prop where
  /-- Only what is made of each item. -/
  | body {tokens : List Lexeme} {tree : Expr} :
      QuotedString named inner tokens tree → TransformText tokens [tree]
  /-- And what is put between items. -/
  | separated (comma : Spaced (· = .comma)) {tokens literal : List Lexeme}
      {tree separator : Expr} :
      QuotedString named inner tokens tree → QuotedLiteral literal separator →
      TransformText (tokens ++ (comma.lexemes ++ literal)) [tree, separator]

/-- `'@(' ws symbol ws '->' ws (quotedString (ws ',' ws quotedLiteral)?)? ws ')'` -/
inductive ItemTransform : List Lexeme → Expr → Prop where
  /-- The only form. -/
  | intro (b : Bracket .itemGroupOpen) (arrow : Spaced (· = .arrow)) {name text : List Lexeme}
      {nameTree : Expr} {trees : Option (List Expr)} :
      Symbol named name nameTree → Maybe (TransformText named inner) text trees →
      ItemTransform (b.around (name ++ (arrow.lexemes ++ text)))
        (.node .itemTransform (cover (b.around (name ++ (arrow.lexemes ++ text))))
          (nameTree :: trees.getD []))

/-- One side of a comparison: `quotedString | evaluate | symbol` -/
inductive Operand : List Lexeme → Expr → Prop where
  /-- A string. -/
  | quoted {tokens : List Lexeme} {tree : Expr} :
      QuotedString named inner tokens tree → Operand tokens tree
  /-- A property reference. -/
  | evaluate {tokens : List Lexeme} {tree : Expr} :
      Evaluate named inner tokens tree → Operand tokens tree
  /-- A symbol. -/
  | symbol {lexeme : Lexeme} {name : String} :
      lexeme.token = .identifier name → named name →
      Operand [lexeme] (Expr.symbol name lexeme.span)

/-- The token of a comparison. -/
def operatorToken : Comparison → Token
  | .equality => .equals
  | .inequality => .notEquals

/-- `operand ws ('==' | '!=') ws operand` -/
inductive Compared : List Lexeme → Expr → Prop where
  /-- The only form. -/
  | intro {relation : Comparison} (operator : Spaced (· = operatorToken relation))
      {left right : List Lexeme} {leftTree rightTree : Expr} :
      Operand named inner left leftTree → Operand named inner right rightTree →
      Compared (left ++ (operator.lexemes ++ right))
        (.node (.comparison relation) (cover (left ++ (operator.lexemes ++ right)))
          [leftTree, rightTree])

/-- `'(' ws expression ws ')'`: the node inside, over the tokens of all of it. -/
inductive Grouped : List Lexeme → Expr → Prop where
  /-- The only form. -/
  | intro (b : Bracket .openParen) {body : List Lexeme} {tree : Expr} :
      inner body tree → Grouped (b.around body) (tree.withSpan (cover (b.around body)))

/-- What conditions are made of. -/
inductive Primary : List Lexeme → Expr → Prop where
  /-- A parenthesised expression. -/
  | grouped {tokens : List Lexeme} {tree : Expr} : Grouped inner tokens tree → Primary tokens tree
  /-- A comparison. -/
  | compared {tokens : List Lexeme} {tree : Expr} :
      Compared named inner tokens tree → Primary tokens tree
  /-- A call. -/
  | call {tokens : List Lexeme} {tree : Expr} :
      FunctionCall named inner tokens tree → Primary tokens tree
  /-- An item transform. -/
  | transform {tokens : List Lexeme} {tree : Expr} :
      ItemTransform named inner tokens tree → Primary tokens tree
  /-- An item reference. -/
  | group {tokens : List Lexeme} {tree : Expr} : ItemGroup named tokens tree → Primary tokens tree
  /-- A metadata reference. -/
  | metadata {tokens : List Lexeme} {tree : Expr} :
      ItemMetadata named tokens tree → Primary tokens tree
  /-- A string. -/
  | quoted {tokens : List Lexeme} {tree : Expr} :
      QuotedString named inner tokens tree → Primary tokens tree
  /-- A property reference. -/
  | evaluate {tokens : List Lexeme} {tree : Expr} :
      Evaluate named inner tokens tree → Primary tokens tree
  /-- A symbol. -/
  | symbol {lexeme : Lexeme} {name : String} :
      lexeme.token = .identifier name → named name →
      Primary [lexeme] (Expr.symbol name lexeme.span)

/-- Whether a token negates the condition after it. -/
def negates (token : Token) : Prop := token = .bang ∨ token.isKeyword "not" = true

/-- `(Not | '!') ws unary | primary` -/
inductive Unary : List Lexeme → Expr → Prop where
  /-- No negation. -/
  | primary {tokens : List Lexeme} {tree : Expr} :
      Primary named inner tokens tree → Unary tokens tree
  /-- A negation. -/
  | not {word : Lexeme} {gap tokens : List Lexeme} {tree : Expr} :
      negates word.token → Blank gap → Unary tokens tree →
      Unary (word :: (gap ++ tokens))
        (.node (.logical .not) (cover (word :: (gap ++ tokens))) [tree])

end Inner

/-- `operand (ws keyword ws operand)*`, folded to the left. -/
inductive Joined (connective : Connective) (operand : List Lexeme → Expr → Prop) :
    List Lexeme → Expr → Prop where
  /-- One operand. -/
  | single {tokens : List Lexeme} {tree : Expr} :
      operand tokens tree → Joined connective operand tokens tree
  /-- What is joined already, and one more operand. -/
  | join (word : Spaced fun token => token.isKeyword connective.tag = true)
      {left right : List Lexeme} {leftTree rightTree : Expr} :
      Joined connective operand left leftTree → operand right rightTree →
      Joined connective operand (left ++ (word.lexemes ++ right))
        (.node (.logical connective) (cover (left ++ (word.lexemes ++ right)))
          [leftTree, rightTree])

/-- **Expressions**: operands of `or`, each made of operands of `and`, each of these a negation or a
primary, inside which parentheses hold expressions again. -/
inductive Expression (named : String → Prop) : List Lexeme → Expr → Prop where
  /-- The only form. -/
  | intro {tokens : List Lexeme} {tree : Expr} :
      Joined .or (Joined .and (Unary named (Expression named))) tokens tree →
      Expression named tokens tree

/-- **Whole texts**: `ws (grouped | expression | quotedString) ws` -/
inductive Root (named : String → Prop) : List Lexeme → Expr → Prop where
  /-- A parenthesised expression. -/
  | grouped {before body after : List Lexeme} {tree : Expr} :
      Blank before → Grouped (Expression named) body tree → Blank after →
      Root named (before ++ (body ++ after)) tree
  /-- Any expression. -/
  | expression {before body after : List Lexeme} {tree : Expr} :
      Blank before → Expression named body tree → Blank after →
      Root named (before ++ (body ++ after)) tree
  /-- A string. -/
  | quoted {before body after : List Lexeme} {tree : Expr} :
      Blank before → QuotedString named (Expression named) body tree → Blank after →
      Root named (before ++ (body ++ after)) tree

/-- A primary is an expression. -/
theorem Primary.toExpression {named : String → Prop} {tokens : List Lexeme} {tree : Expr}
    (h : Primary named (Expression named) tokens tree) : Expression named tokens tree :=
  ⟨.single (.single (.primary h))⟩

/-- **A whole text is one expression** with white space around it: the other two forms of a text are
expressions as well. -/
theorem Root.body {named : String → Prop} {tokens : List Lexeme} {tree : Expr}
    (h : Root named tokens tree) :
    ∃ before body after, tokens = before ++ (body ++ after) ∧ Blank before ∧ Blank after ∧
      Expression named body tree := by
  cases h with
  | grouped hbefore h hafter =>
    exact ⟨_, _, _, rfl, hbefore, hafter, (Primary.grouped h).toExpression⟩
  | expression hbefore h hafter => exact ⟨_, _, _, rfl, hbefore, hafter, h⟩
  | quoted hbefore h hafter =>
    exact ⟨_, _, _, rfl, hbefore, hafter, (Primary.quoted h).toExpression⟩

/-- Every identifier may be used as a name. -/
def anyName (_ : String) : Prop := True

/-! ## Induction over what is inside parentheses

A relation over `inner` only asks for it at fewer tokens than its own, since every way to an inner
expression goes through a parenthesis. Each law below says so for one construct. -/

section Mono

variable {named : String → Prop} {inner inner' : List Lexeme → Expr → Prop} {tokens : List Lexeme}
  {tree : Expr} {trees : List Expr}

/-- `inner` may be replaced in an argument by what it implies on no more tokens. -/
theorem Argument.mono (h : Argument inner tokens tree)
    (hi : ∀ l e, l.length ≤ tokens.length → inner l e → inner' l e) :
    Argument inner' tokens tree := by
  cases h with
  | number hsign hdigits hfraction => exact .number hsign hdigits hfraction
  | expression h => exact .expression (hi _ _ (Nat.le_refl _) h)

/-- So it may in arguments between commas. -/
theorem Arguments.mono (h : Arguments inner tokens trees)
    (hi : ∀ l e, l.length ≤ tokens.length → inner l e → inner' l e) :
    Arguments inner' tokens trees := by
  induction h with
  | last h => exact .last (h.mono hi)
  | more comma h _ ih =>
    simp only [List.length_append] at hi
    exact .more comma (h.mono fun l e hl => hi l e (by omega)) (ih fun l e hl => hi l e (by omega))

/-- In a list with its brackets, on fewer tokens: the brackets are taken off. -/
theorem ArgumentList.mono (h : ArgumentList inner tokens trees)
    (hi : ∀ l e, l.length < tokens.length → inner l e → inner' l e) :
    ArgumentList inner' tokens trees := by
  cases h with
  | empty b => exact .empty b
  | filled b h =>
    have hlt := b.length_lt_around
    exact .filled b (h.mono fun l e hl => hi l e (Nat.lt_of_le_of_lt hl (hlt _)))

/-- So it may in a call. -/
theorem FunctionCall.mono (h : FunctionCall named inner tokens tree)
    (hi : ∀ l e, l.length < tokens.length → inner l e → inner' l e) :
    FunctionCall named inner' tokens tree := by
  cases h with
  | plain hname hn h =>
    simp only [List.length_cons] at hi
    exact .plain hname hn (h.mono fun l e hl => hi l e (by omega))
  | onInstance htarget hperiod hname hn h =>
    simp only [List.length_append, List.length_cons] at hi
    exact .onInstance htarget hperiod hname hn (h.mono fun l e hl => hi l e (by omega))
  | onType htarget hcolons hname hn h =>
    simp only [List.length_append, List.length_cons] at hi
    exact .onType htarget hcolons hname hn (h.mono fun l e hl => hi l e (by omega))

/-- So it may in an evaluation. -/
theorem Evaluate.mono (h : Evaluate named inner tokens tree)
    (hi : ∀ l e, l.length < tokens.length → inner l e → inner' l e) :
    Evaluate named inner' tokens tree := by
  cases h with
  | call b h =>
    have hlt := b.length_lt_around
    exact .call b (h.mono fun l e hl => hi l e (Nat.lt_trans hl (hlt _)))
  | symbol b h => exact .symbol b h

/-- So it may in the parts of a quoted text. -/
theorem Parts.mono (h : Parts named inner tokens trees)
    (hi : ∀ l e, l.length < tokens.length → inner l e → inner' l e) :
    Parts named inner' tokens trees := by
  induction h with
  | nil => exact .nil
  | evaluate h _ ih =>
    simp only [List.length_append] at hi
    exact .evaluate (h.mono fun l e hl => hi l e (by omega)) (ih fun l e hl => hi l e (by omega))
  | metadata h _ ih =>
    simp only [List.length_append] at hi
    exact .metadata h (ih fun l e hl => hi l e (by omega))
  | group h _ ih =>
    simp only [List.length_append] at hi
    exact .group h (ih fun l e hl => hi l e (by omega))
  | plain hrun hplain hnext _ ih =>
    simp only [List.length_append] at hi
    exact .plain hrun hplain hnext (ih fun l e hl => hi l e (by omega))

/-- So it may in a quoted string. -/
theorem QuotedString.mono (h : QuotedString named inner tokens tree)
    (hi : ∀ l e, l.length < tokens.length → inner l e → inner' l e) :
    QuotedString named inner' tokens tree := by
  cases h with
  | intro hopening h hclosing =>
    simp only [List.length_append, List.length_cons] at hi
    exact .intro hopening (h.mono fun l e hl => hi l e (by omega)) hclosing

/-- So it may in a transform's quoted text. -/
theorem TransformText.mono (h : TransformText named inner tokens trees)
    (hi : ∀ l e, l.length < tokens.length → inner l e → inner' l e) :
    TransformText named inner' tokens trees := by
  cases h with
  | body h => exact .body (h.mono hi)
  | separated comma h hliteral =>
    simp only [List.length_append] at hi
    exact .separated comma (h.mono fun l e hl => hi l e (by omega)) hliteral

/-- So it may in an item transform. -/
theorem ItemTransform.mono (h : ItemTransform named inner tokens tree)
    (hi : ∀ l e, l.length < tokens.length → inner l e → inner' l e) :
    ItemTransform named inner' tokens tree := by
  cases h with
  | intro b arrow hname htext =>
    cases htext with
    | none => exact .intro b arrow hname .none
    | some h =>
      refine .intro b arrow hname (.some (h.mono fun l e hl => hi l e ?_))
      refine Nat.lt_trans ?_ (b.length_lt_around _)
      simp only [List.length_append]
      omega

/-- So it may in an operand of a comparison. -/
theorem Operand.mono (h : Operand named inner tokens tree)
    (hi : ∀ l e, l.length < tokens.length → inner l e → inner' l e) :
    Operand named inner' tokens tree := by
  cases h with
  | quoted h => exact .quoted (h.mono hi)
  | evaluate h => exact .evaluate (h.mono hi)
  | symbol hname hn => exact .symbol hname hn

/-- So it may in a comparison. -/
theorem Compared.mono (h : Compared named inner tokens tree)
    (hi : ∀ l e, l.length < tokens.length → inner l e → inner' l e) :
    Compared named inner' tokens tree := by
  cases h with
  | intro operator hleft hright =>
    simp only [List.length_append] at hi
    exact .intro operator (hleft.mono fun l e hl => hi l e (by omega))
      (hright.mono fun l e hl => hi l e (by omega))

/-- So it may in parentheses. -/
theorem Grouped.mono (h : Grouped inner tokens tree)
    (hi : ∀ l e, l.length < tokens.length → inner l e → inner' l e) :
    Grouped inner' tokens tree := by
  cases h with
  | intro b h => exact .intro b (hi _ _ (b.length_lt_around _) h)

/-- So it may in a primary: one case for each kind. -/
theorem Primary.mono (h : Primary named inner tokens tree)
    (hi : ∀ l e, l.length < tokens.length → inner l e → inner' l e) :
    Primary named inner' tokens tree := by
  cases h with
  | grouped h => exact .grouped (h.mono hi)
  | compared h => exact .compared (h.mono hi)
  | call h => exact .call (h.mono hi)
  | transform h => exact .transform (h.mono hi)
  | group h => exact .group h
  | metadata h => exact .metadata h
  | quoted h => exact .quoted (h.mono hi)
  | evaluate h => exact .evaluate (h.mono hi)
  | symbol hname hn => exact .symbol hname hn

/-- So it may in a unary expression. -/
theorem Unary.mono (h : Unary named inner tokens tree)
    (hi : ∀ l e, l.length < tokens.length → inner l e → inner' l e) :
    Unary named inner' tokens tree := by
  induction h with
  | primary h => exact .primary (h.mono hi)
  | not hword hgap _ ih =>
    simp only [List.length_append, List.length_cons] at hi
    exact .not hword hgap (ih fun l e hl => hi l e (by omega))

/-- What a connective joins may be replaced by what it implies on no more tokens. -/
theorem Joined.mono {connective : Connective} {operand operand' : List Lexeme → Expr → Prop}
    (h : Joined connective operand tokens tree)
    (hi : ∀ l e, l.length ≤ tokens.length → operand l e → operand' l e) :
    Joined connective operand' tokens tree := by
  induction h with
  | single h => exact .single (hi _ _ (Nat.le_refl _) h)
  | join word _ h ih =>
    simp only [List.length_append] at hi
    exact .join word (ih fun l e hl => hi l e (by omega)) (hi _ _ (by omega) h)

end Mono

/-- **Induction over derivations.** To show something of every expression it is enough to show it of
an expression inside which it holds of every shorter one. -/
theorem Expression.induction {named : String → Prop} {motive : List Lexeme → Expr → Prop}
    (step : ∀ tokens tree,
      Joined .or (Joined .and (Unary named fun l e =>
        l.length < tokens.length ∧ Expression named l e ∧ motive l e)) tokens tree →
      motive tokens tree)
    {tokens : List Lexeme} {tree : Expr} (h : Expression named tokens tree) :
    motive tokens tree := by
  induction hn : tokens.length using Nat.strongRecOn generalizing tokens tree with
  | ind n ih =>
    subst hn
    obtain ⟨h⟩ := h
    -- what is inside parentheses is shorter than the operand it is part of
    refine step tokens tree (h.mono fun l e hl h => h.mono fun l' e' hl' h => h.mono ?_)
    intro inside insideTree hlt h
    have hlt : inside.length < tokens.length := by omega
    exact ⟨hlt, h, ih inside.length hlt h rfl⟩

/-! ## Every construct covers its tokens -/

section Covers

variable {named : String → Prop} {inner : List Lexeme → Expr → Prop} {tokens : List Lexeme}
  {tree : Expr} {trees : List Expr}

/-- The tree stands over all of its tokens, of which there is at least one. -/
structure Covers (tokens : List Lexeme) (tree : Expr) : Prop where
  filled : tokens ≠ []
  span_eq : tree.span = cover tokens

/-- The span of item metadata covers its tokens. -/
theorem ItemMetadata.covers (h : ItemMetadata named tokens tree) : Covers tokens tree := by
  cases h <;> exact ⟨Bracket.around_ne_nil _ _, rfl⟩

/-- The span of an item list covers its tokens. -/
theorem ItemGroup.covers (h : ItemGroup named tokens tree) : Covers tokens tree := by
  cases h
  exact ⟨Bracket.around_ne_nil _ _, rfl⟩

/-- The span of a call covers its tokens. -/
theorem FunctionCall.covers (h : FunctionCall named inner tokens tree) : Covers tokens tree := by
  cases h <;> exact ⟨by simp, rfl⟩

/-- The span of an evaluation covers its tokens. -/
theorem Evaluate.covers (h : Evaluate named inner tokens tree) : Covers tokens tree := by
  cases h <;> exact ⟨Bracket.around_ne_nil _ _, rfl⟩

/-- The span of a quoted string covers its tokens. -/
theorem QuotedString.covers (h : QuotedString named inner tokens tree) : Covers tokens tree := by
  cases h
  exact ⟨by simp, rfl⟩

/-- The span of an item transform covers its tokens. -/
theorem ItemTransform.covers (h : ItemTransform named inner tokens tree) : Covers tokens tree := by
  cases h
  exact ⟨Bracket.around_ne_nil _ _, rfl⟩

/-- The span of a comparison covers its tokens. -/
theorem Compared.covers (h : Compared named inner tokens tree) : Covers tokens tree := by
  cases h
  exact ⟨by simp [Spaced.lexemes], rfl⟩

/-- The span of an expression in parentheses covers the parentheses too. -/
theorem Grouped.covers (h : Grouped inner tokens tree) : Covers tokens tree := by
  obtain ⟨b, -⟩ := h
  exact ⟨b.around_ne_nil _, by rw [Expr.span_withSpan]⟩

/-- The span of a primary covers its tokens. -/
theorem Primary.covers (h : Primary named inner tokens tree) : Covers tokens tree := by
  cases h with
  | grouped h => exact h.covers
  | compared h => exact h.covers
  | call h => exact h.covers
  | transform h => exact h.covers
  | group h => exact h.covers
  | metadata h => exact h.covers
  | quoted h => exact h.covers
  | evaluate h => exact h.covers
  | symbol => exact ⟨by simp, rfl⟩

/-- The span of a unary expression covers its tokens, `!` included. -/
theorem Unary.covers (h : Unary named inner tokens tree) : Covers tokens tree := by
  cases h with
  | primary h => exact h.covers
  | not => exact ⟨by simp, rfl⟩

/-- The span of what a connective joins covers its tokens, given that its operands' spans do. -/
theorem Joined.covers {connective : Connective} {operand : List Lexeme → Expr → Prop}
    (ho : ∀ l e, operand l e → Covers l e) (h : Joined connective operand tokens tree) :
    Covers tokens tree := by
  cases h with
  | single h => exact ho _ _ h
  | join word => exact ⟨by simp [Spaced.lexemes], rfl⟩

/-- **An expression stands over all of its tokens.** -/
theorem Expression.covers (h : Expression named tokens tree) : Covers tokens tree := by
  obtain ⟨h⟩ := h
  exact h.covers fun _ _ h => h.covers fun _ _ h => h.covers

/-- Joining over the span of both operands is joining over the tokens of both. -/
theorem join_eq {connective : Connective} {left middle right : List Lexeme} {l r : Expr}
    (hl : Covers left l) (hr : Covers right r) :
    Expr.join connective l r =
      .node (.logical connective) (cover (left ++ (middle ++ right))) [l, r] := by
  have hright : (cover (middle ++ right)).stop = (cover right).stop := by
    cases middle with
    | nil => rfl
    | cons lexeme middle => rw [cover_append (by simp) hr.filled]
  have hfilled : middle ++ right ≠ [] := by simp [hr.filled]
  rw [Expr.join, hl.span_eq, hr.span_eq, cover_append hl.filled hfilled, hright]

end Covers

end Derivation

end ProjectLens
