import ProjectLens.Proofs.Steady

/-! # The grammar as it is written

The rules of expressions as scripts: an expression in parentheses or among arguments is entered by
name, and so is what stands behind a negation. Each script stands for the rule of the grammar that is
run. What is read off a script holds of the rules at every level of the grammar, and so of the rules
themselves.

* `Written.*`: one script for each rule;
* `Callee.rule`, `Callee.script`: what is entered by name;
* `Callee.Leveled`, `Callee.Leveled.rule`: what the levels of the grammar keep holds of the rules;
* `Grammar.disjunction_agrees`: one level more is one token more;
* `Grammar.run_expression`, `Grammar.run_unary`: the knots are tied;
* `Construct`: what a text can be read as, each with its rule and its script;
* `Construct.rule_script`: the script stands for the rule. -/

namespace ProjectLens

namespace Written

open Script

/-! ## Constructs without expressions inside -/

/-- The white space between parts. -/
def ws : Script Unit := (satisfying Token.isWhitespace).many.map fun _ => ()

/-- An identifier. -/
def identifier : Script String :=
  (token [] fun
    | .identifier name => some name
    | _ => none).labelled "identifier"

/-- A keyword, in any letter case. -/
def keyword (word : String) : Script Unit :=
  ((satisfying (Token.isKeyword word)).map fun _ => ()).labelled word

/-- An identifier as an expression. -/
def symbol : Script Expr := identifier.spanned Expr.symbol

/-- A run of digits. -/
def digits : Script String :=
  token [] fun
    | .number digits => some digits
    | _ => none

/-- A numeric argument. -/
def number : Script Expr :=
  ((((just (.other '-')).optional.andThen digits).andThen
    ((just .period).skipThen digits).optional).spanned
      fun ((sign, whole), fraction) span =>
        Expr.leaf (.number (Grammar.numberText sign whole fraction)) span).labelled "number"

/-- `[Namespace.Type]` -/
def typeRef : Script Expr :=
  (((just .openBracket).skipThen (sepByOne identifier (just .period))).thenSkip
    (just .closeBracket)).spanned Grammar.typeSymbol |>.labelled "type reference"

/-- A quoted string without references. -/
def quotedLiteral : Script Expr :=
  (((just .quote).skipThen (satisfying fun t => t ≠ .quote).many).thenSkip (just .quote)).spanned
    (fun tokens span => Expr.leaf (.quotedLiteral (Grammar.decode tokens)) span)
    |>.labelled "string literal"

/-- The name after the period of a metadata reference. -/
def metadataName : Script Expr :=
  symbol.orElse ((satisfying Token.isWhitespace).spanned fun t span => Expr.symbol t.text span)

/-- A metadata name with its item type. -/
def qualifiedMetadata : Script (List Expr) :=
  (((symbol.thenSkip ws).andThen ((just .period).spanned fun _ span => span)).andThen
    metadataName.optional).map fun ((itemType, period), name) =>
      [itemType, name.getD (Expr.symbol "" (Span.emptyAt period.stop))]

/-- `%(Name)` and `%(Type.Name)` -/
def itemMetadata : Script Expr :=
  ((((just .itemMetadataOpen).skipThen ws).skipThen
    (qualifiedMetadata.orElse (symbol.map fun name => [name])).optional).thenSkip ws).thenSkip
      (just .closeParen)
    |>.spanned (fun children span => .node .itemMetadata span (children.getD []))
    |>.labelled "metadata reference"

/-- `@(Name)` -/
def itemGroup : Script Expr :=
  ((((just .itemGroupOpen).skipThen ws).skipThen symbol.optional).thenSkip ws).thenSkip
      (just .closeParen)
    |>.spanned (fun name span => .node .itemGroup span name.toList)
    |>.labelled "item reference"

/-- A plain run inside a quoted string. -/
def plain : Script Expr :=
  (satisfying Grammar.isPlain).oneOrMore.spanned fun tokens span =>
    Expr.leaf (.stringContent (Grammar.decode tokens)) span

/-- `==` or `!=` -/
def comparisonOperator : Script Comparison :=
  choice (.cons ((just .equals).map fun _ => .equality)
    (.cons ((just .notEquals).map fun _ => .inequality) .nil))

/-! ## Constructs with expressions inside -/

/-- The arguments of a call. -/
def argumentList : Script (List Expr) :=
  ((((just .openParen).skipThen ws).skipThen
    (sepBy ((number.orElse (call .expression)).thenSkip ws) ((just .comma).thenSkip ws))).thenSkip
      (just .closeParen)).labelled "argument list"

/-- `Name(arguments)` -/
def globalCall : Script Expr :=
  (identifier.andThen argumentList).spanned
    fun (name, arguments) span => .node (.call name .plain) span arguments

/-- `Target.Name(arguments)` -/
def instanceCall : Script Expr :=
  (((symbol.thenSkip (just .period)).andThen identifier).andThen argumentList).spanned
    fun ((target, name), arguments) span =>
      .node (.call name .onInstance) span (target :: arguments)

/-- `[Type]::Name(arguments)` -/
def staticCall : Script Expr :=
  (((typeRef.thenSkip (just .doubleColon)).andThen identifier).andThen argumentList).spanned
    fun ((target, name), arguments) span => .node (.call name .onType) span (target :: arguments)

/-- A call of any form. -/
def functionCall : Script Expr :=
  (choice (.cons staticCall (.cons instanceCall (.cons globalCall .nil)))).labelled "function call"

/-- `$(...)` -/
def evaluate : Script Expr :=
  ((((just .evaluateOpen).skipThen ws).skipThen
    (choice (.cons functionCall (.cons symbol .nil)))).thenSkip ws).thenSkip (just .closeParen)
    |>.spanned (fun inner span => .node .evaluate span [inner])
    |>.labelled "property reference"

/-- `'...'` with references. -/
def quotedString : Script Expr :=
  (((just .quote).skipThen
    (choice (.cons evaluate (.cons itemMetadata (.cons itemGroup (.cons plain .nil))))).many).thenSkip
      (just .quote))
    |>.spanned (fun children span => .node .quotedString span children)
    |>.labelled "quoted string"

/-- The separator of a transform. -/
def transformSeparator : Script Expr :=
  ((ws.skipThen (just .comma)).skipThen ws).skipThen quotedLiteral

/-- `@(Name->'body', 'separator')` -/
def itemTransform : Script Expr :=
  (((((((just .itemGroupOpen).skipThen ws).skipThen symbol).thenSkip ws).thenSkip
    (just .arrow)).thenSkip ws).andThen
      (quotedString.andThen transformSeparator.optional).optional
    |>.thenSkip ws).thenSkip (just .closeParen)
    |>.spanned (fun (name, body) span =>
      .node .itemTransform span (name :: match body with
        | none => []
        | some (body, separator) => body :: separator.toList))
    |>.labelled "item transform"

/-- One side of a comparison. -/
def operand : Script Expr := choice (.cons quotedString (.cons evaluate (.cons symbol .nil)))

/-- Two sides with `==` or `!=` between them. -/
def comparison : Script Expr :=
  ((((operand.thenSkip ws).andThen comparisonOperator).thenSkip ws).andThen operand).spanned
    (fun ((left, relation), right) span => .node (.comparison relation) span [left, right])
    |>.labelled "comparison"

/-- A parenthesised expression. -/
def grouped : Script Expr :=
  ((((just .openParen).skipThen ws).skipThen (call .expression)).thenSkip ws).thenSkip
      (just .closeParen)
    |>.spanned (fun inner span => inner.withSpan span)
    |>.labelled "group"

/-- What a condition is made of. -/
def primary : Script Expr :=
  choice (.cons grouped (.cons comparison (.cons functionCall (.cons itemTransform
    (.cons itemGroup (.cons itemMetadata (.cons quotedString (.cons evaluate
      (.cons symbol .nil)))))))))

/-- A primary after any number of negations, each of them entered behind the one before. -/
def unary : Script Expr :=
  (((choice (.cons (just .bang) (.cons (keyword "not") .nil))).thenSkip ws).skipThen
    (call .unary)).spanned (fun inner span => .node (.logical .not) span [inner])
    |>.orElse primary

/-- Conditions joined by `and`. -/
def conjunction : Script Expr :=
  ((call .unary).andThen
    (((ws.skipThen (keyword "and")).skipThen ws).skipThen (call .unary)).many).map
    fun (first, rest) => rest.foldl (Expr.join .and) first

/-- Conditions joined by `or`, whose operands may be joined by `and`. -/
def expression : Script Expr :=
  (conjunction.andThen
    (((ws.skipThen (keyword "or")).skipThen ws).skipThen conjunction).many).map
    fun (first, rest) => rest.foldl (Expr.join .or) first

/-- An expression that joins or negates conditions. -/
def logical : Script Expr :=
  expression.require Grammar.isLogical "expected a logical expression"

/-- A whole text that is one expression. -/
def root : Script Expr :=
  let toEnd (script : Script Expr) := (script.thenSkip ws).thenSkip endOfInput
  ws.skipThen (choice (.cons (toEnd grouped) (.cons (toEnd expression)
    (.cons (toEnd quotedString) .nil))))

/-- A semicolon with the white space around it. -/
def separator : Script Grammar.SeparatorSpans :=
  ((ws.skipThen ((just .semicolon).spanned fun _ span => span)).thenSkip ws).spanned
    Grammar.SeparatorSpans.mk

/-- What may stand in a slot of a list. -/
def listItem : Script (Option Expr) := (ws.skipThen expression).optional

/-- Expressions with semicolons between them. -/
def list : Script Grammar.ListParts :=
  ((listItem.andThen (separator.andThen listItem).many).thenSkip ws).map
    fun (first, rest) => ⟨first, rest⟩

/-- Any tokens but semicolons. -/
def listText : Script (List Token) := (satisfying fun t => t ≠ .semicolon).many

/-- The semicolons of a text. -/
def simpleList : Script (List Span) :=
  listText.skipThen (((just .semicolon).spanned fun _ span => span).thenSkip listText).many

end Written

/-! ## Rules that are entered by name -/

namespace Callee

/-- What the names stand for where one rule reads expressions and another one what is negated. -/
def among (expression unary : Rule Expr) : Callee → Rule Expr
  | .expression => expression
  | .unary => unary

/-- The rule that is entered. -/
def rule : Callee → Rule Expr
  | .expression => Grammar.expression
  | .unary => Grammar.unary Grammar.expression

/-- What is written for it. -/
def script : Callee → Script Expr
  | .expression => Written.expression
  | .unary => Written.unary

/-- What holds of two rules holds of all that is entered `among` them. -/
theorem forall_among {P : Rule Expr → Prop} {expression unary : Rule Expr} (h : P expression)
    (hunary : P unary) (callee : Callee) : P (among expression unary callee) := by
  cases callee with
  | expression => exact h
  | unary => exact hunary

section Levels

variable (expression : Rule Expr) (depth : Nat)

/-- With no level left there is no negation. -/
theorem unaryWithin_zero (unary : Rule Expr) :
    Grammar.unaryWithin expression 0 = Written.primary.rule (among expression unary) := by
  rw [Grammar.unaryWithin]
  rfl

/-- Behind a negation there is one level fewer. -/
theorem unaryWithin_succ : Grammar.unaryWithin expression (depth + 1) =
    Written.unary.rule (among expression (Grammar.unaryWithin expression depth)) := by
  rw [Grammar.unaryWithin]
  rfl

/-- Inside an expression there is one level fewer. -/
theorem expressionWithin_succ : Grammar.expressionWithin (depth + 1) =
    Written.expression.rule (among (Grammar.expressionWithin depth)
      (Grammar.unary (Grammar.expressionWithin depth))) := (rfl)

end Levels

/-- **What the levels of the grammar keep**: a property of the rule that always fails, of a level for
each number of tokens if all levels have it, and of what is written if all that is entered there has
it. -/
structure Leveled (P : Rule Expr → Prop) : Prop where
  /-- No level of parentheses is left. -/
  stuck : P (Grammar.expressionWithin 0)
  /-- There are as many levels as tokens. -/
  byTokens : ∀ {levels : Nat → Rule Expr}, (∀ depth, P (levels depth)) →
    P ⟨fun input => (levels (input.left + 1)).run input⟩
  /-- There is one level more. -/
  written : ∀ {rules : Callee → Rule Expr}, (∀ callee, P (rules callee)) →
    P (Written.primary.rule rules) ∧ ∀ callee : Callee, P (callee.script.rule rules)

namespace Leveled

variable {P : Rule Expr → Prop} {expression : Rule Expr}

/-- A leveled property holds of `unaryWithin` at every depth, by induction on it, -/
theorem unaryWithin (leveled : Leveled P) (h : P expression) (depth : Nat) :
    P (Grammar.unaryWithin expression depth) := by
  induction depth with
  | zero =>
    rw [unaryWithin_zero expression expression]
    exact (leveled.written (forall_among h h)).1
  | succ depth ih =>
    rw [unaryWithin_succ]
    exact (leveled.written (forall_among h ih)).2 .unary

/-- of `unary`, -/
theorem unary (leveled : Leveled P) (h : P expression) : P (Grammar.unary expression) :=
  leveled.byTokens (leveled.unaryWithin h)

/-- and of `expressionWithin` at every depth. -/
theorem expressionWithin (leveled : Leveled P) (depth : Nat) : P (Grammar.expressionWithin depth) := by
  induction depth with
  | zero => exact leveled.stuck
  | succ depth ih =>
    rw [expressionWithin_succ]
    exact (leveled.written (forall_among ih (leveled.unary ih))).2 .expression

/-- **What the levels keep holds of the rules that are entered by name.** -/
theorem rule (leveled : Leveled P) (callee : Callee) : P callee.rule := by
  have expression : P Grammar.expression := leveled.byTokens leveled.expressionWithin
  cases callee with
  | expression => exact expression
  | unary => exact leveled.unary expression

end Leveled

/-- At every level a rule that is entered takes a token. -/
theorem leveled_spends : Leveled (·.Spends 1) where
  stuck := by
    rintro input value rest ⟨recovered, ran⟩
    cases ran
  byTokens h := fun input _ _ reads => h (input.left + 1) reads
  written h := by
    refine ⟨Written.primary.spends h, fun callee => ?_⟩
    cases callee with
    | expression => exact Written.expression.spends h
    | unary => exact Written.unary.spends h

/-- Every rule that is called takes a token. -/
theorem rule_spends (callee : Callee) : callee.rule.Spends 1 := leveled_spends.rule callee

end Callee

/-! ## The knots

An expression stands inside another one only behind an opening token. So the levels that
`expressionWithin` allows for never run out, and `expression` is what its own alternatives make of it;
and so is what stands behind a negation. -/

namespace Callee

/-- Whether a rule may enter another one before it takes a token: an expression may begin with what
can stand behind a negation, and that is all. -/
def opensWith : Callee → Callee → Bool
  | .expression, .unary => true
  | _, _ => false

/-- Every round takes a token, and a token stands before every rule that may not be entered at
once. -/
theorem script_steady (callee : Callee) : callee.script.steady callee.opensWith false = true := by
  cases callee <;> decide

/-- A primary enters nothing before it takes a token. -/
theorem primary_steady : Written.primary.steady (opensWith .unary) false = true := by decide

variable {expression expression' unary unary' : Rule Expr} {n : Nat}

/-- The rules two grammars call are counterparts where their expressions and unary expressions
agree. -/
theorem counterparts_among (spends : expression.Spends 1) (spends' : expression'.Spends 1)
    (hunary : unary.Spends 1) (hunary' : unary'.Spends 1) (h : Rule.Agrees n expression expression')
    (h' : Rule.Agrees n unary unary') :
    Counterparts n (among expression unary) (among expression' unary') := by
  refine ⟨forall_among spends hunary, forall_among spends' hunary', fun callee => ?_⟩
  cases callee with
  | expression => exact h
  | unary => exact h'

end Callee

namespace Grammar

open Rule Callee

section Negations

variable {expression expression' : Rule Expr} {n : Nat} (spends : expression.Spends 1)
  (spends' : expression'.Spends 1) (h : Agrees n expression expression')
include spends spends' h

/-- Behind one negation more there is one token more. -/
theorem unaryWithin_succ_agrees {depth depth' : Nat}
    (hdepth : Agrees n (unaryWithin expression depth) (unaryWithin expression' depth')) :
    Agrees (n + 1) (unaryWithin expression (depth + 1)) (unaryWithin expression' (depth' + 1)) := by
  rw [unaryWithin_succ, unaryWithin_succ]
  have pairs := counterparts_among spends spends' (leveled_spends.unaryWithin spends depth)
    (leveled_spends.unaryWithin spends' depth') h hdepth
  exact Script.agrees pairs (script_steady .unary) nofun

/-- Behind one level of parentheses more there is one token more, whatever negations are allowed. -/
theorem unaryWithin_agrees (depth : Nat) :
    Agrees (n + 1) (unaryWithin expression depth) (unaryWithin expression' depth) := by
  induction depth with
  | zero =>
    rw [unaryWithin_zero expression expression, unaryWithin_zero expression' expression']
    exact Script.agrees (counterparts_among spends spends' spends spends' h h) primary_steady nofun
  | succ depth ih => exact unaryWithin_succ_agrees spends spends' h (ih.mono (Nat.le_succ n))

/-- `unary` agrees one token further than the expressions it is made of. -/
theorem unary_agrees : Agrees (n + 1) (unary expression) (unary expression') :=
  fun input hlt => unaryWithin_agrees spends spends' h (input.left + 1) hlt

/-- **One level more is one token more**: an expression stands inside another one only behind an
opening token, and begins with what may be negated. -/
theorem disjunction_agrees : Agrees (n + 1) (disjunction expression) (disjunction expression') := by
  have hunary := unary_agrees spends spends' h
  have pairs := counterparts_among spends spends' (leveled_spends.unary spends)
    (leveled_spends.unary spends') h (hunary.mono (Nat.le_succ n))
  refine Script.agrees pairs (script_steady .expression) fun callee atOnce => ?_
  cases callee with
  | expression => cases atOnce
  | unary => exact hunary

end Negations

/-- One level of parentheses more is one token more. -/
theorem expressionWithin_succ_agrees (n depth depth' : Nat)
    (h : Agrees n (expressionWithin depth) (expressionWithin depth')) :
    Agrees (n + 1) (expressionWithin (depth + 1)) (expressionWithin (depth' + 1)) :=
  disjunction_agrees (leveled_spends.expressionWithin depth) (leveled_spends.expressionWithin depth') h

/-- Levels beyond the number of tokens make no difference. -/
theorem expressionWithin_agrees {n depth depth' : Nat} (hle : n ≤ depth) (hle' : n ≤ depth') :
    Agrees n (expressionWithin depth) (expressionWithin depth') :=
  agrees_levels expressionWithin_succ_agrees hle hle'

/-- **An expression is a disjunction with expressions inside**, on every input: as many levels as there
are tokens are as good as any number of them. -/
theorem run_expression (input : Input) : expression.run input = (disjunction expression).run input := by
  have inside : Agrees input.left (expressionWithin input.left) expression :=
    agrees_knot expressionWithin_succ_agrees input.left
  exact disjunction_agrees (leveled_spends.expressionWithin input.left) (rule_spends .expression)
    inside (Nat.lt_succ_self input.left)

/-- **What stands behind a negation may begin with a negation again**, on every input: as many of them
as there are tokens are as good as any number. -/
theorem run_unary (input : Input) : (unary expression).run input =
    (Written.unary.rule (among expression (unary expression))).run input := by
  have spends : expression.Spends 1 := rule_spends .expression
  have step (n depth depth' : Nat)
      (h : Agrees n (unaryWithin expression depth) (unaryWithin expression depth')) :
      Agrees (n + 1) (unaryWithin expression (depth + 1)) (unaryWithin expression (depth' + 1)) :=
    unaryWithin_succ_agrees spends spends (.refl n expression) h
  have inside : Agrees input.left (unaryWithin expression input.left) (unary expression) :=
    agrees_knot step input.left
  have pairs := counterparts_among spends spends (leveled_spends.unaryWithin spends input.left)
    (leveled_spends.unary spends) (.refl _ _) inside
  show (unaryWithin expression (input.left + 1)).run input = _
  rw [unaryWithin_succ]
  exact Script.agrees pairs (script_steady .unary) nofun (Nat.lt_succ_self input.left)

end Grammar

namespace Callee

/-- An expression that is written out unfolds the grammar once. -/
theorem rule_expression : Written.expression.rule Callee.rule = Grammar.expression := by
  have unfolded : Written.expression.rule Callee.rule = Grammar.disjunction Grammar.expression := rfl
  exact unfolded.trans (congrArg Rule.mk (funext fun input => (Grammar.run_expression input).symm))

/-- So does what is written for the rule behind a negation. -/
theorem rule_unary : Written.unary.rule Callee.rule = Grammar.unary Grammar.expression := by
  have unfolded : Written.unary.rule Callee.rule =
      Written.unary.rule (among Grammar.expression (Grammar.unary Grammar.expression)) := rfl
  exact unfolded.trans (congrArg Rule.mk (funext fun input => (Grammar.run_unary input).symm))

/-- **A rule that is entered is the one that is written**, names standing for the rules themselves. -/
theorem rule_script (callee : Callee) : callee.script.rule Callee.rule = callee.rule := by
  cases callee with
  | expression => exact rule_expression
  | unary => exact rule_unary

end Callee

/-! ## What a text can be read as -/

/-- What a text, or a part of one, can be read as. -/
inductive Construct where
  /-- A whole text that is one expression. -/
  | root
  /-- An expression. -/
  | expression
  /-- An expression that joins or negates conditions. -/
  | logical
  /-- Two sides with `==` or `!=` between them. -/
  | comparison
  /-- An expression in parentheses. -/
  | grouped
  /-- An identifier. -/
  | symbol
  /-- A type in brackets. -/
  | typeRef
  /-- A quoted string with references. -/
  | quotedString
  /-- A quoted string without references. -/
  | quotedLiteral
  /-- A reference to a property. -/
  | evaluate
  /-- A reference to items. -/
  | itemGroup
  /-- A reference to items, each changed. -/
  | itemTransform
  /-- A reference to metadata. -/
  | itemMetadata
  /-- A call of any form. -/
  | functionCall
  /-- A call without a target. -/
  | globalCall
  /-- A call on a value. -/
  | instanceCall
  /-- A call on a type. -/
  | staticCall
  /-- The arguments of a call. -/
  | argumentList
  /-- Expressions with semicolons between them. -/
  | list
  /-- Any text with semicolons in it. -/
  | simpleList
  deriving DecidableEq, Repr

namespace Construct

/-- What is read. -/
def Value : Construct → Type
  | argumentList => List Expr
  | list => Grammar.ListParts
  | simpleList => List Span
  | _ => Expr

/-- The rule of the grammar that reads it. -/
def rule : (construct : Construct) → Rule construct.Value
  | root => Grammar.root
  | expression => Grammar.expression
  | logical => Grammar.logical
  | comparison => Grammar.comparison Grammar.expression
  | grouped => Grammar.grouped Grammar.expression
  | symbol => Grammar.symbol
  | typeRef => Grammar.typeRef
  | quotedString => Grammar.quotedString Grammar.expression
  | quotedLiteral => Grammar.quotedLiteral
  | evaluate => Grammar.evaluate Grammar.expression
  | itemGroup => Grammar.itemGroup
  | itemTransform => Grammar.itemTransform Grammar.expression
  | itemMetadata => Grammar.itemMetadata
  | functionCall => Grammar.functionCall Grammar.expression
  | globalCall => Grammar.globalCall Grammar.expression
  | instanceCall => Grammar.instanceCall Grammar.expression
  | staticCall => Grammar.staticCall Grammar.expression
  | argumentList => Grammar.argumentList Grammar.expression
  | list => Grammar.list
  | simpleList => Grammar.simpleList

/-- What is written for it. -/
def script : (construct : Construct) → Script construct.Value
  | root => Written.root
  | expression => Written.expression
  | logical => Written.logical
  | comparison => Written.comparison
  | grouped => Written.grouped
  | symbol => Written.symbol
  | typeRef => Written.typeRef
  | quotedString => Written.quotedString
  | quotedLiteral => Written.quotedLiteral
  | evaluate => Written.evaluate
  | itemGroup => Written.itemGroup
  | itemTransform => Written.itemTransform
  | itemMetadata => Written.itemMetadata
  | functionCall => Written.functionCall
  | globalCall => Written.globalCall
  | instanceCall => Written.instanceCall
  | staticCall => Written.staticCall
  | argumentList => Written.argumentList
  | list => Written.list
  | simpleList => Written.simpleList

/-- **The rule that reads a construct is the one that is written.** Outside parentheses and arguments
an expression is written out. -/
theorem rule_script (construct : Construct) : construct.script.rule Callee.rule = construct.rule := by
  have whole := Callee.rule_expression
  cases construct with
  | expression => exact whole
  | logical => exact congrArg (Rule.require Grammar.isLogical "expected a logical expression") whole
  | root =>
    let toEnd (rule : Rule Expr) := (rule.thenSkip Grammar.ws).thenSkip Rule.endOfInput
    exact congrArg (fun rule => Grammar.ws.skipThen (Rule.choice
      [toEnd (Grammar.grouped Grammar.expression), toEnd rule,
        toEnd (Grammar.quotedString Grammar.expression)])) whole
  | list =>
    let item (rule : Rule Expr) := (Grammar.ws.skipThen rule).optional
    exact congrArg (fun rule => (((item rule).andThen
      (Grammar.separator.andThen (item rule)).many).thenSkip Grammar.ws).map
        fun (first, rest) => Grammar.ListParts.mk first rest) whole
  | _ => rfl

end Construct

end ProjectLens
