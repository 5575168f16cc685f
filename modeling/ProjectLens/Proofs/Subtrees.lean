import ProjectLens.Proofs.Separators

/-! # The nodes of derived trees

Every node of a derived tree is derived itself, from tokens of its own. Parentheses leave no node
behind, so a node in parentheses is derived from its tokens with the parentheses around them, and its
children from tokens inside. The one node without tokens is the name that is missing after the period
of a metadata reference.

* `Derivation.Subtree`: what a node is derived as;
* `Derivation.Siblings`: children in a row, each over its own part of the tokens;
* `Derivation.Subtree.siblings`: the children of a node stand in a row over its tokens;
* `Derivation.Subtree.every`: what holds of every construct holds of all nodes of a tree;
* `every_of_parse_root`, `every_of_parse_list`: the expressions that texts are read as;
* `ExprTree.exists_expr`: a node of a linked tree stands for a node of the expression. -/

namespace ProjectLens

namespace Derivation

open ProjectLens.Expr

/-- **What a node of a tree is derived as.** -/
inductive Subtree (named : String → Prop) : List Lexeme → Expr → Prop where
  /-- An expression. -/
  | expression {tokens : List Lexeme} {tree : Expr} :
      Expression named tokens tree → Subtree named tokens tree
  /-- The argument of a call, which may be a number. -/
  | argument {tokens : List Lexeme} {tree : Expr} :
      Argument (Expression named) tokens tree → Subtree named tokens tree
  /-- The type a function belongs to. -/
  | typeRef {tokens : List Lexeme} {tree : Expr} : TypeRef tokens tree → Subtree named tokens tree
  /-- The name in a metadata reference, which may be white space. -/
  | name {tokens : List Lexeme} {tree : Expr} :
      MetadataName named tokens tree → Subtree named tokens tree
  /-- The separator of a transform. -/
  | literal {tokens : List Lexeme} {tree : Expr} :
      QuotedLiteral tokens tree → Subtree named tokens tree
  /-- A plain run in a string. -/
  | run {run : List Lexeme} :
      run ≠ [] → (∀ lexeme ∈ run, Grammar.isPlain lexeme.token = true) →
      Subtree named run
        (Expr.leaf (.stringContent (Grammar.decode (run.map Lexeme.token))) (cover run))

/-- **Children in a row**, each over its own part of the tokens. -/
inductive Siblings (named : String → Prop) : List Lexeme → List Expr → Prop where
  /-- No further child. -/
  | none (tokens : List Lexeme) : Siblings named tokens []
  /-- A child after some tokens that belong to none, and the children behind it. -/
  | cons (gap : List Lexeme) {tokens rest : List Lexeme} {tree : Expr} {trees : List Expr} :
      Subtree named tokens tree → Siblings named rest trees →
      Siblings named (gap ++ (tokens ++ rest)) (tree :: trees)
  /-- A name that is missing after a period, where there are further tokens. -/
  | unnamed (gap : List Lexeme) {period : Lexeme} {rest : List Lexeme} {trees : List Expr} :
      rest ≠ [] → Siblings named rest trees →
      Siblings named (gap ++ period :: rest)
        (Expr.symbol "" (Span.emptyAt period.span.stop) :: trees)

variable {named : String → Prop} {inner : List Lexeme → Expr → Prop}
  {tokens left right body : List Lexeme} {tree : Expr} {trees more : List Expr}

/-! ## Rows of children -/

/-- `Siblings named right trees → Siblings named (left ++ right) trees`: tokens before the children
change nothing. -/
theorem Siblings.behind (h : Siblings named right trees) (left : List Lexeme) :
    Siblings named (left ++ right) trees := by
  cases h with
  | none => exact .none _
  | cons gap htree hrest =>
    rw [← List.append_assoc]
    exact .cons (left ++ gap) htree hrest
  | unnamed gap hrest htrees =>
    rw [← List.append_assoc]
    exact .unnamed (left ++ gap) hrest htrees

/-- Rows over tokens next to each other are a row over all of them. -/
theorem Siblings.append (hleft : Siblings named left trees) (hright : Siblings named right more) :
    Siblings named (left ++ right) (trees ++ more) := by
  induction hleft with
  | none => exact hright.behind _
  | cons gap htree _ ih =>
    rw [List.append_assoc, List.append_assoc]
    exact .cons gap htree ih
  | unnamed gap hrest _ ih =>
    rw [List.append_assoc]
    exact .unnamed gap (by simp [hrest]) ih

/-- `Siblings named left trees → Siblings named (left ++ right) trees`: nor do tokens behind
them. -/
theorem Siblings.before (h : Siblings named left trees) (right : List Lexeme) :
    Siblings named (left ++ right) trees := by
  have := h.append (.none right)
  rwa [List.append_nil] at this

/-- `Siblings named body trees → Siblings named (b.around body) trees`: nor do brackets around
them. -/
theorem Siblings.around {opens : Token} (b : Bracket opens) (h : Siblings named body trees) :
    Siblings named (b.around body) trees :=
  ((h.before (b.after ++ [b.closing])).behind b.before).behind [b.opening]

/-- A subtree alone is a row of siblings. -/
theorem Subtree.single (h : Subtree named tokens tree) : Siblings named tokens [tree] := by
  have := Siblings.cons [] h (.none [])
  rwa [List.append_nil] at this

/-! ## Constructs that are expressions -/

/-- A unary expression is an expression. -/
theorem Unary.toExpression (h : Unary named (Expression named) tokens tree) :
    Expression named tokens tree :=
  .intro (.single (.single h))

/-- A primary is a subtree of its tokens. -/
theorem Primary.subtree (h : Primary named (Expression named) tokens tree) :
    Subtree named tokens tree :=
  .expression h.toExpression

/-- A symbol is a subtree of its tokens. -/
theorem Symbol.subtree (h : Symbol named tokens tree) : Subtree named tokens tree := by
  obtain ⟨hname, hnamed⟩ := h
  exact (Primary.symbol hname hnamed).subtree

/-- An operand of a comparison is a subtree of its tokens. -/
theorem Operand.subtree (h : Operand named (Expression named) tokens tree) :
    Subtree named tokens tree := by
  cases h with
  | quoted h => exact (Primary.quoted h).subtree
  | evaluate h => exact (Primary.evaluate h).subtree
  | symbol hname hnamed => exact (Primary.symbol hname hnamed).subtree

/-! ## Construct by construct -/

/-- The children of item metadata `%(…)` are siblings in its tokens. -/
theorem ItemMetadata.siblings (h : ItemMetadata named tokens tree) :
    Siblings named tokens tree.children := by
  cases h with
  | empty b => exact .none _
  | plain b h => exact h.subtree.single.around b
  | @qualified b type gap name period _ _ htype _ _ hname =>
    have hend := ((Subtree.name hname).single.behind [period]).behind gap
    exact (htype.subtree.single.append hend).around b
  | @unnamed b type gap period _ _ htype _ _ =>
    -- the closing parenthesis stands behind the missing name
    have hname : Siblings named (gap ++ period :: (b.after ++ [b.closing]))
        [Expr.symbol "" (Span.emptyAt period.span.stop)] :=
      .unnamed gap (by simp) (.none _)
    have hrow := ((htype.subtree.single.append hname).behind b.before).behind [b.opening]
    simpa [Bracket.around, Expr.children] using hrow

/-- The children of an item list `@(…)` are siblings in its tokens. -/
theorem ItemGroup.siblings (h : ItemGroup named tokens tree) :
    Siblings named tokens tree.children := by
  obtain ⟨b, h⟩ := h
  cases h with
  | none => exact .none _
  | some h => exact h.subtree.single.around b

/-- Arguments between commas are siblings in the tokens of the whole list. -/
theorem Arguments.siblings (h : Arguments (Expression named) tokens trees) :
    Siblings named tokens trees := by
  induction h with
  | last h => exact (Subtree.argument h).single
  | more comma h _ ih => exact (Subtree.argument h).single.append (ih.behind comma.lexemes)

/-- So are the arguments of a list with its brackets, none for `()`. -/
theorem ArgumentList.siblings (h : ArgumentList (Expression named) tokens trees) :
    Siblings named tokens trees := by
  cases h with
  | empty b => exact .none _
  | filled b h => exact h.siblings.around b

/-- The children of a call, its name and its arguments, are siblings in its tokens. -/
theorem FunctionCall.siblings (h : FunctionCall named (Expression named) tokens tree) :
    Siblings named tokens tree.children := by
  cases h with
  | @plain name _ _ _ _ _ h => exact h.siblings.behind [name]
  | @onInstance _ _ period name _ _ _ htarget _ _ _ h =>
    exact htarget.subtree.single.append (h.siblings.behind [period, name])
  | @onType _ _ colons name _ _ _ htarget _ _ _ h =>
    exact (Subtree.typeRef htarget).single.append (h.siblings.behind [colons, name])

/-- The children of an evaluation `$(…)` are siblings in its tokens. -/
theorem Evaluate.siblings (h : Evaluate named (Expression named) tokens tree) :
    Siblings named tokens tree.children := by
  cases h with
  | call b h => exact (Primary.call h).subtree.single.around b
  | symbol b h => exact h.subtree.single.around b

/-- The parts of a quoted text are siblings in its tokens. -/
theorem Parts.siblings (h : Parts named (Expression named) tokens trees) :
    Siblings named tokens trees := by
  induction h with
  | nil => exact .none _
  | evaluate h _ ih => exact (Primary.evaluate h).subtree.single.append ih
  | metadata h _ ih => exact (Primary.metadata h).subtree.single.append ih
  | group h _ ih => exact (Primary.group h).subtree.single.append ih
  | plain hrun hplain _ _ ih => exact (Subtree.run hrun hplain).single.append ih

/-- The children of a quoted string are siblings in its tokens. -/
theorem QuotedString.siblings (h : QuotedString named (Expression named) tokens tree) :
    Siblings named tokens tree.children := by
  obtain ⟨-, h, -⟩ := h
  exact (h.siblings.before _).behind [_]

/-- What a transform's quoted text holds are siblings in its tokens, none for an empty one. -/
theorem TransformText.siblings (h : TransformText named (Expression named) tokens trees) :
    Siblings named tokens trees := by
  cases h with
  | body h => exact (Primary.quoted h).subtree.single
  | separated comma h hliteral =>
    have hliteral : Subtree named _ _ := .literal hliteral
    exact (Primary.quoted h).subtree.single.append (hliteral.single.behind comma.lexemes)

/-- The children of an item transform `@(… -> …)` are siblings in its tokens. -/
theorem ItemTransform.siblings (h : ItemTransform named (Expression named) tokens tree) :
    Siblings named tokens tree.children := by
  obtain ⟨b, arrow, hname, htext⟩ := h
  cases htext with
  | none => exact (hname.subtree.single.before _).around b
  | some h => exact (hname.subtree.single.append (h.siblings.behind arrow.lexemes)).around b

/-- The two sides of a comparison are siblings in its tokens. -/
theorem Compared.siblings (h : Compared named (Expression named) tokens tree) :
    Siblings named tokens tree.children := by
  obtain ⟨operator, hleft, hright⟩ := h
  exact hleft.subtree.single.append (hright.subtree.single.behind operator.lexemes)

section Inside

variable (hi : ∀ l e, inner l e → Expression named l e ∧ Siblings named l e.children)

include hi

/-- Parentheses have the children of what is inside them. -/
theorem Primary.siblings (h : Primary named inner tokens tree) :
    Siblings named tokens tree.children := by
  have hinner : ∀ l e, l.length < tokens.length → inner l e → Expression named l e :=
    fun l e _ h => (hi l e h).1
  cases h with
  | grouped h =>
    obtain ⟨b, h⟩ := h
    rw [Expr.children_withSpan]
    exact (hi _ _ h).2.around b
  | compared h => exact (h.mono hinner).siblings
  | call h => exact (h.mono hinner).siblings
  | transform h => exact (h.mono hinner).siblings
  | group h => exact h.siblings
  | metadata h => exact h.siblings
  | quoted h => exact (h.mono hinner).siblings
  | evaluate h => exact (h.mono hinner).siblings
  | symbol => exact .none _

/-- The operand of `!` is a sibling row of one; without `!` it is the primary's children. -/
theorem Unary.siblings (h : Unary named inner tokens tree) :
    Siblings named tokens tree.children := by
  cases h with
  | primary h => exact h.siblings hi
  | @not word gap _ _ _ _ h =>
    have hoperand := (h.mono fun l e _ h => (hi l e h).1).toExpression
    exact (Subtree.expression hoperand).single.behind (word :: gap)

end Inside

/-- The operands a connective joins are siblings, given that its operands' children are. -/
theorem Joined.siblings {connective : Connective} {operand : List Lexeme → Expr → Prop}
    (hjoined : ∀ l e, Joined connective operand l e → Expression named l e)
    (hoperand : ∀ l e, operand l e → Siblings named l e.children)
    (h : Joined connective operand tokens tree) : Siblings named tokens tree.children := by
  cases h with
  | single h => exact hoperand _ _ h
  | join word hleft hright =>
    have hleft := Subtree.expression (hjoined _ _ hleft)
    have hright := Subtree.expression (hjoined _ _ (.single hright))
    exact hleft.single.append (hright.single.behind word.lexemes)

/-- The children of every expression are siblings in its tokens: one case for each kind of tree. -/
theorem Expression.siblings (h : Expression named tokens tree) :
    Siblings named tokens tree.children := by
  refine Expression.induction (motive := fun l e => Siblings named l e.children) ?_ h
  intro tokens tree h
  -- forgetting that they are shorter, the parts in parentheses are expressions like any other
  have unary : ∀ l e, Unary named (fun l e => l.length < tokens.length ∧ Expression named l e ∧
      Siblings named l e.children) l e → Unary named (Expression named) l e :=
    fun _ _ h => h.mono fun _ _ _ h => h.2.1
  refine h.siblings ?_ fun _ _ h => h.siblings ?_ fun _ _ h => h.siblings fun _ _ h => h.2
  · intro l e h
    exact .intro (h.mono fun _ _ _ h => h.mono fun l e _ h => unary l e h)
  · intro l e h
    exact .intro (.single (h.mono fun l e _ h => unary l e h))

/-- **The children of a node stand in a row over its tokens.** -/
theorem Subtree.siblings (h : Subtree named tokens tree) : Siblings named tokens tree.children := by
  cases h with
  | expression h => exact h.siblings
  | argument h =>
    cases h with
    | number => exact .none _
    | expression h => exact h.siblings
  | typeRef h =>
    obtain ⟨-, -, -⟩ := h
    exact .none _
  | name h =>
    cases h with
    | symbol h =>
      obtain ⟨-, -⟩ := h
      exact .none _
    | blank => exact .none _
  | literal h =>
    obtain ⟨-, -, -⟩ := h
    exact .none _
  | run => exact .none _

/-- A node stands over all of its tokens. -/
theorem Subtree.covers (h : Subtree named tokens tree) : Covers tokens tree := by
  cases h with
  | expression h => exact h.covers
  | argument h =>
    cases h with
    | number => exact ⟨by simp, rfl⟩
    | expression h => exact h.covers
  | typeRef h =>
    obtain ⟨-, -, -⟩ := h
    exact ⟨List.cons_ne_nil _ _, rfl⟩
  | name h =>
    cases h with
    | symbol h =>
      obtain ⟨-, -⟩ := h
      exact ⟨List.cons_ne_nil _ _, rfl⟩
    | blank => exact ⟨List.cons_ne_nil _ _, rfl⟩
  | literal h =>
    obtain ⟨-, -, -⟩ := h
    exact ⟨List.cons_ne_nil _ _, rfl⟩
  | run hrun => exact ⟨hrun, rfl⟩

/-! ## All nodes of a tree -/

variable {p : Expr → Prop} {all : List Lexeme}

mutual

/-- **What holds of every construct holds of all nodes of a tree**, if it holds of names that are
missing. -/
theorem Subtree.every (hp : ∀ l e, l <:+: all → Subtree named l e → p e)
    (hname : ∀ offset, p (Expr.symbol "" (Span.emptyAt offset))) :
    (tree : Expr) → {tokens : List Lexeme} → tokens <:+: all → Subtree named tokens tree →
      tree.Every p
  | .node _ _ children, _, hpart, h =>
    .node (hp _ _ hpart h) (Siblings.every hp hname children hpart h.siblings)

/-- What holds of every subtree over a part of the text's tokens, and of an empty symbol, holds of
every node of a row of siblings. -/
theorem Siblings.every (hp : ∀ l e, l <:+: all → Subtree named l e → p e)
    (hname : ∀ offset, p (Expr.symbol "" (Span.emptyAt offset))) :
    (trees : List Expr) → {tokens : List Lexeme} → tokens <:+: all → Siblings named tokens trees →
      ∀ tree ∈ trees, tree.Every p
  | [], _, _, _ => by simp
  | tree :: trees, _, hpart, h => by
    cases h with
    | @cons gap tokens rest _ _ htree hrest =>
      have hown : tokens <:+: gap ++ (tokens ++ rest) := ⟨gap, rest, List.append_assoc _ _ _⟩
      have hlater : rest <:+: gap ++ (tokens ++ rest) :=
        ⟨gap ++ tokens, [], by rw [List.append_nil, List.append_assoc]⟩
      exact List.forall_mem_cons.mpr ⟨Subtree.every hp hname tree (hown.trans hpart) htree,
        Siblings.every hp hname trees (hlater.trans hpart) hrest⟩
    | @unnamed gap period rest _ _ hrest =>
      have hlater : rest <:+: gap ++ period :: rest := ⟨gap ++ [period], [], by simp⟩
      exact List.forall_mem_cons.mpr ⟨.node (hname _) (by simp),
        Siblings.every hp hname trees (hlater.trans hpart) hrest⟩

end

end Derivation

/-! ## Texts -/

open ProjectLens.Derivation

/-- **A node that is not derived**: a name that is missing, an empty item or a separator. -/
structure Expr.IsMark (e : Expr) : Prop where
  /-- What it is. -/
  kind : e.kind = .symbol "" "" ∨ e.kind = .emptyItem ∨ ∃ shift, e.kind = .separator shift
  /-- There is nothing below it. -/
  children : e.children = []

/-- A mark has no children, so what holds of it holds of its every node. -/
theorem Expr.IsMark.every {p : Expr → Prop} {e : Expr} (h : e.IsMark) (hp : p e) : e.Every p := by
  obtain ⟨kind, span, children⟩ := e
  have hnil : children = [] := h.children
  refine .node hp ?_
  simp [hnil]

section Texts

variable {p : Expr → Prop} {text : String} (hmark : ∀ e : Expr, e.IsMark → p e)
  (hp : ∀ l e, l <:+: lex text → Subtree anyName l e → p e)

include hmark hp

/-- `tree.Every p` for an expression over a part of `lex text`, given the two facts of the
section. -/
theorem every_of_expression {body : List Lexeme} {tree : Expr} (hbody : body <:+: lex text)
    (h : Expression anyName body tree) : tree.Every p :=
  Subtree.every hp (fun _ => hmark _ ⟨.inl rfl, rfl⟩) tree hbody (.expression h)

/-- What holds of every construct holds of all nodes of a text that is one expression. -/
theorem every_of_parse_root {expr : Expr} (h : Grammar.root.parse text = .ok expr) :
    expr.Every p := by
  obtain ⟨before, body, after, hlex, -, -, hbody⟩ := (Grammar.root_of_parse h).body
  refine every_of_expression hmark hp ⟨before, after, ?_⟩ hbody
  rw [hlex, List.append_assoc]

/-- A slot holds an expression, or a mark. -/
theorem every_of_listSlot {slot : List Lexeme} {item : Option Expr} (hslot : slot <:+: lex text)
    (h : ListSlot slot item) (start : Nat) : (slotExpr item start).Every p := by
  cases h with
  | empty =>
    have hempty : (slotExpr none start).IsMark := ⟨.inr (.inl rfl), rfl⟩
    exact hempty.every (hmark _ hempty)
  | @filled blank body tree _ hbody =>
    have hpart : body <:+: blank ++ body := (List.suffix_append blank body).isInfix
    exact every_of_expression hmark hp (hpart.trans hslot) hbody

/-- What holds of every construct holds of all nodes below a list of expressions. -/
theorem every_of_parse_list {parts : Grammar.ListParts} (h : Grammar.list.parse text = .ok parts) :
    ∀ child ∈ (listExpr parts text.length).children, child.Every p := by
  obtain ⟨first, rounds⟩ := parts
  obtain ⟨rest, reads, hrest⟩ := Rule.parse_eq_ok.mp h
  obtain ⟨used, left, hlex, rfl, slot, more, blank, rfl, -, hslot, row⟩ :=
    Grammar.list_sound (lex_tiles text) reads
  obtain rfl : left = [] := hrest
  have hfirst : slot <:+: lex text := ⟨[], more ++ blank, by rw [hlex]; simp⟩
  have hmore : more <:+: lex text := ⟨slot, blank, by rw [hlex]; simp⟩
  refine List.forall_mem_cons.mpr ⟨every_of_listSlot hmark hp hfirst hslot 0, ?_⟩
  -- one round after another, each over its own tokens
  clear hlex hslot hfirst reads h
  generalize blank ++ [] = left at row
  simp only at row
  induction row with
  | nil => simp
  | @cons used more left value values hround _ ih =>
    have hused : used <:+: lex text := ((List.prefix_append used more).isInfix).trans hmore
    have hlater : more <:+: lex text := ((List.suffix_append used more).isInfix).trans hmore
    obtain ⟨semicolon, hslot⟩ := hround
    rename_i slot item
    have hslotIn : slot <:+: lex text :=
      ((List.suffix_append semicolon.lexemes slot).isInfix).trans hused
    have hseparator : (separatorExpr semicolon.lexeme.span.start (cover semicolon.lexemes)).IsMark :=
      ⟨.inr (.inr ⟨_, rfl⟩), rfl⟩
    simp only [List.flatMap_cons, List.cons_append, List.nil_append, List.forall_mem_cons]
    exact ⟨hseparator.every (hmark _ hseparator), every_of_listSlot hmark hp hslotIn hslot _,
      ih hlater⟩

end Texts

/-! ## Nodes of linked trees -/

/-- `e.Every p → e.Every q → e.Every fun e => p e ∧ q e`. -/
theorem Expr.Every.and {p q : Expr → Prop} {e : Expr} (hp : e.Every p) (hq : e.Every q) :
    e.Every fun e => p e ∧ q e := by
  induction hp with
  | node h _ ih => exact .node ⟨h, hq.root⟩ fun child hc => ih child hc (hq.children child hc)

namespace ExprTree

open ProjectLens.Expr

/-- **A node stands for a node of the expression**: it is what that one is, and so are its children,
which have the numbers after its own. -/
theorem exists_expr {p : Expr → Prop} {expr : Expr} {node : ExprNode} (hw : expr.Every WellFormed)
    (h : expr.Every p) (hnode : node ∈ (ofExpr expr).withLinks.nodes) : ∃ e : Expr,
    e.Every p ∧ node.asChild = e.asChild ∧ node.children = childIds (node.id + 1) e.children ∧
      ((ofExpr expr).withLinks.childrenOf node).map ExprNode.asChild =
        e.children.map Expr.asChild ∧ (node.id ≠ 0 → e.size < expr.size) := by
  -- the node stands at some number, where an expression of the tree was laid out
  obtain ⟨place, hplace⟩ := Array.mem_iff_getElem?.mp hnode
  have hbare := get?_ofExpr_withLinks expr place
  rw [get?, hplace, Option.map_some] at hbare
  obtain ⟨unlinked, hunlinked, hsame⟩ := Option.map_eq_some_iff.mp hbare.symm
  have hsits : Sits (expr.nodesFrom 0) 0 expr := ⟨[], [], by simp, rfl⟩
  obtain ⟨id, e, hsits, hevery, rfl⟩ :=
    hsits.every (hw.and h) unlinked (List.mem_of_getElem? hunlinked)
  have hsame : rootNode id e = node.bare := hsame
  have hid : node.id = id := (congrArg ExprNode.id hsame).symm
  have hchildren : node.children = childIds (id + 1) e.children :=
    (congrArg ExprNode.children hsame).symm
  have hordered : ∀ child ∈ e.children, child.span.start ≤ child.span.stop :=
    fun child hc => (hevery.children child hc).root.1.laid.ordered
  refine ⟨e, hevery.mono fun _ h => h.2, ?_, hid ▸ hchildren, ?_, ?_⟩
  · show node.bare.asChild = _
    rw [← hsame, ExprNode.asChild, span_rootNode id hevery.root.1.laid.ordered]
    rfl
  · -- links are not looked at
    have hlinks : ExprNode.asChild = ExprNode.asChild ∘ ExprNode.bare := rfl
    have hnodes : (ofExpr expr).childrenOf node = rootNodes (id + 1) e.children := by
      rw [childrenOf, ← node.children_bare, ← hsame]
      exact childrenOf_rootNode hsits
    rw [hlinks, ← List.map_map, map_bare_childrenOf_withLinks, List.map_map, ← hlinks, hnodes,
      map_asChild_rootNodes (id + 1) hordered]
  · -- the nodes before it take up room of their own
    intro hne
    obtain ⟨before, after, hnodes, hlength⟩ := hsits
    have hsize := congrArg List.length hnodes
    simp only [List.length_append, length_nodesFrom] at hsize
    omega

end ExprTree

end ProjectLens
