import ProjectLens.Proofs.Completeness
import ProjectLens.Proofs.Deepest
import ProjectLens.Proofs.WrittenGrammar

/-! # Lists of one expression

A text is one expression just when it is a list of one expression. The first form tries a group and a
string on their own before and after an expression, the second reads an expression or nothing and
looks for semicolons; still neither accepts what the other does not, and the tree of the list is that
of the expression under a root.

* `Grammar.root_reads_iff`: the alternatives of a whole text are those of an expression;
* `Grammar.list_parse_single_iff`: texts that are read as lists of one expression;
* `ExprTree.IsSingle`, `ExprTree.Below`: lists of one item, and a tree under a root;
* `singleItem_agrees`: the two forms on any text. -/

namespace ProjectLens

namespace Rule

variable {α : Type} {rule : Rule α} {used rest : List Lexeme} {value : α} {start stop : Nat}

/-- Tokens stand at one place only, so what is read from them once is taken from them. -/
theorem takes_of_reads (tiles : Tiles start (used ++ rest) stop) (filled : used ≠ [])
    (h : rule.Reads ⟨used ++ rest, stop⟩ value ⟨rest, stop⟩) : rule.Takes used value rest := by
  intro start' stop' tiles'
  have hne : used ++ rest ≠ [] := fun h => filled (List.append_eq_nil_iff.mp h).1
  have hcover := (tiles.cover_eq hne).symm.trans (tiles'.cover_eq hne)
  cases hcover
  exact h

/-- A run of a rule succeeds or fails. -/
theorem reads_or_fails (rule : Rule α) (input : Input) :
    (∃ value rest, rule.Reads input value rest) ∨ rule.Fails input := by
  cases hrun : rule.run input with
  | ok value rest recovered => exact .inl ⟨value, rest, recovered, hrun⟩
  | fail failure => exact .inr ⟨failure, hrun⟩

end Rule

namespace Grammar

open Rule ProjectLens.Derivation

variable {body after lexemes : List Lexeme} {tree : Expr} {rest : Input} {start stop : Nat}

/-! ## The alternatives of a whole text -/

/-- One operand, before the end of the text, is all that is read of operands joined by a keyword. -/
theorem joined_takes_single {operandRule : Rule Expr} (connective : Connective)
    (h : operandRule.Takes body tree after) (hafter : Blank after) :
    ((operandRule.andThen (round connective operandRule).many).map
      fun (first, rest) => rest.foldl (Expr.join connective) first).Takes body tree after := by
  have hrefuses : (round connective operandRule).Refuses after := round_refuses (followed_blank hafter)
  have hmany : (round connective operandRule).many.Takes [] [] after := Takes.many .nil hrefuses
  have hboth := (h.andThen hmany).map
    (f := fun (first, rest) => rest.foldl (Expr.join connective) first)
  rw [List.append_nil] at hboth
  exact hboth

/-- **A primary before the end of the text is an expression**, unless a negation opens it. -/
theorem expression_takes_primary (h : (primary expression).Takes body tree after)
    (hnegation : (choice [just .bang, keyword "not"]).Refuses (body ++ after))
    (hafter : Blank after) : expression.Takes body tree after := by
  have hunary : (unary expression).Takes body tree after :=
    fun _ _ tiles => hnegation.thenSkip.skipThen.spanned.orElse_takes h tiles
  have hconjunction : (conjunction expression).Takes body tree after :=
    joined_takes_single .and hunary hafter
  have hdisjunction : (disjunction expression).Takes body tree after :=
    joined_takes_single .or hconjunction hafter
  intro start stop tiles
  unfold Reads
  rw [run_expression]
  exact hdisjunction tiles

/-- No negation starts with a parenthesis or a quote. -/
theorem negation_refuses_opens (h : Begins (fun t => t = .openParen ∨ t = .quote) lexemes) :
    (choice [just .bang, keyword "not"]).Refuses lexemes := by
  refine negation_refuses (h.mono fun t ht hnegates => ?_)
  rcases ht with rfl | rfl <;> rcases hnegates with hnegates | hnegates <;> cases hnegates

/-- A string on its own is left to its alternative among the primaries. -/
theorem primary_takes_quoted (h : (quotedString expression).Takes body tree after)
    (hopens : Opens (· = .quote) body) (hafter : Blank after) :
    (primary expression).Takes body tree after := by
  have hbegins := hopens.begins after
  have hgrouped : (grouped expression).Refuses (body ++ after) :=
    grouped_refuses (hbegins.mono fun _ ht => by simp [ht])
  have hcomparison : (comparison expression).Refuses (body ++ after) := by
    -- the string and all that is left are read before the operator is missed
    have hoperand : (operand expression).Takes body tree (after ++ []) := by
      rw [List.append_nil]
      exact h.choice
    have hside := hoperand.thenSkip (ws_takes hafter begins_nil)
    have hmissing := hside.andThen_refuses (comparisonOperator_refuses begins_nil)
    rw [List.append_nil] at hmissing
    exact hmissing.thenSkip.andThen.spanned.labelled
  have hcall : (functionCall expression).Refuses (body ++ after) :=
    functionCall_refuses (hbegins.mono fun _ ht => by simp [ht])
  have htransform : (itemTransform expression).Refuses (body ++ after) :=
    itemTransform_refuses (hbegins.mono fun _ ht => by simp [ht])
  have hgroup := itemGroup_refuses (hbegins.mono fun _ ht => by simp [ht])
  have hmetadata := itemMetadata_refuses (hbegins.mono fun _ ht => by simp [ht])
  exact hgrouped.choice_takes (hcomparison.choice_takes (hcall.choice_takes
    (htransform.choice_takes (hgroup.choice_takes (hmetadata.choice_takes h.choice)))))

/-- Something up to the end of the text. -/
abbrev toEnd (rule : Rule Expr) : Rule Expr := (rule.thenSkip ws).thenSkip endOfInput

/-- What is read up to the end of the text is followed by white space only. -/
theorem exists_of_toEnd {rule : Rule Expr} {P : List Lexeme → Expr → List Lexeme → Prop}
    (hsound : rule.Sound P) (tiles : Tiles start lexemes stop)
    (h : (toEnd rule).Reads ⟨lexemes, stop⟩ tree rest) :
    ∃ body after, lexemes = body ++ after ∧ Blank after ∧ P body tree after ∧
      rule.Reads ⟨body ++ after, stop⟩ tree ⟨after, stop⟩ ∧ rest = ⟨[], stop⟩ := by
  obtain ⟨_, middle, hbody, hend⟩ := reads_thenSkip.mp h
  obtain ⟨_, before, hrule, hws⟩ := reads_thenSkip.mp hbody
  obtain ⟨body, after, rfl, rfl, hmeans⟩ := hsound tiles hrule
  obtain rfl := reads_ws.mp hws
  obtain ⟨hnone, rfl⟩ := reads_endOfInput.mp hend
  obtain ⟨blank, hblank, hsplit⟩ := exists_blank_append_skipBlank after
  have hskip : skipBlank after = [] := hnone
  rw [hskip, List.append_nil] at hsplit
  refine ⟨body, after, rfl, hsplit ▸ hblank, hmeans, hrule, ?_⟩
  rw [hskip]

/-- **A group or a string up to the end of the text is an expression up to there.** -/
theorem expression_toEnd_of {rule : Rule Expr} {P : List Lexeme → Expr → List Lexeme → Prop}
    (hsound : rule.Sound P)
    (hopens : ∀ {body tree after}, P body tree after →
      Opens (fun t => t = .openParen ∨ t = .quote) body)
    (hprimary : ∀ {body tree after}, P body tree after → Blank after → rule.Takes body tree after →
      (primary expression).Takes body tree after)
    (tiles : Tiles start lexemes stop) (h : (toEnd rule).Reads ⟨lexemes, stop⟩ tree rest) :
    (toEnd expression).Reads ⟨lexemes, stop⟩ tree rest := by
  obtain ⟨body, after, rfl, hafter, hmeans, hrule, rfl⟩ := exists_of_toEnd hsound tiles h
  have hbody := hopens hmeans
  have htakes := takes_of_reads tiles hbody.ne_nil hrule
  have hexpression := expression_takes_primary (hprimary hmeans hafter htakes)
    (negation_refuses_opens (hbody.begins after)) hafter
  have hend := toEnd_takes hexpression hafter
  rw [← List.append_nil (body ++ after)] at tiles ⊢
  exact hend tiles

/-- A group that is read to the end is read to the end as an expression. -/
theorem expression_toEnd_of_grouped (tiles : Tiles start lexemes stop)
    (h : (toEnd (grouped expression)).Reads ⟨lexemes, stop⟩ tree rest) :
    (toEnd expression).Reads ⟨lexemes, stop⟩ tree rest := by
  refine expression_toEnd_of (grouped_sound (inner_sound expression_sound)) ?_ ?_ tiles h
  · rintro _ _ _ ⟨b, -⟩
    exact ⟨_, _, rfl, .inl b.opening_token⟩
  · intro body tree after _ _ htakes
    exact htakes.choice

/-- So is a quoted string. -/
theorem expression_toEnd_of_quoted (tiles : Tiles start lexemes stop)
    (h : (toEnd (quotedString expression)).Reads ⟨lexemes, stop⟩ tree rest) :
    (toEnd expression).Reads ⟨lexemes, stop⟩ tree rest := by
  refine expression_toEnd_of (quotedString_sound (inner_sound expression_sound)) ?_ ?_ tiles h
  · intro body tree after hquoted
    exact (quotedString_opens hquoted).mono fun _ ht => .inr ht
  · intro body tree after hquoted hafter htakes
    exact primary_takes_quoted htakes (quotedString_opens hquoted) hafter

/-- **A whole text is an expression between white space**: the other two alternatives accept nothing
else, and give no other tree. -/
theorem root_reads_iff (tiles : Tiles start lexemes stop) :
    root.Reads ⟨lexemes, stop⟩ tree rest ↔
      (ws.skipThen (toEnd expression)).Reads ⟨lexemes, stop⟩ tree rest := by
  unfold root
  rw [reads_skipThen, reads_skipThen]
  -- both read the same white space first
  refine exists_congr fun _ => exists_congr fun middle => and_congr_right fun hws => ?_
  obtain rfl := reads_ws.mp hws
  obtain ⟨blank, -, hsplit⟩ := exists_blank_append_skipBlank lexemes
  rw [hsplit] at tiles
  obtain ⟨border, -, tiles⟩ := tiles_append.mp tiles
  constructor
  · intro h
    rcases reads_choice_cons.mp h with hgrouped | ⟨-, h⟩
    · exact expression_toEnd_of_grouped tiles hgrouped
    rcases reads_choice_cons.mp h with hexpression | ⟨-, h⟩
    · exact hexpression
    rcases reads_choice_cons.mp h with hquoted | ⟨-, h⟩
    · exact expression_toEnd_of_quoted tiles hquoted
    · exact (reads_choice_nil.mp h).elim
  · intro h
    apply reads_choice_cons.mpr
    rcases reads_or_fails (toEnd (grouped expression)) ⟨skipBlank lexemes, stop⟩ with
      ⟨other, rest', hgrouped⟩ | hfails
    · -- a group up to the end is read as what the expression is read as
      obtain ⟨rfl, rfl⟩ := (expression_toEnd_of_grouped tiles hgrouped).unique h
      exact .inl hgrouped
    · exact .inr ⟨hfails, reads_choice_cons.mpr (.inl h)⟩

/-! ## Lists of one expression -/

/-- Where no semicolon follows there is no separator. -/
theorem separator_refuses (h : Followed (· ≠ .semicolon) lexemes) : separator.Refuses lexemes := by
  obtain ⟨blank, hblank, hsplit⟩ := exists_blank_append_skipBlank lexemes
  have hws := ws_takes hblank (skipBlank_begins lexemes)
  have hsemicolon : ((just .semicolon).spanned fun _ span => span).Refuses (skipBlank lexemes) :=
    (just_refuses h).spanned
  have hmissing := hws.skipThen_refuses hsemicolon
  rw [← hsplit] at hmissing
  exact hmissing.thenSkip.spanned

/-- **A list of one expression** is read where an expression is read between white space. -/
theorem list_reads_single_iff (tiles : Tiles start lexemes stop) :
    (∃ rest, list.Reads ⟨lexemes, stop⟩ ⟨some tree, []⟩ rest ∧ rest.lexemes = []) ↔
      ∃ rest, (ws.skipThen (toEnd expression)).Reads ⟨lexemes, stop⟩ tree rest := by
  constructor
  · rintro ⟨rest, hlist, hrest⟩
    obtain ⟨⟨first, later⟩, hparts, heq⟩ := reads_map.mp hlist
    cases heq
    obtain ⟨_, middle, hslots, hws⟩ := reads_thenSkip.mp hparts
    obtain ⟨behind, hitem, hrounds⟩ := reads_andThen.mp hslots
    rcases reads_optional.mp hitem with ⟨_, heq, hitem⟩ | ⟨heq, -⟩
    · cases heq
      obtain ⟨_, inside, hbefore, hexpression⟩ := reads_skipThen.mp hitem
      -- there was no round, so the white space is that after the expression
      have hbehind : middle = behind := by
        cases reads_many.mp hrounds with
        | done _ => rfl
        | stuck _ _ => rfl
      subst hbehind
      have hend : (toEnd expression).Reads inside tree rest :=
        reads_thenSkip.mpr ⟨(), rest, reads_thenSkip.mpr ⟨_, middle, hexpression, hws⟩,
          reads_endOfInput.mpr ⟨hrest, rfl⟩⟩
      exact ⟨rest, reads_skipThen.mpr ⟨_, inside, hbefore, hend⟩⟩
    · cases heq
  · rintro ⟨rest, h⟩
    obtain ⟨_, inside, hbefore, hend⟩ := reads_skipThen.mp h
    have hinside := reads_ws.mp hbefore
    subst hinside
    obtain ⟨blank, -, hsplit⟩ := exists_blank_append_skipBlank lexemes
    have tiles' := tiles
    rw [hsplit] at tiles'
    obtain ⟨border, -, tiles'⟩ := tiles_append.mp tiles'
    obtain ⟨body, after, hbody, hafter, -, hexpression, rfl⟩ :=
      exists_of_toEnd expression_sound tiles' hend
    rw [hbody] at tiles'
    obtain ⟨border', -, tiles'⟩ := tiles_append.mp tiles'
    rw [hbody] at hbefore
    have hitem : listItem.Reads ⟨lexemes, stop⟩ (some tree) ⟨after, stop⟩ :=
      reads_optional.mpr (.inl ⟨tree, rfl, reads_skipThen.mpr ⟨_, _, hbefore, hexpression⟩⟩)
    have hround : (separator.andThen listItem).Refuses after :=
      (separator_refuses (followed_blank hafter)).andThen
    have hrounds : (separator.andThen listItem).many.Reads ⟨after, stop⟩ [] ⟨after, stop⟩ :=
      reads_many.mpr (.done (hround tiles'))
    have hws : ws.Reads ⟨after, stop⟩ () ⟨[], stop⟩ := by
      refine reads_ws.mpr ?_
      rw [← List.append_nil after, skipBlank_append hafter]
      rfl
    refine ⟨⟨[], stop⟩, reads_map.mpr ⟨(some tree, []), ?_, rfl⟩, rfl⟩
    exact reads_thenSkip.mpr ⟨(), _, reads_andThen.mpr ⟨_, hitem, hrounds⟩, hws⟩

/-- **A text is a list of one expression just when it is that expression.** -/
theorem list_parse_single_iff {text : String} :
    list.parse text = .ok ⟨some tree, []⟩ ↔ root.parse text = .ok tree := by
  rw [parse_eq_ok, parse_eq_ok]
  have tiles := lex_tiles text
  refine (list_reads_single_iff tiles).trans ?_
  constructor
  · rintro ⟨rest, h⟩
    have hroot := (root_reads_iff tiles).mpr h
    obtain ⟨_, inside, -, hend⟩ := reads_skipThen.mp h
    obtain ⟨_, middle, -, hnone⟩ := reads_thenSkip.mp hend
    obtain ⟨hnone, rfl⟩ := reads_endOfInput.mp hnone
    exact ⟨rest, hroot, hnone⟩
  · rintro ⟨rest, h, -⟩
    exact ⟨rest, (root_reads_iff tiles).mp h⟩

end Grammar

/-! ## Kinds of expressions -/

/-- Whether a node of a kind is an expression, and not a part of a list. -/
def Kind.isExpression : Kind → Bool
  | .list | .simpleList | .simpleItem _ | .separator _ | .emptyItem => false
  | _ => true

/-- `(e.withSpan span).kind = e.kind`. -/
@[simp] theorem Expr.kind_withSpan (span : Span) (e : Expr) : (e.withSpan span).kind = e.kind := by
  cases e
  rfl

namespace Derivation

variable {named : String → Prop} {inner : List Lexeme → Expr → Prop} {tokens : List Lexeme}
  {tree : Expr}

/-- The tree of a primary is one of an expression. -/
theorem Primary.isExpression (hinner : ∀ l e, inner l e → e.kind.isExpression = true)
    (h : Primary named inner tokens tree) : tree.kind.isExpression = true := by
  cases h with
  | grouped h =>
    obtain ⟨b, h⟩ := h
    rw [Expr.kind_withSpan]
    exact hinner _ _ h
  | compared h => cases h; rfl
  | call h => cases h <;> rfl
  | transform h => cases h; rfl
  | group h => cases h; rfl
  | metadata h => cases h <;> rfl
  | quoted h => cases h; rfl
  | evaluate h => cases h <;> rfl
  | symbol _ _ => rfl

/-- So is the tree of what a connective joins, where those of its operands are. -/
theorem Joined.isExpression {connective : Connective} {operand : List Lexeme → Expr → Prop}
    (hoperand : ∀ l e, operand l e → e.kind.isExpression = true)
    (h : Joined connective operand tokens tree) : tree.kind.isExpression = true := by
  cases h with
  | single h => exact hoperand _ _ h
  | join _ _ _ => rfl

/-- **What is derived as an expression is one**, and no part of a list. -/
theorem Expression.isExpression (h : Expression named tokens tree) :
    tree.kind.isExpression = true := by
  -- parentheses keep the kind of what is inside them, which has fewer tokens
  refine Expression.induction (motive := fun _ tree => tree.kind.isExpression = true) ?_ h
  intro tokens tree h
  refine h.isExpression fun l e h => h.isExpression fun l e h => ?_
  cases h with
  | primary h => exact h.isExpression fun _ _ h => h.2.2
  | not _ _ _ => rfl

end Derivation

/-! ## The tree below a list -/

/-- A node one place further on, without its links. -/
def ExprNode.raised (node : ExprNode) : ExprNode :=
  { node.bare with id := node.id + 1, children := node.children.map (· + 1) }

namespace Expr

/-- Numbers that start one later are one greater. -/
theorem childIds_succ (id : Nat) (es : List Expr) :
    childIds (id + 1) es = (childIds id es).map (· + 1) := by
  induction es generalizing id with
  | nil => rfl
  | cons e es ih =>
    rw [childIds, childIds, List.map_cons, ← ih, Nat.add_right_comm]

mutual

/-- Numbered from one further on, the nodes of an expression are raised by one. -/
theorem nodesFrom_succ (id : Nat) :
    (e : Expr) → e.nodesFrom (id + 1) = (e.nodesFrom id).map ExprNode.raised
  | .node kind span children => by
    rw [nodesFrom, nodesFrom, List.map_cons, ← nodesAllFrom_succ (id + 1) children, childIds_succ]
    rfl

/-- Nodes that are numbered from one later are the nodes raised. -/
theorem nodesAllFrom_succ (id : Nat) :
    (es : List Expr) → nodesAllFrom (id + 1) es = (nodesAllFrom id es).map ExprNode.raised
  | [] => rfl
  | e :: es => by
    rw [nodesAllFrom, nodesAllFrom, List.map_append, ← nodesFrom_succ id e,
      ← nodesAllFrom_succ (id + e.size) es, Nat.add_right_comm]

end

end Expr

namespace ExprTree

/-- **A list of one item**, which is not an empty one. -/
def IsSingle (list : ExprTree) : Prop :=
  ∃ root child, list.root? = some root ∧ root.children = [child.id] ∧
    list.get? child.id = some child ∧ child.kind ≠ .emptyItem

/-- **A tree stands below the root of a list**: node for node it is what the list has after its root,
with the same kinds and spans, and with the same children one place further on. -/
structure Below (tree list : ExprTree) : Prop where
  /-- The root of the list has one child, the next node. -/
  root : ∃ root, list.root? = some root ∧ root.kind = .list ∧ root.children = [1]
  /-- The other nodes of the list are those of the tree. -/
  nodes : ∀ id, (list.get? (id + 1)).map ExprNode.bare = (tree.get? id).map ExprNode.raised

/-- Every node of a linked tree is one of its expression's nodes, but for the links. -/
theorem get?_ofExpr_withLinks (expr : Expr) (id : Nat) :
    ((ofExpr expr).withLinks.get? id).map ExprNode.bare = (expr.nodesFrom 0)[id]?.map ExprNode.bare := by
  rw [get?_withLinks, get?, ofExpr, List.getElem?_toArray]

/-- The root of a linked tree. -/
theorem exists_root?_of_expr (expr : Expr) :
    ∃ root, (ofExpr expr).withLinks.root? = some root ∧ root.bare = expr.rootNode 0 := by
  have h := get?_ofExpr_withLinks expr 0
  rw [Expr.nodesFrom_eq, List.getElem?_cons_zero, Option.map_some] at h
  exact Option.map_eq_some_iff.mp h

/-- The tree of an expression lies below the list of that expression alone. -/
theorem below_listExpr (expr : Expr) (length : Nat) :
    (ofExpr expr).withLinks.Below (ofExpr (listExpr ⟨some expr, []⟩ length)).withLinks := by
  constructor
  · obtain ⟨root, hroot, hbare⟩ := exists_root?_of_expr (listExpr ⟨some expr, []⟩ length)
    refine ⟨root, hroot, ?_, ?_⟩
    · rw [show root.kind = root.bare.kind from rfl, hbare]
      rfl
    · rw [← root.children_bare, hbare]
      rfl
  · intro id
    have hnodes : (listExpr ⟨some expr, []⟩ length).nodesFrom 0 =
        Expr.rootNode 0 (listExpr ⟨some expr, []⟩ length) ::
          (expr.nodesFrom 0).map ExprNode.raised := by
      rw [Expr.nodesFrom_eq, ← Expr.nodesFrom_succ]
      exact congrArg _ (List.append_nil _)
    -- raising a node does not look at its links
    have hraised : ∀ node : ExprNode, node.bare.raised = node.raised := fun _ => rfl
    have htree := congrArg (Option.map ExprNode.raised) (get?_ofExpr_withLinks expr id)
    rw [Option.map_map, Option.map_map] at htree
    rw [get?_ofExpr_withLinks, hnodes, List.getElem?_cons_succ, List.getElem?_map, Option.map_map]
    exact htree.symm

/-- **A list of one item that is not empty has one expression** and no separator. -/
theorem exists_of_isSingle {parts : Grammar.ListParts} {length : Nat}
    (h : (ofExpr (listExpr parts length)).withLinks.IsSingle) : ∃ expr, parts = ⟨some expr, []⟩ := by
  obtain ⟨root, child, hroot, hchildren, hchild, hkind⟩ := h
  obtain ⟨root', hroot', hbare⟩ := exists_root?_of_expr (listExpr parts length)
  obtain rfl : root = root' := Option.some.inj (hroot.symm.trans hroot')
  rw [← root.children_bare, hbare] at hchildren
  obtain ⟨first, rest⟩ := parts
  cases rest with
  | cons round rest =>
    -- a separator and its slot would be two more children
    exact absurd (congrArg List.length hchildren) (by
      simp [Expr.rootNode, Expr.childIds, Expr.children, listExpr])
  | nil =>
    cases first with
    | some expr => exact ⟨expr, rfl⟩
    | none =>
      have hid : child.id = 1 := (List.singleton_inj.mp hchildren).symm
      have hnode := get?_ofExpr_withLinks (listExpr ⟨none, []⟩ length) 1
      rw [hid] at hchild
      rw [hchild] at hnode
      have hempty : some child.kind = some .emptyItem :=
        congrArg (Option.map ExprNode.kind) hnode
      exact absurd (Option.some.inj hempty) hkind

/-- The list of one expression that is not an empty item is a single item. -/
theorem isSingle_listExpr {expr : Expr} (h : expr.kind ≠ .emptyItem) (length : Nat) :
    (ofExpr (listExpr ⟨some expr, []⟩ length)).withLinks.IsSingle := by
  obtain ⟨⟨root, hroot, -, hchildren⟩, hnodes⟩ := below_listExpr expr length
  obtain ⟨top, htop, hbare⟩ := exists_root?_of_expr expr
  have hnode := hnodes 0
  rw [show (ofExpr expr).withLinks.get? 0 = some top from htop, Option.map_some] at hnode
  -- the one child is the root of the expression's tree, raised by one
  obtain ⟨child, hchild, hraised⟩ := Option.map_eq_some_iff.mp hnode
  have hid : child.id = 1 := by
    have : child.bare.id = top.bare.id + 1 := congrArg ExprNode.id hraised
    rw [hbare] at this
    exact this
  have hkind : child.kind = expr.kind := by
    have : child.bare.kind = top.raised.kind := congrArg ExprNode.kind hraised
    rw [show top.raised.kind = top.bare.kind from rfl, hbare] at this
    exact this
  refine ⟨root, child, hroot, ?_, ?_, ?_⟩
  · rw [hchildren, hid]
  · rw [hid]
    exact hchild
  · rw [hkind]
    exact h

end ExprTree

/-! ## The two forms of a text -/

/-- The tree of a text that is one expression. -/
theorem parseAs_root_iff {text : String} {tree : ExprTree} : parseAs .root text = .ok tree ↔
    ∃ expr, Grammar.root.parse text = .ok expr ∧ tree = (ExprTree.ofExpr expr).withLinks :=
  parseAs_eq_ok

/-- The tree of a text that is a list of expressions. -/
theorem parseAs_list_iff {text : String} {list : ExprTree} : parseAs .list text = .ok list ↔
    ∃ parts, Grammar.list.parse text = .ok parts ∧
      list = (ExprTree.ofExpr (listExpr parts text.length)).withLinks := by
  rw [parseAs_eq_ok]
  simp only [parseExpr_list_eq_ok]
  constructor
  · rintro ⟨_, ⟨parts, hparts, rfl⟩, rfl⟩
    exact ⟨parts, hparts, rfl⟩
  · rintro ⟨parts, hparts, rfl⟩
    exact ⟨_, ⟨parts, hparts, rfl⟩, rfl⟩

/-- **Single expressions are read alike in both forms** of a text. -/
structure SingleItemAgrees (text : String) : Prop where
  /-- A text is an expression just when it is a list of one item that is not empty. -/
  parses_iff : (∃ tree, parseAs .root text = .ok tree) ↔
    ∃ list, parseAs .list text = .ok list ∧ list.IsSingle
  /-- The tree of the expression is what stands below the root of the list. -/
  below : ∀ tree list, parseAs .root text = .ok tree → parseAs .list text = .ok list →
    tree.Below list

/-- **A text is one expression just when it is a list of one item that is not empty**, and then the
tree of the expression stands, node for node, below the root of the list. -/
theorem singleItem_agrees (text : String) : SingleItemAgrees text := by
  constructor
  · constructor
    · rintro ⟨tree, htree⟩
      obtain ⟨expr, hexpr, rfl⟩ := parseAs_root_iff.mp htree
      have hlist := Grammar.list_parse_single_iff.mpr hexpr
      obtain ⟨-, body, -, -, -, -, hbody⟩ := (Grammar.root_of_parse hexpr).body
      have hkind : expr.kind ≠ .emptyItem := by
        intro heq
        have := hbody.isExpression
        rw [heq] at this
        cases this
      exact ⟨_, parseAs_list_iff.mpr ⟨_, hlist, rfl⟩, ExprTree.isSingle_listExpr hkind _⟩
    · rintro ⟨list, hlist, hsingle⟩
      obtain ⟨parts, hparts, rfl⟩ := parseAs_list_iff.mp hlist
      obtain ⟨expr, rfl⟩ := ExprTree.exists_of_isSingle hsingle
      have hexpr := Grammar.list_parse_single_iff.mp hparts
      exact ⟨_, parseAs_root_iff.mpr ⟨expr, hexpr, rfl⟩⟩
  · intro tree list htree hlist
    obtain ⟨expr, hexpr, rfl⟩ := parseAs_root_iff.mp htree
    obtain ⟨parts, hparts, rfl⟩ := parseAs_list_iff.mp hlist
    -- a text has one list at most
    rw [Grammar.list_parse_single_iff.mpr hexpr] at hparts
    cases hparts
    exact ExprTree.below_listExpr expr text.length

end ProjectLens
