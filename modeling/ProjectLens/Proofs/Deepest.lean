import ProjectLens.Proofs.Placement
import ProjectLens.Proofs.Taking

/-! # The expression node at an offset

Any text can be read as a plain list, and lists of either kind cover all of their text. So where a
text is read as a list there is a tree, and a node of it stands at every offset of the text.

* `ExprTree.descend_induction`, `ExprTree.mem_and_touches_of_deepestAt`: going down a tree stays at the
  offset;
* `Grammar.simpleList_total`: any text is a plain list;
* `exists_deepestAt`: at every offset of a list stands a node. -/

namespace ProjectLens

/-! ## Going down a tree -/

/-- A child that is gone down to has the offset in it or at its end. -/
theorem ExprNode.touches_of_claims {node : ExprNode} {offset : Nat} (h : node.claims offset = true) :
    node.span.touches offset = true := by
  rw [Span.touches, decide_eq_true_eq]
  show node.start ≤ offset ∧ offset ≤ node.stop
  unfold ExprNode.claims at h
  split at h
  · -- a child without characters has only its start
    rw [decide_eq_true_eq] at h
    rw [ExprNode.stop]
    omega
  · rw [decide_eq_true_eq] at h
    omega

namespace ExprTree

variable {tree : ExprTree} {node root child : ExprNode} {offset : Nat}

/-- `tree.get? id = some node → node ∈ tree.nodes`. -/
theorem mem_of_get? {id : Nat} (h : tree.get? id = some node) : node ∈ tree.nodes :=
  Array.mem_of_getElem? h

/-- `child ∈ tree.childrenOf node → child ∈ tree.nodes`. -/
theorem mem_of_mem_childrenOf (h : child ∈ tree.childrenOf node) : child ∈ tree.nodes := by
  obtain ⟨id, -, hget⟩ := List.mem_filterMap.mp h
  exact mem_of_get? hget

/-- **What holds where the descent starts**, and of every child that claims the offset if it holds of
its parent, holds where the descent ends. -/
theorem descend_induction {p : ExprNode → Prop}
    (step : ∀ {node child : ExprNode}, p node → child ∈ tree.childrenOf node →
      child.claims offset = true → p child) (node : ExprNode) (h : p node) :
    p (tree.descend offset node) := by
  induction node using ExprTree.descend.induct tree offset with
  | case1 node child hfind hinside ih =>
    rw [descend, hfind]
    simp only [if_pos hinside]
    apply ih
    have hclaims := List.find?_some (p := fun child : ExprNode => child.claims offset) hfind
    exact step h (List.mem_of_find?_eq_some hfind) hclaims
  | case2 node child hfind houtside =>
    rw [descend, hfind]
    simp only [if_neg houtside]
    exact h
  | case3 node hfind =>
    rw [descend, hfind]
    exact h

/-- **The node at an offset** is one of the tree's, with the offset in it or at its end. -/
theorem mem_and_touches_of_deepestAt (h : tree.deepestAt offset = some node) :
    node ∈ tree.nodes ∧ node.span.touches offset = true := by
  unfold deepestAt at h
  cases hroot : tree.root? with
  | none =>
    rw [hroot] at h
    cases h
  | some root =>
    simp only [hroot] at h
    split at h
    · next htouches =>
      cases h
      refine descend_induction (p := fun node => node ∈ tree.nodes ∧ node.span.touches offset = true)
        ?_ root ⟨mem_of_get? hroot, htouches⟩
      intro node child _ hchild hclaims
      exact ⟨mem_of_mem_childrenOf hchild, ExprNode.touches_of_claims hclaims⟩
    · cases h

/-- The root of a linked tree covers what the expression does. -/
theorem exists_root?_withLinks (expr : Expr) (h : expr.span.start ≤ expr.span.stop) :
    ∃ root, (ofExpr expr).withLinks.root? = some root ∧ root.span = expr.span := by
  have hsits : Expr.Sits (expr.nodesFrom 0) 0 expr := ⟨[], [], (List.append_nil _).symm, rfl⟩
  have hget : (ofExpr expr).get? 0 = some (Expr.rootNode 0 expr) := by
    rw [get?, ofExpr, List.getElem?_toArray]
    exact hsits.getElem?
  have hbare := get?_withLinks (ofExpr expr) 0
  rw [hget, Option.map_some] at hbare
  obtain ⟨root, hroot, hsame⟩ := Option.map_eq_some_iff.mp hbare
  refine ⟨root, hroot, ?_⟩
  rw [← root.span_bare, hsame, ExprNode.span_bare, Expr.span_rootNode 0 h]

end ExprTree

/-! ## Plain lists -/

namespace Grammar

open Rule

/-- One round of a plain list: a semicolon and the text after it. -/
def plainRound : Rule Span := ((just .semicolon).spanned fun _ span => span).thenSkip listText

/-- **A run is taken from any tokens**, up to the first one that ends it. -/
theorem exists_run (p : Token → Bool) (lexemes : List Lexeme) :
    ∃ front back, lexemes = front ++ back ∧
      (satisfying p).many.Takes front (front.map Lexeme.token) back ∧ Begins (p · = false) back := by
  have hfront : ∀ lexeme ∈ lexemes.takeWhile (p ·.token), p lexeme.token = true :=
    List.all_eq_true.mp List.all_takeWhile
  have hback : Begins (p · = false) (lexemes.dropWhile (p ·.token)) := by
    intro lexeme hlexeme
    have hhead := List.head?_dropWhile_not (fun lexeme : Lexeme => p lexeme.token) lexemes
    rw [hlexeme] at hhead
    simpa using hhead
  exact ⟨_, _, List.takeWhile_append_dropWhile.symm, run_takes hfront hback, hback⟩

/-- Text is taken up to the next semicolon. -/
theorem exists_listText (lexemes : List Lexeme) :
    ∃ front back text, lexemes = front ++ back ∧ listText.Takes front text back ∧
      Begins (· = .semicolon) back := by
  obtain ⟨front, back, hlexemes, htext, hback⟩ := exists_run (fun t => t ≠ .semicolon) lexemes
  refine ⟨front, back, _, hlexemes, htext, hback.mono fun t ht => ?_⟩
  simpa using ht

/-- Tokens that begin with a semicolon, if there are any, are rounds of a plain list. -/
theorem exists_plainRounds (lexemes : List Lexeme) (h : Begins (· = .semicolon) lexemes) :
    ∃ spans, Row (fun used span left => used ≠ [] ∧ plainRound.Takes used span left) lexemes spans
      [] := by
  -- every round takes its semicolon at least
  induction hlength : lexemes.length using Nat.strongRecOn generalizing lexemes with
  | _ length ih =>
    cases lexemes with
    | nil => exact ⟨[], .nil⟩
    | cons semicolon more =>
      obtain ⟨front, back, text, rfl, htext, hback⟩ := exists_listText more
      have hlt : back.length < length := by
        rw [List.length_cons, List.length_append] at hlength
        omega
      obtain ⟨spans, hspans⟩ := ih back.length hlt back hback rfl
      have hround : plainRound.Takes ([semicolon] ++ front) (cover [semicolon]) (back ++ []) := by
        rw [List.append_nil]
        have htoken : semicolon.token = .semicolon := begins_cons.mp h
        exact ((just_takes htoken _).spanned (List.cons_ne_nil _ _)).thenSkip htext
      exact ⟨_, Row.cons ⟨List.cons_ne_nil _ _, hround⟩ hspans⟩

/-- **Any text is a plain list.** -/
theorem simpleList_total (text : String) : ∃ semicolons, simpleList.parse text = .ok semicolons := by
  obtain ⟨front, back, _, hlex, htext, hback⟩ := exists_listText (lex text)
  obtain ⟨spans, hspans⟩ := exists_plainRounds back hback
  have hrounds : plainRound.many.Takes back spans [] :=
    Takes.many hspans (just_refuses begins_nil).spanned.thenSkip
  have hlist : simpleList.Takes (front ++ back) spans [] := by
    rw [← List.append_nil back] at htext
    exact htext.skipThen hrounds
  have tiles := lex_tiles text
  rw [hlex, ← List.append_nil (front ++ back)] at tiles
  refine ⟨spans, Rule.parse_eq_ok.mpr ⟨⟨[], text.length⟩, ?_, rfl⟩⟩
  have hreads := hlist tiles
  rw [List.append_nil, ← hlex] at hreads
  exact hreads

end Grammar

/-! ## Trees of texts -/

variable {form : Form} {text : String} {expr : Expr} {tree : ExprTree} {offset : Nat}

/-- A text parses when an expression is read from it, and the tree is that of the expression. -/
theorem parseAs_eq_ok :
    parseAs form text = .ok tree ↔
      ∃ expr, parseExpr form text = .ok expr ∧ tree = (ExprTree.ofExpr expr).withLinks := by
  unfold parseAs
  cases parseExpr form text with
  | error failure => simp
  | ok expr => simp [eq_comm]

/-- Every text is a plain list. -/
theorem exists_parseAs_simpleList (text : String) : ∃ tree, parseAs .simpleList text = .ok tree := by
  obtain ⟨semicolons, hparse⟩ := Grammar.simpleList_total text
  refine ⟨_, parseAs_eq_ok.mpr ⟨simpleListExpr text.toList semicolons, ?_, rfl⟩⟩
  rw [parseExpr, hparse]
  rfl

/-- **A list of either kind covers its text.** -/
theorem span_of_parseExpr (hform : form ≠ .root) (h : parseExpr form text = .ok expr) :
    expr.span = ⟨0, text.length⟩ := by
  cases form with
  | root => exact absurd rfl hform
  | list =>
    obtain ⟨parts, -, rfl⟩ := parseExpr_list_eq_ok.mp h
    rfl
  | simpleList =>
    obtain ⟨semicolons, -, rfl⟩ := parseExpr_simpleList_eq_ok.mp h
    rw [← String.length_toList]
    rfl

/-- The nodes of a tree lie in its text. -/
theorem parsedNode_within {node : ExprNode} (h : parseAs form text = .ok tree)
    (hnode : node ∈ tree.nodes) : node.stop ≤ text.length := by
  obtain ⟨expr, hexpr, rfl⟩ := parseAs_eq_ok.mp h
  obtain ⟨hevery, hroot⟩ := parseExpr_wellFormed hexpr
  have hplaced := (ExprTree.placed_ofExpr hevery hroot).congr (ExprTree.get?_withLinks _)
  exact hplaced.within node hnode

/-- **At every offset of a list stands a node.** -/
theorem exists_deepestAt (hform : form ≠ .root) (h : parseAs form text = .ok tree)
    (hoffset : offset ≤ text.length) : ∃ node, tree.deepestAt offset = some node := by
  obtain ⟨expr, hexpr, rfl⟩ := parseAs_eq_ok.mp h
  have hspan := span_of_parseExpr hform hexpr
  obtain ⟨root, hroot, hcovers⟩ := ExprTree.exists_root?_withLinks expr (by
    rw [hspan]
    exact Nat.zero_le _)
  have htouches : root.span.touches offset = true := by
    rw [hcovers, hspan, Span.touches, decide_eq_true_eq]
    exact ⟨Nat.zero_le _, hoffset⟩
  refine ⟨(ExprTree.ofExpr expr).withLinks.descend offset root, ?_⟩
  rw [ExprTree.deepestAt, hroot]
  exact if_pos htouches

end ProjectLens
