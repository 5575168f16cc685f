import ProjectLens.Proofs.Growing
import ProjectLens.Proofs.Labels
import ProjectLens.Proofs.Links
import ProjectLens.Proofs.OutlineLines

/-! # Outlines of expressions

The nodes of a tree are numbered in preorder, and so are they drawn, each behind its rule and with a line
break at its end. A node is on one line unless its label breaks it, and the only labels that do are those
of names that are white space and are shown up to a line break.

* `Expr.consecutive_of_sitAll`: the nodes of expressions stand one after the other;
* `ExprTree.rules`, `ExprTree.outline_eq`: an outline is the lines of the nodes in order;
* `ExprNode.breaksLine`, `ExprTree.breaksLine_iff`: the nodes of a parsed text that break their line;
* `parseAs_outline_madeOf`: when an outline has as many lines as there are nodes;
* `exists_outline_broken`: it does not always. -/

namespace ProjectLens

namespace Expr

variable {nodes : List ExprNode}

mutual

/-- The nodes of an expression stand one after the other. -/
theorem consecutive_of_sits {id : Nat} : (e : Expr) → Sits nodes id e →
    Outline.Consecutive (fun id => nodes[id]?) ExprNode.children id [id] (id + e.size)
  | .node kind span children, h => by
    have hchildren := consecutive_of_sitAll children h.children
    rw [show id + size (.node kind span children) = id + 1 + sizeAll children by rw [size]; omega]
    exact .cons h.getElem? hchildren .nil

/-- **The nodes of consecutive expressions** stand one after the other. -/
theorem consecutive_of_sitAll {id : Nat} : (es : List Expr) → SitAll nodes id es →
    Outline.Consecutive (fun id => nodes[id]?) ExprNode.children id (childIds id es)
      (id + sizeAll es)
  | [], _ => .nil
  | e :: es, h => by
    obtain ⟨hfirst, hrest⟩ := h.cons
    rw [sizeAll, ← Nat.add_assoc]
    exact (consecutive_of_sits e hfirst).append (consecutive_of_sitAll es hrest)

end

end Expr

namespace ExprTree

/-- What grows from the root of a tree. -/
def grown (tree : ExprTree) : List (Outline ExprNode) :=
  [0].filterMap (Outline.grow tree.get? ExprNode.children tree.size)

/-- What stands left of the nodes of a tree. -/
def rules (tree : ExprTree) : List String := Outline.rulesAll tree.grown

/-- The outline of a tree is the drawings of its grown outlines, one after the other. -/
theorem outline_eq_join (tree : ExprTree) (showSpans : Bool) :
    tree.outline showSpans =
      String.join (tree.grown.map (Outline.draw (ExprNode.outlineLine showSpans))) := by
  rw [outline, grown]
  cases hroot : Outline.grow tree.get? ExprNode.children tree.size 0 with
  | none => simp [hroot]
  | some root => simp [hroot]

/-- The nodes of a linked tree stand one after the other. -/
theorem consecutive_withLinks (expr : Expr) :
    Outline.Consecutive (ofExpr expr).withLinks.get? ExprNode.children 0 [0]
      (ofExpr expr).withLinks.size := by
  have hsits : Expr.Sits (expr.nodesFrom 0) 0 expr := ⟨[], [], by simp, rfl⟩
  have hsize : (ofExpr expr).withLinks.size = 0 + expr.size := by
    rw [size_withLinks, size, ofExpr, List.size_toArray, Expr.length_nodesFrom, Nat.zero_add]
  rw [hsize]
  refine (Expr.consecutive_of_sits expr hsits).transfer fun {id item} hitem => ?_
  -- linking changes no list of children
  have hbare := get?_withLinks (ofExpr expr) id
  have hget : (ofExpr expr).get? id = some item := by
    rw [get?, ofExpr, List.getElem?_toArray]
    exact hitem
  rw [hget] at hbare
  obtain ⟨linked, hlinked, hsame⟩ := Option.map_eq_some_iff.mp hbare
  refine ⟨linked, hlinked, ?_⟩
  rw [← linked.children_bare, hsame, item.children_bare]

/-- **The outline of a parsed text holds its nodes in order.** -/
theorem items_grown (expr : Expr) :
    Outline.itemsAll (ofExpr expr).withLinks.grown = (ofExpr expr).withLinks.nodes.toList :=
  (consecutive_withLinks expr).items_grow_array

/-- The outline of a tree has one connector for each node. -/
theorem length_rules (expr : Expr) :
    (ofExpr expr).withLinks.rules.length = (ofExpr expr).withLinks.size := by
  rw [rules, Outline.length_rulesAll, items_grown, Array.length_toList, size]

/-- **The outline of a parsed text is the lines of its nodes in order**, each of them behind its rule. -/
theorem outline_eq (expr : Expr) (showSpans : Bool) :
    (ofExpr expr).withLinks.outline showSpans = String.join ((List.zipWith (fun rule node =>
      rule ++ ExprNode.outlineLine showSpans node) (ofExpr expr).withLinks.rules
        (ofExpr expr).withLinks.nodes.toList).map (· ++ "\n")) := by
  rw [outline_eq_join, Outline.join_draw, items_grown, List.map_zipWith]
  rfl

end ExprTree

/-! ## Lines that are broken -/

/-- Whether what is shown of the name of a symbol breaks its line. -/
def ExprNode.breaksLine (node : ExprNode) : Bool :=
  match node.kind with
  | .symbol name _ => (name.toList.take Outline.labelWidth).contains '\n'
  | _ => false

/-- **A name that is white space**: the text of its node, and nothing else. -/
structure ExprNode.IsBlankName (text : String) (node : ExprNode) : Prop where
  /-- The name is the text that the node covers. -/
  kind : node.kind = .symbol ((Index.ofText text).slice node.span) ""
  /-- It is white space. -/
  blank : ∀ c ∈ (Index.ofText text).sliceChars node.span, Token.isSpace c = true

namespace ExprTree

open ProjectLens.Derivation

variable {form : Form} {text : String} {expr : Expr} {node : ExprNode}

/-- A white space token is the text that it covers. -/
theorem text_of_isWhitespace {lexeme : Lexeme} (h : lexeme ∈ lex text)
    (hspace : lexeme.token.isWhitespace = true) :
    lexeme.token.text = (Index.ofText text).slice lexeme.span ∧
      ∀ c ∈ (Index.ofText text).sliceChars lexeme.span, Token.isSpace c = true := by
  have hcut := lex_cut text lexeme h
  rw [Index.slice]
  generalize (Index.ofText text).sliceChars lexeme.span = piece at hcut ⊢
  cases htoken : lexeme.token with
  | whitespace blank =>
    rw [htoken] at hcut
    cases hcut with
    | whitespace hc hrun _ => exact ⟨rfl, List.forall_mem_cons.mpr ⟨hc, hrun⟩⟩
    | mark hmark => cases hmark
  | _ =>
    rw [htoken] at hspace
    cases hspace

/-- **The nodes of a parsed text that break their line** are those that show a line break of a name, and
such a name is white space. -/
theorem breaksLine_iff (h : parseExpr form text = .ok expr)
    (hnode : node ∈ (ofExpr expr).withLinks.nodes) :
    (∀ showSpans, '\n' ∈ (node.outlineLine showSpans).toList ↔ node.breaksLine = true) ∧
      (node.breaksLine = true → node.IsBlankName text) := by
  obtain ⟨hw, -⟩ := parseExpr_wellFormed h
  obtain ⟨e, hevery, hsame, -⟩ := exists_expr hw (oneLine_of_parseExpr h) hnode
  have hkind : node.kind = e.kind := congrArg ListChild.kind hsame
  have hspan : node.span = e.span := congrArg ListChild.span hsame
  simp only [ExprNode.mem_outlineLine, forall_const]
  rcases hevery.root with hline | ⟨lexeme, hlexeme, hspace, rfl⟩
  · -- neither its label nor its name has a line break
    rw [OneLine, ← hkind] at hline
    have hlabel : '\n' ∉ node.kind.label.toList.take Outline.labelWidth :=
      fun hmem => Kind.unbroken_label hline (List.mem_of_mem_take hmem)
    have hbreaks : node.breaksLine = false := by
      unfold ExprNode.breaksLine
      split
      · next name space hsymbol =>
        rw [hsymbol, Kind.shown, List.forall_mem_cons] at hline
        simpa using fun hmem => hline.1 (List.mem_of_mem_take hmem)
      · rfl
    rw [hbreaks]
    exact ⟨⟨fun hmem => absurd hmem hlabel, fun hfalse => by cases hfalse⟩, fun hfalse => by cases hfalse⟩
  · -- the name is white space, shown as it stands in the text
    obtain ⟨htext, hblank⟩ := text_of_isWhitespace hlexeme hspace
    have hkind : node.kind = .symbol lexeme.token.text "" := hkind
    have hspan : node.span = lexeme.span := hspan
    refine ⟨?_, fun _ => ⟨by rw [hkind, htext, hspan], by rwa [hspan]⟩⟩
    rw [ExprNode.breaksLine, hkind]
    simp [Kind.label]

/-- Which nodes break their lines can be told from the lines. -/
theorem forall_lines_iff (h : parseExpr form text = .ok expr) (showSpans : Bool) :
    (∀ line ∈ List.zipWith (fun rule node => rule ++ ExprNode.outlineLine showSpans node)
        (ofExpr expr).withLinks.rules (ofExpr expr).withLinks.nodes.toList, '\n' ∉ line.toList) ↔
      ∀ node ∈ (ofExpr expr).withLinks.nodes, node.breaksLine = false := by
  -- connectors and nodes are as many, and connectors have no line breaks
  have hlength := length_rules expr
  rw [size, ← Array.length_toList] at hlength
  constructor
  · intro hlines node hnode
    obtain ⟨place, hplace, rfl⟩ := List.getElem_of_mem (Array.mem_toList_iff.mpr hnode)
    have hline := hlines _ (List.getElem_mem (by rw [List.length_zipWith]; omega : place < _))
    rw [List.getElem_zipWith, String.toList_append, List.mem_append, not_or,
      (breaksLine_iff h hnode).1] at hline
    exact Bool.not_eq_true _ ▸ hline.2
  · intro hnodes line hline
    obtain ⟨place, hplace, rfl⟩ := List.getElem_of_mem hline
    rw [List.length_zipWith] at hplace
    have hnode : (ofExpr expr).withLinks.nodes.toList[place] ∈ (ofExpr expr).withLinks.nodes :=
      Array.mem_toList_iff.mp (List.getElem_mem (by omega))
    rw [List.getElem_zipWith, String.toList_append, List.mem_append, not_or,
      (breaksLine_iff h hnode).1, hnodes _ hnode]
    have hrule : (ofExpr expr).withLinks.rules[place] ∈ (ofExpr expr).withLinks.rules :=
      List.getElem_mem (by omega)
    exact ⟨Outline.unbroken_rulesAll _ _ hrule, Bool.false_ne_true⟩

/-- An outline is made of as many lines as there are nodes just if no node breaks its line. -/
theorem exists_madeOf_outline_iff (h : parseExpr form text = .ok expr) (showSpans : Bool) :
    (∃ lines, MadeOf ((ofExpr expr).withLinks.outline showSpans) lines ∧
        lines.length = (ofExpr expr).withLinks.size) ↔
      ∀ node ∈ (ofExpr expr).withLinks.nodes, node.breaksLine = false := by
  have hlength : (ofExpr expr).withLinks.size = (List.zipWith (fun rule node =>
      rule ++ ExprNode.outlineLine showSpans node) (ofExpr expr).withLinks.rules
        (ofExpr expr).withLinks.nodes.toList).length := by
    rw [List.length_zipWith, length_rules, Array.length_toList, size, Nat.min_self]
  rw [outline_eq, hlength, exists_madeOf_iff, forall_lines_iff h]

end ExprTree

/-- **An outline is one line for each node, in order, just if no node breaks its line.** Then the line of
a node is what stands left of it and what is shown of it. Only names that are white space break lines. -/
theorem parseAs_outline_madeOf {form : Form} {text : String} {tree : ExprTree}
    (h : parseAs form text = .ok tree) (showSpans : Bool) :
    let lines := List.zipWith (fun rule node => rule ++ ExprNode.outlineLine showSpans node) tree.rules
      tree.nodes.toList
    tree.outline showSpans = String.join (lines.map (· ++ "\n")) ∧ tree.rules.length = tree.size ∧
      ((∀ node ∈ tree.nodes, node.breaksLine = false) → MadeOf (tree.outline showSpans) lines) ∧
      ((∃ others, MadeOf (tree.outline showSpans) others ∧ others.length = tree.size) ↔
        ∀ node ∈ tree.nodes, node.breaksLine = false) ∧
      ∀ node ∈ tree.nodes, node.breaksLine = true → node.IsBlankName text := by
  obtain ⟨expr, hexpr, rfl⟩ := parseAs_eq_ok.mp h
  refine ⟨ExprTree.outline_eq expr showSpans, ExprTree.length_rules expr, fun hnodes => ?_,
    ExprTree.exists_madeOf_outline_iff hexpr showSpans,
    fun node hnode => (ExprTree.breaksLine_iff hexpr hnode).2⟩
  exact ⟨ExprTree.outline_eq expr showSpans, (ExprTree.forall_lines_iff hexpr showSpans).mpr hnodes⟩

/-- The outline of a metadata reference with an item's name, its spans shown. -/
theorem parseAs_outline_madeOf_metadata : ∃ tree, parseAs .root "%(A.B)" = .ok tree ∧
    MadeOf (tree.outline true) (List.zipWith (fun rule node => rule ++ ExprNode.outlineLine true node)
      tree.rules tree.nodes.toList) := by
  have hread : (parseAs .root "%(A.B)").toOption.any
      (fun tree => tree.nodes.all fun node => !node.breaksLine) = true := by decide +kernel
  cases h : parseAs .root "%(A.B)" with
  | error complaint =>
    rw [h] at hread
    cases hread
  | ok tree =>
    rw [h] at hread
    refine ⟨tree, rfl, (parseAs_outline_madeOf h true).2.2.1 fun node hnode => ?_⟩
    have hnode := Array.all_eq_true_iff_forall_mem.mp hread node hnode
    rwa [Bool.not_eq_true'] at hnode

/-- **A line break that is typed in place of a name** is shown as it is, so that the outline has a line
more than there are nodes. -/
theorem exists_outline_broken : ∃ tree, parseAs .root "%(A.\n)" = .ok tree ∧ tree.size = 3 ∧
    ¬ ∃ lines, MadeOf (tree.outline false) lines ∧ lines.length = tree.size := by
  have hread : (parseAs .root "%(A.\n)").toOption.any (fun tree =>
      decide (tree.size = 3) && tree.nodes.any ExprNode.breaksLine) = true := by decide +kernel
  cases h : parseAs .root "%(A.\n)" with
  | error complaint =>
    rw [h] at hread
    cases hread
  | ok tree =>
    rw [h] at hread
    obtain ⟨hsize, hbroken⟩ := Bool.and_eq_true_iff.mp hread
    obtain ⟨place, hplace, hbreaks⟩ := Array.any_eq_true.mp hbroken
    refine ⟨tree, rfl, of_decide_eq_true hsize, ?_⟩
    obtain ⟨expr, hexpr, rfl⟩ := parseAs_eq_ok.mp h
    rw [ExprTree.exists_madeOf_outline_iff hexpr]
    intro hnodes
    rw [hnodes _ (Array.getElem_mem hplace)] at hbreaks
    cases hbreaks

end ProjectLens
