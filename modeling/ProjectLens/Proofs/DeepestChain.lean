import ProjectLens.Proofs.ItemCursor
import ProjectLens.Proofs.Links
import ProjectLens.Proofs.Subtrees

/-! # The innermost expression node at an offset

Going down a tree takes the first child that claims the offset, and never comes back. That this is right
needs more than that children lie in their parents one after another: nodes without characters claim
their own place, so there must not be two of them at one place, and none at the edge of a node, where
the offset may belong to a neighbour. In expressions such a node is the name that is missing in a
metadata reference, with a period before it and a parenthesis behind it. In lists it is an empty item,
and a separator stands between any two items.

* `Expr.Roomy`, `Derivation.Subtree.roomy`: the children of a construct have room around them;
* `ExprTree.Roomy`, `roomy_of_parseExpr`: so have the nodes of every tree;
* `ExprTree.Within`: one node is another one or stands above it;
* `ExprTree.find?_claims`: the first child that claims an offset;
* `ExprTree.deepestAt_of_empty`, `ExprTree.within_deepestAt_iff`: where the descent ends;
* `parseAs_deepestAt`: the trees of all texts. -/

namespace ProjectLens

/-! ## Room around children -/

/-- **The children of a node have room around them.** -/
structure Expr.Roomy (e : Expr) : Prop where
  /-- A child without characters is not at the edge of the node. -/
  strict : ∀ child ∈ e.children, e.span.start < child.span.stop ∧ child.span.start < e.span.stop
  /-- Two children without characters are not at one place. -/
  distinct : e.children.Pairwise fun a b => a.span.start < b.span.stop

/-- An expression without children is roomy. -/
theorem Expr.roomy_of_children_eq_nil {e : Expr} (h : e.children = []) : e.Roomy := by
  constructor
  · simp [h]
  · simp [h]

namespace Derivation

variable {named : String → Prop} {tokens : List Lexeme} {tree : Expr} {trees : List Expr}
  {start stop : Nat}

/-- Children in a row have room around them, as every token takes up room. -/
theorem Siblings.room (h : Siblings named tokens trees) (tiles : Tiles start tokens stop) :
    (∀ tree ∈ trees, start < tree.span.stop ∧ tree.span.start < stop) ∧
      trees.Pairwise fun a b => a.span.start < b.span.stop := by
  induction h generalizing start with
  | none => simp
  | @cons gap tokens rest tree trees htree hrest ih =>
    obtain ⟨first, hgap, tiles⟩ := tiles_append.mp tiles
    obtain ⟨last, htokens, hlater⟩ := tiles_append.mp tiles
    obtain ⟨hroom, hdistinct⟩ := ih hlater
    have hspan : tree.span = ⟨first, last⟩ := by
      rw [htree.covers.span_eq, htokens.cover_eq htree.covers.filled]
    have hfilled := htokens.lt htree.covers.filled
    have hfront := hgap.le
    have hback := hlater.le
    constructor
    · refine List.forall_mem_cons.mpr ⟨?_, fun other hother => ?_⟩
      · rw [hspan]
        show start < last ∧ first < stop
        omega
      · have := hroom other hother
        omega
    · refine List.pairwise_cons.mpr ⟨fun other hother => ?_, hdistinct⟩
      rw [hspan]
      show first < other.span.stop
      have := hroom other hother
      omega
  | @unnamed gap period rest trees hfilled hrest ih =>
    obtain ⟨first, hgap, rfl, hperiod, hlater⟩ := tiles_append.mp tiles
    obtain ⟨hroom, hdistinct⟩ := ih hlater
    -- the missing name is between the period and the tokens behind it
    have hfront := hgap.le
    have hback := hlater.lt hfilled
    constructor
    · refine List.forall_mem_cons.mpr ⟨?_, fun other hother => ?_⟩
      · show start < period.span.stop ∧ period.span.stop < stop
        omega
      · have := hroom other hother
        omega
    · refine List.pairwise_cons.mpr ⟨fun other hother => ?_, hdistinct⟩
      exact (hroom other hother).1

/-- **The children of every construct have room around them.** -/
theorem Subtree.roomy (h : Subtree named tokens tree) (tiles : Tiles start tokens stop) :
    tree.Roomy := by
  have hspan : tree.span = ⟨start, stop⟩ := by
    rw [h.covers.span_eq, tiles.cover_eq h.covers.filled]
  obtain ⟨hroom, hdistinct⟩ := h.siblings.room tiles
  refine ⟨?_, hdistinct⟩
  rw [hspan]
  exact hroom

end Derivation

open ProjectLens.Derivation

/-- A part of tokens that tile a range tiles a range. -/
theorem tiles_of_infix {start stop : Nat} {part all : List Lexeme} (h : part <:+: all)
    (tiles : Tiles start all stop) : ∃ start' stop', Tiles start' part stop' := by
  obtain ⟨before, after, rfl⟩ := h
  obtain ⟨_, tiles, -⟩ := tiles_append.mp tiles
  obtain ⟨_, -, tiles⟩ := tiles_append.mp tiles
  exact ⟨_, _, tiles⟩

/-- Items and separators in turn are at different places: a separator takes up room. -/
theorem ListRow.distinct {chars : List Char} {start stop : Nat} {children : List ListChild}
    (h : ListRow chars start children stop) :
    (∀ child ∈ children, start ≤ child.span.stop) ∧
      children.Pairwise fun a b => a.span.start < b.span.stop := by
  induction h with
  | last _ hordered => simp [hordered]
  | @step item separator children stop _ hordered hseparator htouches _ ih =>
    obtain ⟨hlater, hdistinct⟩ := ih
    -- a separator has its semicolon inside, so what follows it stops later than it starts
    have hlt := Nat.lt_of_le_of_lt separator.start_le_semicolon hseparator.inside
    constructor
    · refine List.forall_mem_cons.mpr ⟨hordered, List.forall_mem_cons.mpr ⟨by omega, ?_⟩⟩
      intro child hchild
      have := hlater child hchild
      omega
    · refine List.pairwise_cons.mpr ⟨?_, List.pairwise_cons.mpr ⟨?_, hdistinct⟩⟩
      · refine List.forall_mem_cons.mpr ⟨by omega, fun child hchild => ?_⟩
        have := hlater child hchild
        omega
      · intro child hchild
        have := hlater child hchild
        omega

/-- The children of a plain list have no children. -/
theorem children_of_mem_simpleList {chars : List Char} {semicolons : List Span} :
    ∀ child ∈ (simpleListExpr chars semicolons).children, child.children = [] := by
  have hitem : ∀ core, (SimpleList.item chars core).children = [] := by
    intro core
    rw [SimpleList.item]
    split <;> rfl
  refine List.forall_mem_cons.mpr ⟨hitem _, ?_⟩
  generalize (SimpleList.firstCore chars _ _).stop = previous
  induction semicolons generalizing previous with
  | nil => simp [SimpleList.later]
  | cons semicolon rest ih =>
    rw [SimpleList.later]
    exact List.forall_mem_cons.mpr ⟨rfl, List.forall_mem_cons.mpr ⟨hitem _, ih _⟩⟩

/-- **All nodes of a parsed text have room around their children**; only the children of the root may be
at its edges. -/
theorem roomy_of_parseExpr {form : Form} {text : String} {expr : Expr}
    (h : parseExpr form text = .ok expr) :
    (expr.children.Pairwise fun a b => a.span.start < b.span.stop) ∧
      ∀ child ∈ expr.children, child.Every Expr.Roomy := by
  have hmark : ∀ e : Expr, e.IsMark → e.Roomy := fun e he => Expr.roomy_of_children_eq_nil he.children
  have hsubtree : ∀ l e, l <:+: lex text → Subtree anyName l e → e.Roomy := by
    intro l e hpart hsubtree
    obtain ⟨_, _, tiles⟩ := tiles_of_infix hpart (lex_tiles text)
    exact hsubtree.roomy tiles
  -- below the root every node is a construct or a mark
  cases form with
  | root =>
    have hevery := every_of_parse_root hmark hsubtree h
    exact ⟨hevery.root.distinct, hevery.children⟩
  | list =>
    obtain ⟨-, _, _, hrow, -, -⟩ := exists_listRow Form.noConfusion h
    refine ⟨List.pairwise_map.mp hrow.distinct.2, ?_⟩
    obtain ⟨parts, hparts, rfl⟩ := parseExpr_list_eq_ok.mp h
    exact every_of_parse_list hmark hsubtree hparts
  | simpleList =>
    obtain ⟨-, _, _, hrow, -, -⟩ := exists_listRow Form.noConfusion h
    refine ⟨List.pairwise_map.mp hrow.distinct.2, ?_⟩
    rw [parseExpr, Grammar.simpleList_parse] at h
    cases h
    rintro ⟨kind, span, children⟩ hchild
    have hnil : children = [] := children_of_mem_simpleList _ hchild
    refine .node (Expr.roomy_of_children_eq_nil hnil) ?_
    simp [hnil]

namespace ExprTree

/-- **The nodes of a tree have room around their children**, and come before them. -/
structure Roomy (tree : ExprTree) : Prop where
  /-- A child without characters is not at the edge of its parent, unless that is the root. -/
  strict : ∀ node ∈ tree.nodes, node.id ≠ 0 → ∀ child ∈ tree.childrenOf node,
    node.start < child.stop ∧ child.start < node.stop
  /-- Two children without characters are not at one place. -/
  distinct : ∀ node ∈ tree.nodes,
    (tree.childrenOf node).Pairwise fun a b => a.start < b.stop
  /-- Children have greater numbers. -/
  later : ∀ node ∈ tree.nodes, ∀ id ∈ node.children, node.id < id

/-- The linked nodes of a tree are roomy where its expressions below the root are. -/
theorem roomy_withLinks {expr : Expr} (hw : expr.Every Expr.WellFormed)
    (hdistinct : expr.children.Pairwise fun a b => a.span.start < b.span.stop)
    (hchildren : ∀ child ∈ expr.children, child.Every Expr.Roomy) :
    (ofExpr expr).withLinks.Roomy := by
  -- the root is the one node of its size
  have hevery : expr.Every fun e =>
      (e.children.Pairwise fun a b => a.span.start < b.span.stop) ∧
        (e.size < expr.size → e.Roomy) := by
    obtain ⟨kind, span, children⟩ := expr
    refine .node ⟨hdistinct, fun hlt => absurd hlt (Nat.lt_irrefl _)⟩ fun child hc => ?_
    exact (hchildren child hc).mono fun e he => ⟨he.distinct, fun _ => he⟩
  refine ⟨?_, ?_, ?_⟩
  · intro node hnode hid child hchild
    obtain ⟨e, hevery, hsame, -, hbelow, hsize⟩ := exists_expr hw hevery hnode
    have hmem : child.asChild ∈ e.children.map Expr.asChild := hbelow ▸ List.mem_map_of_mem hchild
    obtain ⟨below, hmem, hsame'⟩ := List.mem_map.mp hmem
    have hstrict := (hevery.root.2 (hsize hid)).strict below hmem
    have hspan : node.span = e.span := congrArg ListChild.span hsame
    have hspan' : below.span = child.span := congrArg ListChild.span hsame'
    rw [← hspan, hspan'] at hstrict
    exact hstrict
  · intro node hnode
    obtain ⟨e, hevery, -, -, hbelow, -⟩ := exists_expr hw hevery hnode
    have hdistinct : (e.children.map Expr.asChild).Pairwise fun a b => a.span.start < b.span.stop :=
      List.pairwise_map.mpr hevery.root.1
    rw [← hbelow] at hdistinct
    exact List.pairwise_map.mp hdistinct
  · intro node hnode id hid
    obtain ⟨e, -, -, hids, -, -⟩ := exists_expr hw hevery hnode
    rw [hids] at hid
    exact (Expr.bounds_of_mem_childIds hid).1

/-! ## Above and below -/

/-- **One node is another one, or stands above it.** -/
def Within (tree : ExprTree) (outer inner : ExprNode) : Prop :=
  outer.id ∈ inner.id :: tree.ancestors inner

section Above

variable {tree : ExprTree} {root parent node child outer inner a b : ExprNode} {length offset : Nat}

/-- Two nodes of one number are one node. -/
theorem Related.eq_of_id (hr : tree.Related) (ha : a ∈ tree.nodes) (hb : b ∈ tree.nodes)
    (h : a.id = b.id) : a = b := by
  have hget := hr.get?_id ha
  rw [h, hr.get?_id hb] at hget
  exact (Option.some.inj hget).symm

/-- `child ∈ tree.childrenOf node → child.id ∈ node.children`. -/
theorem Related.id_mem_children (hr : tree.Related) (h : child ∈ tree.childrenOf node) :
    child.id ∈ node.children := by
  obtain ⟨id, hid, hget⟩ := List.mem_filterMap.mp h
  have hsame : child.id = id := hr.numbered hget
  rwa [hsame]

/-- `child ∈ tree.childrenOf node → child.parent = some node.id`. -/
theorem Related.parent_eq (hr : tree.Related) (hnode : node ∈ tree.nodes)
    (h : child ∈ tree.childrenOf node) : child.parent = some node.id := by
  obtain ⟨before, after, hsplit⟩ := List.append_of_mem (hr.id_mem_children h)
  obtain ⟨linked, hlinked, hparent, -, -⟩ := hr.sibling node hnode before child.id after hsplit
  have hget := hr.get?_id (mem_of_mem_childrenOf h)
  obtain rfl : child = linked := Option.some.inj (hget.symm.trans hlinked)
  exact hparent

/-- Above a child stand its parent and all those above that one. -/
theorem ancestors_child (hr : tree.Related) (hroom : tree.Roomy) (hnode : node ∈ tree.nodes)
    (h : child ∈ tree.childrenOf node) :
    tree.ancestors child = node.id :: tree.ancestors node := by
  have hlt := hroom.later node hnode child.id (hr.id_mem_children h)
  rw [ancestors, ancestorsFrom, hr.get?_id (mem_of_mem_childrenOf h)]
  simp only [hr.parent_eq hnode h, if_pos hlt]
  rfl

/-- `tree.ancestors root = []`. -/
theorem ancestors_root (hr : tree.Related) (hroot : tree.root? = some root) :
    tree.ancestors root = [] := by
  have hid : root.id = 0 := hr.numbered hroot
  rw [ancestors, ancestorsFrom, hid, show tree.get? 0 = some root from hroot]
  simp only [(hr.top root hroot).1]

/-- Any node but the root is a child of one that comes before it. -/
theorem exists_parent_of_ne (hr : tree.Related) (hroom : tree.Roomy) (hnode : node ∈ tree.nodes)
    (hid : node.id ≠ 0) :
    ∃ parent ∈ tree.nodes, node ∈ tree.childrenOf parent ∧ parent.id < node.id := by
  obtain ⟨parent, hparent, -, hmem⟩ := hr.below node hnode hid
  refine ⟨parent, hparent, ?_, hroom.later parent hparent _ hmem⟩
  exact List.mem_filterMap.mpr ⟨node.id, hmem, hr.get?_id hnode⟩

/-- No child has the number of the root. -/
theorem id_ne_zero_of_child (hr : tree.Related) (hroom : tree.Roomy) (hnode : node ∈ tree.nodes)
    (h : child ∈ tree.childrenOf node) : child.id ≠ 0 := by
  have := hroom.later node hnode child.id (hr.id_mem_children h)
  omega

namespace Within

/-- `tree.Within node node`. -/
theorem refl (tree : ExprTree) (node : ExprNode) : tree.Within node node := List.mem_cons_self

/-- Above the root there is no other node. -/
theorem eq_root (hr : tree.Related) (houter : outer ∈ tree.nodes) (hinner : inner ∈ tree.nodes)
    (hid : inner.id = 0) (h : tree.Within outer inner) : outer = inner := by
  have hroot : tree.root? = some inner := by
    rw [root?, ← hid]
    exact hr.get?_id hinner
  rw [Within, ancestors_root hr hroot, List.mem_singleton] at h
  exact hr.eq_of_id houter hinner h

/-- Being within a child is being that child or within its parent. -/
theorem child_iff (hr : tree.Related) (hroom : tree.Roomy) (hnode : node ∈ tree.nodes)
    (h : child ∈ tree.childrenOf node) :
    tree.Within outer child ↔ outer.id = child.id ∨ tree.Within outer node := by
  rw [Within, ancestors_child hr hroom hnode h, List.mem_cons]
  rfl

/-- **Going up from a node.** What holds of the root, and of a child if it holds of its parent, holds of
every node. -/
theorem induction {motive : ExprNode → Prop} (hr : tree.Related) (hroom : tree.Roomy)
    (hroot : ∀ root, tree.root? = some root → motive root)
    (hchild : ∀ parent ∈ tree.nodes, ∀ child ∈ tree.childrenOf parent, motive parent → motive child)
    (node : ExprNode) (hnode : node ∈ tree.nodes) : motive node := by
  induction hn : node.id using Nat.strongRecOn generalizing node with
  | _ id ih =>
    by_cases hid : node.id = 0
    · have hget := hr.get?_id hnode
      rw [hid] at hget
      exact hroot node hget
    · obtain ⟨parent, hparent, hmem, hlt⟩ := exists_parent_of_ne hr hroom hnode hid
      exact hchild parent hparent node hmem (ih parent.id (hn ▸ hlt) parent hparent rfl)

/-- The root stands above all nodes. -/
theorem of_root (hr : tree.Related) (hroom : tree.Roomy) (hroot : tree.root? = some root)
    (hnode : node ∈ tree.nodes) : tree.Within root node := by
  refine induction (motive := fun node => tree.Within root node) hr hroom ?_ ?_ node hnode
  · intro other hother
    obtain rfl : root = other := Option.some.inj (hroot.symm.trans hother)
    exact refl tree root
  · intro parent hparent child hchild ih
    exact (child_iff hr hroom hparent hchild).mpr (.inr ih)

/-- Nodes lie in those above them. -/
theorem nested (hr : tree.Related) (hroom : tree.Roomy) (hp : tree.Placed length)
    (houter : outer ∈ tree.nodes) (hinner : inner ∈ tree.nodes) (h : tree.Within outer inner) :
    outer.start ≤ inner.start ∧ inner.stop ≤ outer.stop := by
  revert h
  refine induction (motive := fun inner => tree.Within outer inner →
    outer.start ≤ inner.start ∧ inner.stop ≤ outer.stop) hr hroom ?_ ?_ inner hinner
  · intro root hroot h
    obtain rfl := h.eq_root hr houter (mem_of_get? hroot) (hr.numbered hroot)
    exact ⟨Nat.le_refl _, Nat.le_refl _⟩
  · intro parent hparent child hchild ih h
    rcases (child_iff hr hroom hparent hchild).mp h with hid | h
    · obtain rfl := hr.eq_of_id houter (mem_of_mem_childrenOf hchild) hid
      exact ⟨Nat.le_refl _, Nat.le_refl _⟩
    · have hparentNested := ih h
      have hchildNested := hp.nested parent hparent child hchild
      omega

/-- **From a node above another one the way down goes through a child.** -/
theorem exists_child (hr : tree.Related) (hroom : tree.Roomy) (houter : outer ∈ tree.nodes)
    (hinner : inner ∈ tree.nodes) (h : tree.Within outer inner) (hne : outer ≠ inner) :
    ∃ child ∈ tree.childrenOf outer, tree.Within child inner := by
  revert h hne
  refine induction (motive := fun inner => tree.Within outer inner → outer ≠ inner →
    ∃ child ∈ tree.childrenOf outer, tree.Within child inner) hr hroom ?_ ?_ inner hinner
  · intro root hroot h hne
    exact absurd (h.eq_root hr houter (mem_of_get? hroot) (hr.numbered hroot)) hne
  · intro parent hparent node hnode ih h hne
    rcases (child_iff hr hroom hparent hnode).mp h with hid | h
    · exact absurd (hr.eq_of_id houter (mem_of_mem_childrenOf hnode) hid) hne
    · by_cases hsame : outer = parent
      · subst hsame
        exact ⟨node, hnode, refl tree node⟩
      · obtain ⟨child, hchild, hwithin⟩ := ih h hsame
        exact ⟨child, hchild, (child_iff hr hroom hparent hnode).mpr (.inr hwithin)⟩

/-- **A node below the root has characters on both sides of those below it.** -/
theorem strict (hr : tree.Related) (hroom : tree.Roomy) (hp : tree.Placed length)
    (houter : outer ∈ tree.nodes) (hid : outer.id ≠ 0) (hinner : inner ∈ tree.nodes)
    (h : tree.Within outer inner) (hne : outer ≠ inner) :
    outer.start < inner.stop ∧ inner.start < outer.stop := by
  -- the parent of the inner node is below the root as well, and lies in the outer one
  have hinnerId : inner.id ≠ 0 := fun hzero => hne (h.eq_root hr houter hinner hzero)
  obtain ⟨parent, hparent, hmem, -⟩ := exists_parent_of_ne hr hroom hinner hinnerId
  have hwithin : tree.Within outer parent := by
    rcases (child_iff hr hroom hparent hmem).mp h with hsame | h
    · exact absurd (hr.eq_of_id houter hinner hsame) hne
    · exact h
  have hparentId : parent.id ≠ 0 := by
    intro hzero
    obtain rfl := hwithin.eq_root hr houter hparent hzero
    exact hid hzero
  have hstrict := hroom.strict parent hparent hparentId inner hmem
  have hnested := hwithin.nested hr hroom hp houter hparent
  omega

end Within

/-! ## The descent -/

/-- A node claims an offset it is empty at, or one of its characters. -/
theorem claims_iff : node.claims offset = true ↔
    node.length = 0 ∧ node.start = offset ∨ node.start ≤ offset ∧ offset < node.stop := by
  have hstop : node.stop = node.start + node.length := rfl
  unfold ExprNode.claims
  by_cases hempty : node.length = 0
  · rw [if_pos hempty, decide_eq_true_eq]
    omega
  · rw [if_neg hempty, decide_eq_true_eq]
    omega

/-- **The first child that claims an offset** is any child that does, unless another one without
characters is there. -/
theorem find?_claims {children : List ExprNode}
    (hapart : children.Pairwise fun a b => a.stop ≤ b.start) (hchild : child ∈ children)
    (hclaims : child.claims offset = true)
    (hempty : ∀ a ∈ children, a.length = 0 → a.start = offset → a = child) :
    children.find? (·.claims offset) = some child := by
  cases hfind : children.find? (·.claims offset) with
  | none =>
    rw [List.find?_eq_none] at hfind
    exact absurd hclaims (hfind child hchild)
  | some first =>
    obtain ⟨hfirst, before, after, rfl, hbefore⟩ := List.find?_eq_some_iff_append.mp hfind
    rcases List.mem_append.mp hchild with hmem | hmem
    · -- nothing before the first one claims the offset
      have hnot := hbefore child hmem
      rw [hclaims] at hnot
      cases hnot
    · rcases List.mem_cons.mp hmem with rfl | hmem
      · rfl
      · -- the first one stops before the other starts, so it has no character
        have hstop := (List.pairwise_cons.mp (List.pairwise_append.mp hapart).2.1).1 child hmem
        have hmeets := claims_iff.mp hclaims
        have hstart : first.length = 0 ∧ first.start = offset := by
          rcases claims_iff.mp hfirst with hpoint | hcovers
          · exact hpoint
          · omega
        exact congrArg some (hempty first (by simp) hstart.1 hstart.2)

/-- Of two siblings, one stands before the other, and they are not at one place. -/
theorem siblings_apart (hroom : tree.Roomy) (hp : tree.Placed length) (hnode : node ∈ tree.nodes)
    (ha : a ∈ tree.childrenOf node) (hb : b ∈ tree.childrenOf node) (hne : a ≠ b) :
    (a.stop ≤ b.start ∧ a.start < b.stop) ∨ (b.stop ≤ a.start ∧ b.start < a.stop) := by
  have hboth := (hp.apart node hnode).and (hroom.distinct node hnode)
  obtain ⟨before, after, hsplit⟩ := List.append_of_mem ha
  rw [hsplit] at hboth hb
  obtain ⟨-, hfrom, hacross⟩ := List.pairwise_append.mp hboth
  rcases List.mem_append.mp hb with hmem | hmem
  · exact .inr (hacross b hmem a List.mem_cons_self)
  · rcases List.mem_cons.mp hmem with hsame | hmem
    · exact absurd hsame.symm hne
    · exact .inl ((List.pairwise_cons.mp hfrom).1 b hmem)

/-- **The descent goes on as long as a child claims the offset.** What holds where it starts, and of the
first child that claims the offset if it holds of the parent, holds where it ends. -/
theorem descend_ends {motive : ExprNode → Prop} (hr : tree.Related) (hroom : tree.Roomy)
    (offset : Nat) (step : ∀ node ∈ tree.nodes, motive node → ∀ child,
      (tree.childrenOf node).find? (·.claims offset) = some child → motive child)
    (node : ExprNode) (hnode : node ∈ tree.nodes) (h : motive node) :
    tree.descend offset node ∈ tree.nodes ∧ motive (tree.descend offset node) ∧
      ∀ child ∈ tree.childrenOf (tree.descend offset node), child.claims offset = false := by
  induction node using ExprTree.descend.induct tree offset with
  | case1 node child hfind hinside ih =>
    rw [descend, hfind]
    simp only [if_pos hinside]
    have hchild := List.mem_of_find?_eq_some hfind
    exact ih (mem_of_mem_childrenOf hchild) (step node hnode h child hfind)
  | case2 node child hfind houtside =>
    -- a child has a greater number, and is one of the nodes
    have hchild := List.mem_of_find?_eq_some hfind
    have hlt := hroom.later node hnode child.id (hr.id_mem_children hchild)
    have hget := hr.get?_id (mem_of_mem_childrenOf hchild)
    have hsize : child.id < tree.size := (Array.getElem?_eq_some_iff.mp hget).1
    exact absurd ⟨hlt, hsize⟩ houtside
  | case3 node hfind =>
    rw [descend, hfind]
    refine ⟨hnode, h, fun child hchild => ?_⟩
    have hnot := List.find?_eq_none.mp hfind child hchild
    simpa using hnot

/-- **A node without characters below the root** that stands at an offset. -/
structure IsEmptyAt (tree : ExprTree) (offset : Nat) (node : ExprNode) : Prop where
  /-- It is one of the nodes. -/
  mem : node ∈ tree.nodes
  /-- It is not the root. -/
  below : node.id ≠ 0
  /-- It covers no character. -/
  empty : node.length = 0
  /-- It stands at the offset. -/
  start : node.start = offset

/-- **The descent ends at the node without characters**, if there is one. -/
theorem descend_of_empty (hr : tree.Related) (hroom : tree.Roomy) (hp : tree.Placed length)
    (hroot : tree.root? = some root) (h : tree.IsEmptyAt offset node) :
    tree.descend offset root = node := by
  obtain ⟨hnode, hid, hempty, rfl⟩ := h
  have hstop : node.stop = node.start := by rw [ExprNode.stop, hempty, Nat.add_zero]
  -- the children on the way down to the node claim its place
  have claims : ∀ child ∈ tree.nodes, child.id ≠ 0 → tree.Within child node →
      child.claims node.start = true := by
    intro child hchild hchildId hwithin
    by_cases hsame : child = node
    · rw [hsame]
      exact claims_iff.mpr (.inl ⟨hempty, rfl⟩)
    · have hstrict := hwithin.strict hr hroom hp hchild hchildId hnode hsame
      exact claims_iff.mpr (.inr (by omega))
  have next : ∀ outer ∈ tree.nodes, tree.Within outer node → outer ≠ node →
      ∃ child, (tree.childrenOf outer).find? (·.claims node.start) = some child ∧
        tree.Within child node := by
    intro outer houter hwithin hne
    obtain ⟨child, hchild, hbelow⟩ := hwithin.exists_child hr hroom houter hnode hne
    have hmem := mem_of_mem_childrenOf hchild
    have hchildId := id_ne_zero_of_child hr hroom houter hchild
    refine ⟨child, ?_, hbelow⟩
    refine find?_claims (hp.apart outer houter) hchild (claims child hmem hchildId hbelow) ?_
    -- two siblings at one place would both be without characters
    intro other hother hotherEmpty hotherStart
    by_contra hdiffer
    have hapart := siblings_apart hroom hp houter hother hchild hdiffer
    have hotherStop : other.stop = node.start := by
      rw [ExprNode.stop, hotherEmpty, hotherStart, Nat.add_zero]
    by_cases hsame : child = node
    · rw [hsame] at hapart
      omega
    · have hstrict := hbelow.strict hr hroom hp hmem hchildId hnode hsame
      omega
  have hnone : ∀ child ∈ tree.childrenOf node, child.claims node.start = false := by
    intro child hchild
    have hstrict := hroom.strict node hnode hid child hchild
    have hnested := hp.nested node hnode child hchild
    omega
  have step : ∀ outer ∈ tree.nodes, tree.Within outer node → ∀ child,
      (tree.childrenOf outer).find? (·.claims node.start) = some child → tree.Within child node := by
    intro outer houter hwithin child hfind
    by_cases hsame : outer = node
    · rw [hsame] at hfind
      have hclaims := List.find?_some hfind
      rw [hnone child (List.mem_of_find?_eq_some hfind)] at hclaims
      cases hclaims
    · obtain ⟨child', hfind', hbelow⟩ := next outer houter hwithin hsame
      rw [hfind] at hfind'
      rwa [Option.some.inj hfind']
  obtain ⟨hmem, hwithin, hend⟩ :=
    descend_ends hr hroom node.start step root (mem_of_get? hroot) (.of_root hr hroom hroot hnode)
  by_contra hne
  obtain ⟨child, hfind, -⟩ := next _ hmem hwithin hne
  have hclaims := List.find?_some hfind
  rw [hend child (List.mem_of_find?_eq_some hfind)] at hclaims
  cases hclaims

/-- **How far the descent has come**: all nodes above the one that is reached are over the offset, and
all nodes over the offset are above it or below it. -/
structure Reached (tree : ExprTree) (root : ExprNode) (offset : Nat) (reached : ExprNode) : Prop where
  /-- Nodes above are over the offset. -/
  above : ∀ node ∈ tree.nodes, tree.Within node reached →
    node = root ∨ node.start ≤ offset ∧ offset < node.stop
  /-- Nodes over the offset are above or below. -/
  ahead : ∀ node ∈ tree.nodes, node.start ≤ offset ∧ offset < node.stop →
    tree.Within node reached ∨ tree.Within reached node

/-- **Where there is no such node, the nodes over the offset are those above the end of the descent.** -/
theorem within_descend_iff (hr : tree.Related) (hroom : tree.Roomy) (hp : tree.Placed length)
    (hroot : tree.root? = some root) (hempty : ∀ node, ¬ tree.IsEmptyAt offset node) :
    tree.descend offset root ∈ tree.nodes ∧ ∀ node ∈ tree.nodes,
      tree.Within node (tree.descend offset root) ↔
        node = root ∨ node.start ≤ offset ∧ offset < node.stop := by
  have hrootMem := mem_of_get? hroot
  have covers : ∀ child ∈ tree.nodes, child.id ≠ 0 → child.claims offset = true →
      child.start ≤ offset ∧ offset < child.stop := by
    intro child hchild hid hclaims
    rcases claims_iff.mp hclaims with ⟨hlength, hstart⟩ | hcovers
    · exact absurd ⟨hchild, hid, hlength, hstart⟩ (hempty child)
    · exact hcovers
  -- a node over the offset is above the place that is reached, or the way to it goes on from there
  have step : ∀ reached ∈ tree.nodes, tree.Reached root offset reached → ∀ child,
      (tree.childrenOf reached).find? (·.claims offset) = some child →
      tree.Reached root offset child := by
    intro reached hmem ⟨habove, hahead⟩ child hfind
    have hchild := List.mem_of_find?_eq_some hfind
    have hchildMem := mem_of_mem_childrenOf hchild
    have hchildId := id_ne_zero_of_child hr hroom hmem hchild
    have hclaimed : child.claims offset = true := List.find?_some (p := (ExprNode.claims · offset)) hfind
    have hiff : ∀ {node : ExprNode}, tree.Within node child ↔
        node.id = child.id ∨ tree.Within node reached := Within.child_iff hr hroom hmem hchild
    constructor
    · intro node hnode hwithin
      rcases hiff.mp hwithin with hid | hwithin
      · rw [hr.eq_of_id hnode hchildMem hid]
        exact .inr (covers child hchildMem hchildId hclaimed)
      · exact habove node hnode hwithin
    · intro node hnode hover
      rcases hahead node hnode hover with hwithin | hwithin
      · exact .inl (hiff.mpr (.inr hwithin))
      · by_cases hsame : reached = node
        · rw [← hsame]
          exact .inl (hiff.mpr (.inr (.refl tree _)))
        · -- the child towards the node is over the offset too, so it is the first to claim it
          obtain ⟨other, hother, hbelow⟩ := hwithin.exists_child hr hroom hmem hnode hsame
          have hnested := hbelow.nested hr hroom hp (mem_of_mem_childrenOf hother) hnode
          have hclaims : other.claims offset = true := claims_iff.mpr (.inr (by omega))
          have hnone : ∀ a ∈ tree.childrenOf reached, a.length = 0 → a.start = offset → a = other := by
            intro a ha hlength hstart
            have haId := id_ne_zero_of_child hr hroom hmem ha
            exact absurd ⟨mem_of_mem_childrenOf ha, haId, hlength, hstart⟩ (hempty a)
          have hfirst := find?_claims (hp.apart reached hmem) hother hclaims hnone
          rw [hfind] at hfirst
          rw [Option.some.inj hfirst]
          exact .inr hbelow
  have start : tree.Reached root offset root :=
    ⟨fun node hnode hwithin => .inl (hwithin.eq_root hr hnode hrootMem (hr.numbered hroot)),
      fun node hnode _ => .inr (.of_root hr hroom hroot hnode)⟩
  obtain ⟨hmem, ⟨habove, hahead⟩, hend⟩ := descend_ends hr hroom offset step root hrootMem start
  refine ⟨hmem, fun node hnode => ⟨habove node hnode, ?_⟩⟩
  rintro (rfl | hover)
  · exact .of_root hr hroom hroot hmem
  · rcases hahead node hnode hover with hwithin | hwithin
    · exact hwithin
    · by_cases hsame : tree.descend offset root = node
      · rw [hsame]
        exact .refl tree node
      · -- the way down to the node would go on
        obtain ⟨child, hchild, hbelow⟩ := hwithin.exists_child hr hroom hmem hnode hsame
        have hnested := hbelow.nested hr hroom hp (mem_of_mem_childrenOf hchild) hnode
        have hclaims : child.claims offset = true := claims_iff.mpr (.inr (by omega))
        rw [hend child hchild] at hclaims
        cases hclaims

end Above

/-! ## The node at an offset -/

/-- **The innermost node at an offset**, in a tree with a given root. -/
structure Innermost (tree : ExprTree) (root : ExprNode) (offset : Nat) : Prop where
  /-- There is none just outside of the root, which has both of its ends. -/
  none_iff : tree.deepestAt offset = none ↔ offset < root.start ∨ root.stop < offset
  /-- A node without characters comes first. -/
  empty : ∀ node, tree.IsEmptyAt offset node → tree.deepestAt offset = some node
  /-- There is at most one. -/
  unique : ∀ a b, tree.IsEmptyAt offset a → tree.IsEmptyAt offset b → a = b
  /-- Without one, the nodes over the offset and the root are the innermost one and those above it. -/
  chain : (∀ node, ¬ tree.IsEmptyAt offset node) → root.start ≤ offset → offset ≤ root.stop →
    ∃ deepest ∈ tree.nodes, tree.deepestAt offset = some deepest ∧ ∀ node ∈ tree.nodes,
      node.id ∈ deepest.id :: tree.ancestors deepest ↔
        node = root ∨ node.start ≤ offset ∧ offset < node.stop

/-- In a related, roomy tree whose nodes lie in place, the search from the root ends at the
innermost node. -/
theorem innermost {tree : ExprTree} {root : ExprNode} {length : Nat} (hr : tree.Related)
    (hroom : tree.Roomy) (hp : tree.Placed length) (hroot : tree.root? = some root) (offset : Nat) :
    tree.Innermost root offset := by
  -- within the root the search goes down from it
  have hinside : root.start ≤ offset ∧ offset ≤ root.stop →
      tree.deepestAt offset = some (tree.descend offset root) := by
    intro h
    rw [deepestAt, hroot]
    exact if_pos (decide_eq_true h)
  -- an empty node at the offset is what it ends at, so there is at most one
  have hempty : ∀ node, tree.IsEmptyAt offset node → tree.deepestAt offset = some node := by
    intro node h
    rw [← descend_of_empty hr hroom hp hroot h]
    apply hinside
    have hnested := (Within.of_root hr hroom hroot h.mem).nested hr hroom hp (mem_of_get? hroot) h.mem
    have hstart := h.start
    rw [ExprNode.stop, h.empty] at hnested
    omega
  refine ⟨?_, hempty, ?_, ?_⟩
  · by_cases h : root.start ≤ offset ∧ offset ≤ root.stop
    · rw [hinside h]
      exact iff_of_false (Option.some_ne_none _) (by omega)
    · have hnone : tree.deepestAt offset = none := by
        rw [deepestAt, hroot]
        exact if_neg (by rwa [Span.touches, decide_eq_true_eq])
      exact iff_of_true hnone (by omega)
  · intro a b ha hb
    exact Option.some.inj ((hempty a ha).symm.trans (hempty b hb))
  · intro hnone hstart hstop
    obtain ⟨hmem, hiff⟩ := within_descend_iff hr hroom hp hroot hnone
    exact ⟨_, hmem, hinside ⟨hstart, hstop⟩, hiff⟩

end ExprTree

/-- **The innermost node at every offset of every text.** -/
theorem parseAs_deepestAt {form : Form} {text : String} {tree : ExprTree}
    (h : parseAs form text = .ok tree) :
    ∃ root, tree.root? = some root ∧ ∀ offset, tree.Innermost root offset := by
  obtain ⟨expr, hexpr, rfl⟩ := parseAs_eq_ok.mp h
  obtain ⟨hw, hstop⟩ := parseExpr_wellFormed hexpr
  obtain ⟨hdistinct, hchildren⟩ := roomy_of_parseExpr hexpr
  obtain ⟨root, hroot, -⟩ := ExprTree.exists_root?_of_expr expr
  have hplaced := (ExprTree.placed_ofExpr hw hstop).congr (ExprTree.get?_withLinks _)
  have hroomy := ExprTree.roomy_withLinks hw hdistinct hchildren
  exact ⟨root, hroot, ExprTree.innermost (ExprTree.related_withLinks expr) hroomy hplaced hroot⟩

/-- A list with an empty item before a separator, and a name that is missing. -/
theorem parseAs_deepestAt_missingName : ∃ tree, parseAs .list "A;;%(B.)" = .ok tree ∧
    ∃ root, tree.root? = some root ∧ ∀ offset, tree.Innermost root offset := by
  have hread : (parseAs .list "A;;%(B.)").toBool = true := by decide +kernel
  cases h : parseAs .list "A;;%(B.)" with
  | error complaint =>
    rw [h] at hread
    cases hread
  | ok tree => exact ⟨tree, rfl, parseAs_deepestAt h⟩

end ProjectLens
