import ProjectLens.Proofs.Lists

/-! # Where the nodes of a tree stand

A tree of numbered nodes holds one node for each node of its expression, and looking up the children
of one gives the nodes of its children. So what holds of every node of an expression carries over.

* `Expr.rootNode`, `Expr.rootNodes`: the nodes that stand for expressions;
* `Expr.Sits nodes id e`: the nodes of `e` stand in `nodes` from `id` on;
* `Expr.Sits.every`, `ExprTree.childrenOf_rootNode`: all nodes of an expression, and the children of
  each;
* `ExprTree.Placed`: every node lies in the text, around its children, which follow one another;
* `ExprNode.bare`: a node without its links, which is what linking leaves unchanged;
* `Links.write`, `ExprTree.allLinks`: what linking writes;
* `parseAs_placed`: the trees of parsed texts. -/

namespace ProjectLens

namespace Expr

/-- The node that stands for the root of an expression. -/
def rootNode (id : Nat) (e : Expr) : ExprNode :=
  ⟨id, e.kind, e.span.start, e.span.length, childIds (id + 1) e.children, none, none, none⟩

/-- The nodes that stand for the roots of consecutive expressions. -/
def rootNodes (id : Nat) : List Expr → List ExprNode
  | [] => []
  | e :: es => rootNode id e :: rootNodes (id + e.size) es

/-- `e.nodesFrom id = rootNode id e :: nodesAllFrom (id + 1) e.children`. -/
theorem nodesFrom_eq (id : Nat) (e : Expr) :
    e.nodesFrom id = rootNode id e :: nodesAllFrom (id + 1) e.children := by
  obtain ⟨kind, span, children⟩ := e
  rfl

mutual

/-- An expression has as many nodes as its size says. -/
theorem length_nodesFrom (id : Nat) : (e : Expr) → (e.nodesFrom id).length = e.size
  | .node kind span children => by
    simp only [nodesFrom, size, List.length_cons, length_nodesAllFrom (id + 1) children]

/-- `(nodesAllFrom id es).length = sizeAll es`. -/
theorem length_nodesAllFrom (id : Nat) :
    (es : List Expr) → (nodesAllFrom id es).length = sizeAll es
  | [] => rfl
  | e :: es => by
    simp only [nodesAllFrom, sizeAll, List.length_append, length_nodesFrom id e,
      length_nodesAllFrom (id + e.size) es]

end

/-- **The nodes of an expression stand in a list of nodes** from the place that is the number of its
root. -/
def Sits (nodes : List ExprNode) (id : Nat) (e : Expr) : Prop :=
  ∃ before after, nodes = before ++ (e.nodesFrom id ++ after) ∧ before.length = id

/-- The nodes of consecutive expressions stand in a list of nodes. -/
def SitAll (nodes : List ExprNode) (id : Nat) (es : List Expr) : Prop :=
  ∃ before after, nodes = before ++ (nodesAllFrom id es ++ after) ∧ before.length = id

variable {nodes : List ExprNode} {id : Nat} {e : Expr} {es : List Expr}

/-- Consecutive expressions sit one after another. -/
theorem SitAll.cons (h : SitAll nodes id (e :: es)) :
    Sits nodes id e ∧ SitAll nodes (id + e.size) es := by
  obtain ⟨before, after, rfl, hbefore⟩ := h
  rw [nodesAllFrom]
  refine ⟨⟨before, nodesAllFrom (id + e.size) es ++ after, by simp, hbefore⟩, ?_⟩
  refine ⟨before ++ e.nodesFrom id, after, by simp, ?_⟩
  rw [List.length_append, length_nodesFrom, hbefore]

/-- The children of an expression sit right after its root. -/
theorem Sits.children (h : Sits nodes id e) : SitAll nodes (id + 1) e.children := by
  obtain ⟨before, after, rfl, hbefore⟩ := h
  refine ⟨before ++ [rootNode id e], after, ?_, ?_⟩
  · rw [nodesFrom_eq]
    simp
  · rw [List.length_append, hbefore, List.length_singleton]

/-- The root of an expression is found by its number. -/
theorem Sits.getElem? (h : Sits nodes id e) : nodes[id]? = some (rootNode id e) := by
  obtain ⟨before, after, rfl, rfl⟩ := h
  rw [List.getElem?_append_right (Nat.le_refl _), Nat.sub_self, nodesFrom_eq]
  rfl

/-- Consecutive expressions are found by their numbers. -/
theorem SitAll.filterMap_childIds (h : SitAll nodes id es) :
    (childIds id es).filterMap (fun id => nodes[id]?) = rootNodes id es := by
  induction es generalizing id with
  | nil => rfl
  | cons e es ih =>
    obtain ⟨hfirst, hrest⟩ := h.cons
    rw [childIds, List.filterMap_cons_some hfirst.getElem?, ih hrest, rootNodes]

/-- **Every node stands for a node of the expression**, and has the same properties. -/
theorem Sits.every {p : Expr → Prop} (hp : e.Every p) (h : Sits nodes id e) :
    ∀ node ∈ e.nodesFrom id, ∃ id' e', Sits nodes id' e' ∧ e'.Every p ∧
      node = rootNode id' e' := by
  induction hp generalizing id with
  | @node kind span children hroot hchildren ih =>
    rw [nodesFrom_eq]
    refine List.forall_mem_cons.mpr ⟨⟨id, _, h, .node hroot hchildren, rfl⟩, ?_⟩
    -- children one by one, each further on by the size of the one before it
    have hsit : SitAll nodes (id + 1) children := h.children
    show ∀ node ∈ nodesAllFrom (id + 1) children, _
    generalize id + 1 = first at hsit
    clear h hroot
    induction children generalizing first with
    | nil => simp [nodesAllFrom]
    | cons child children ihc =>
      obtain ⟨hchild, hrest⟩ := hsit.cons
      rw [nodesAllFrom]
      intro node hnode
      rcases List.mem_append.mp hnode with hnode | hnode
      · exact ih child List.mem_cons_self hchild node hnode
      · exact ihc (fun c hc => hchildren c (List.mem_cons_of_mem _ hc))
          (fun c hc => ih c (List.mem_cons_of_mem _ hc)) _ hrest node hnode

/-- A node stands where its expression does. -/
theorem span_rootNode (id : Nat) (h : e.span.start ≤ e.span.stop) : (rootNode id e).span = e.span := by
  have hstop : (rootNode id e).stop = e.span.stop := by
    show e.span.start + (e.span.stop - e.span.start) = e.span.stop
    omega
  rw [ExprNode.span, hstop]
  rfl

/-- The nodes of a row have its spans, where these are the right way round. -/
theorem map_span_rootNodes (id : Nat) (h : ∀ e ∈ es, e.span.start ≤ e.span.stop) :
    (rootNodes id es).map ExprNode.span = es.map Expr.span := by
  induction es generalizing id with
  | nil => rfl
  | cons e es ih =>
    obtain ⟨he, hes⟩ := List.forall_mem_cons.mp h
    rw [rootNodes, List.map_cons, List.map_cons, span_rootNode id he, ih (id + e.size) hes]

/-- `(rootNodes id es).map ExprNode.id = childIds id es`. -/
theorem map_id_rootNodes (id : Nat) (es : List Expr) :
    (rootNodes id es).map ExprNode.id = childIds id es := by
  induction es generalizing id with
  | nil => rfl
  | cons e es ih =>
    rw [rootNodes, List.map_cons, ih, childIds]
    rfl

/-- Where the root stops, nothing below it goes on. -/
theorem Every.bounded {length : Nat} (h : e.Every WellFormed) (hroot : e.span.stop ≤ length) :
    e.Every fun e => e.WellFormed ∧ e.span.stop ≤ length := by
  induction h with
  | @node kind span children hnode _ ih =>
    refine .node ⟨hnode, hroot⟩ fun child hc => ih child hc ?_
    exact Nat.le_trans (hnode.laid.inside child hc).2 hroot

end Expr

/-- **Every node lies in the text and around its children, which are all there, one after another.** -/
structure ExprTree.Placed (tree : ExprTree) (length : Nat) : Prop where
  within : ∀ node ∈ tree.nodes, node.start + node.length ≤ length
  complete : ∀ node ∈ tree.nodes, (tree.childrenOf node).map ExprNode.id = node.children
  nested : ∀ node ∈ tree.nodes, ∀ child ∈ tree.childrenOf node,
    node.start ≤ child.start ∧ child.stop ≤ node.stop
  apart : ∀ node ∈ tree.nodes, (tree.childrenOf node).Pairwise fun a b => a.stop ≤ b.start

namespace ExprTree

open ProjectLens.Expr

/-- The children of a node are the nodes of the children of its expression. -/
theorem childrenOf_rootNode {expr e : Expr} {id : Nat} (h : Sits (expr.nodesFrom 0) id e) :
    (ofExpr expr).childrenOf (rootNode id e) = rootNodes (id + 1) e.children := by
  have hchildren := h.children.filterMap_childIds
  have hget : (ofExpr expr).get? = fun id => (expr.nodesFrom 0)[id]? := by
    funext id
    rw [get?, ofExpr, List.getElem?_toArray]
  rw [childrenOf, hget]
  exact hchildren

/-- **The nodes of a well-formed expression are placed well.** -/
theorem placed_ofExpr {expr : Expr} {length : Nat} (h : expr.Every WellFormed)
    (hroot : expr.span.stop ≤ length) : (ofExpr expr).Placed length := by
  -- every node is that of an expression, with the children of that expression below it
  have nodes : ∀ node ∈ (ofExpr expr).nodes, node.span.stop ≤ length ∧
      ((ofExpr expr).childrenOf node).map ExprNode.id = node.children ∧
      ∃ e : Expr, e.Laid ∧ node.span = e.span ∧
        ((ofExpr expr).childrenOf node).map ExprNode.span = e.children.map Expr.span := by
    intro node hnode
    -- the whole expression sits at the start of its own nodes, so each part sits among them
    have hmem : node ∈ expr.nodesFrom 0 := by simpa [ofExpr] using hnode
    have hsits : Sits (expr.nodesFrom 0) 0 expr := ⟨[], [], by simp, rfl⟩
    obtain ⟨id, e, hsits, hevery, rfl⟩ := hsits.every (h.bounded hroot) node hmem
    obtain ⟨⟨hlaid, -⟩, hstop⟩ := hevery.root
    have hordered : ∀ child ∈ e.children, child.span.start ≤ child.span.stop :=
      fun child hc => (hevery.children child hc).root.1.laid.ordered
    have hspan := span_rootNode id hlaid.ordered
    have hchildren := childrenOf_rootNode hsits
    refine ⟨by rwa [hspan], ?_, e, hlaid, hspan, ?_⟩
    · rw [hchildren, map_id_rootNodes]
      rfl
    · rw [hchildren, map_span_rootNodes _ hordered]
  refine ⟨fun node hn => (nodes node hn).1, fun node hn => (nodes node hn).2.1, ?_, ?_⟩
  · intro node hn child hc
    obtain ⟨-, -, e, hlaid, hspan, hchildren⟩ := nodes node hn
    -- the span of a child node is that of a child expression
    have hmem : child.span ∈ e.children.map Expr.span := hchildren ▸ List.mem_map_of_mem hc
    obtain ⟨below, hbelow, hspan'⟩ := List.mem_map.mp hmem
    have hinside := hlaid.inside below hbelow
    rw [hspan', ← hspan] at hinside
    exact hinside
  · intro node hn
    obtain ⟨-, -, e, hlaid, -, hchildren⟩ := nodes node hn
    have hapart : (e.children.map Expr.span).Pairwise fun a b => a.stop ≤ b.start :=
      List.pairwise_map.mpr hlaid.apart
    rw [← hchildren] at hapart
    exact List.pairwise_map.mp hapart

/-- Children that lie inside their parents pass the check before linking. -/
theorem Placed.isNested {tree : ExprTree} {length : Nat} (h : tree.Placed length) :
    tree.isNested = true := by
  unfold ExprTree.isNested
  rw [Array.all_eq_true_iff_forall_mem]
  intro node hn
  rw [List.all_eq_true]
  intro child hc
  exact decide_eq_true (h.nested node hn child hc)

end ExprTree

/-! ## Links -/

/-- A node without its links. -/
def ExprNode.bare (node : ExprNode) : ExprNode :=
  { node with parent := none, previous := none, next := none }

/-- `node.bare.span = node.span`. -/
@[simp] theorem ExprNode.span_bare (node : ExprNode) : node.bare.span = node.span := rfl

/-- `node.bare.children = node.children`. -/
@[simp] theorem ExprNode.children_bare (node : ExprNode) : node.bare.children = node.children := rfl

namespace Links

/-- A node with these links. -/
def on (links : Links) (node : ExprNode) : ExprNode :=
  { node with parent := some links.parent, previous := links.previous, next := links.next }

/-- Links written one after another. -/
def write (nodes : Array ExprNode) (links : List Links) : Array ExprNode :=
  links.foldl (fun nodes link => nodes.modify link.id link.on) nodes

/-- Writing links changes nothing but links. -/
theorem map_bare_write (nodes : Array ExprNode) (links : List Links) (id : Nat) :
    (write nodes links)[id]?.map ExprNode.bare = nodes[id]?.map ExprNode.bare := by
  induction links generalizing nodes with
  | nil => rfl
  | cons link links ih =>
    rw [write, List.foldl_cons, ← write, ih, Array.getElem?_modify]
    split
    · cases nodes[id]? <;> rfl
    · rfl

end Links

namespace ExprTree

/-- The links that linking a tree writes. -/
def allLinks (tree : ExprTree) : List Links :=
  tree.nodes.toList.flatMap fun node => childLinks node.id none node.children

/-- `tree.withLinks = ⟨Links.write tree.nodes tree.allLinks, true⟩`. -/
theorem withLinks_eq (tree : ExprTree) :
    tree.withLinks = ⟨Links.write tree.nodes tree.allLinks, true⟩ := rfl

/-- Linking a tree changes nothing but links. -/
theorem get?_withLinks (tree : ExprTree) (id : Nat) :
    (tree.withLinks.get? id).map ExprNode.bare = (tree.get? id).map ExprNode.bare :=
  Links.map_bare_write tree.nodes tree.allLinks id

/-- A placed tree stays placed when only links change. -/
theorem Placed.congr {tree tree' : ExprTree} {length : Nat} (h : tree.Placed length)
    (hbare : ∀ id, (tree'.get? id).map ExprNode.bare = (tree.get? id).map ExprNode.bare) :
    tree'.Placed length := by
  -- each node is one of the other tree but for its links, and so are its children
  have same : ∀ node' ∈ tree'.nodes, ∃ node ∈ tree.nodes, node.bare = node'.bare ∧
      (tree'.childrenOf node').map ExprNode.bare = (tree.childrenOf node).map ExprNode.bare := by
    intro node' hn
    obtain ⟨id, hid⟩ := Array.mem_iff_getElem?.mp hn
    have hget : (tree.get? id).map ExprNode.bare = some node'.bare := by
      rw [← hbare id, get?, hid]
      rfl
    obtain ⟨node, hnode, hsame⟩ := Option.map_eq_some_iff.mp hget
    have hchildren : node.children = node'.children := by
      rw [← node.children_bare, hsame, node'.children_bare]
    refine ⟨node, Array.mem_iff_getElem?.mpr ⟨id, hnode⟩, hsame, ?_⟩
    rw [childrenOf, childrenOf, List.map_filterMap, List.map_filterMap, hchildren]
    congr 1
    funext id
    exact hbare id
  have span_eq : ∀ {a b : ExprNode}, a.bare = b.bare → a.span = b.span := by
    intro a b hsame
    rw [← a.span_bare, hsame, b.span_bare]
  refine ⟨?_, ?_, ?_, ?_⟩
  · -- a span does not depend on links
    intro node' hn
    obtain ⟨node, hnode, hsame, -⟩ := same node' hn
    have hwithin := h.within node hnode
    show node'.span.stop ≤ length
    rw [← span_eq hsame]
    exact hwithin
  · intro node' hn
    obtain ⟨node, hnode, hsame, hchildren⟩ := same node' hn
    have hids : (tree'.childrenOf node').map ExprNode.id = (tree.childrenOf node).map ExprNode.id := by
      have := congrArg (List.map ExprNode.id) hchildren
      rwa [List.map_map, List.map_map] at this
    rw [hids, h.complete node hnode, ← node.children_bare, hsame, node'.children_bare]
  · intro node' hn child' hc
    obtain ⟨node, hnode, hsame, hchildren⟩ := same node' hn
    have hmem : child'.bare ∈ (tree.childrenOf node).map ExprNode.bare :=
      hchildren ▸ List.mem_map_of_mem hc
    obtain ⟨child, hchild, hsame'⟩ := List.mem_map.mp hmem
    have hinside := h.nested node hnode child hchild
    show node'.span.start ≤ child'.span.start ∧ child'.span.stop ≤ node'.span.stop
    rw [← span_eq hsame, ← span_eq hsame']
    exact hinside
  · intro node' hn
    obtain ⟨node, hnode, -, hchildren⟩ := same node' hn
    have hapart : ((tree.childrenOf node).map ExprNode.bare).Pairwise
        fun a b => a.stop ≤ b.start := List.pairwise_map.mpr (h.apart node hnode)
    rw [← hchildren] at hapart
    exact List.pairwise_map.mp hapart

end ExprTree

/-- **The nodes of a parsed text.** In each of the three forms, every node lies in the text, its
children are all there, inside it, in order and without overlap; so the check that is made before
linking passes, and gives the tree that is returned. -/
theorem parseAs_placed {form : Form} {text : String} {tree : ExprTree}
    (h : parseAs form text = .ok tree) :
    tree.Placed text.length ∧
      ∃ expr, parseExpr form text = .ok expr ∧ (ExprTree.ofExpr expr).link = .ok tree := by
  unfold parseAs at h
  cases hexpr : parseExpr form text with
  | error failure =>
    rw [hexpr] at h
    cases h
  | ok expr =>
    rw [hexpr] at h
    cases h
    obtain ⟨hevery, hroot⟩ := parseExpr_wellFormed hexpr
    have hplaced := ExprTree.placed_ofExpr hevery hroot
    refine ⟨hplaced.congr (ExprTree.get?_withLinks _), expr, rfl, ?_⟩
    rw [ExprTree.link, hplaced.isNested]
    rfl

/-- A list with an empty slot and a name that is not written yet, which cover no character. -/
theorem parseAs_placed_list : ∃ tree, parseAs .list "A ;; %(B.)" = .ok tree ∧
    tree.Placed "A ;; %(B.)".length ∧
      ∃ expr, parseExpr .list "A ;; %(B.)" = .ok expr ∧ (ExprTree.ofExpr expr).link = .ok tree := by
  have hread : (parseAs .list "A ;; %(B.)").toBool = true := by decide +kernel
  cases h : parseAs .list "A ;; %(B.)" with
  | error complaint =>
    rw [h] at hread
    cases hread
  | ok tree => exact ⟨tree, rfl, parseAs_placed h⟩

end ProjectLens
