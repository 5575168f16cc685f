import ProjectLens.Proofs.Ancestry

/-! # Linking with a worklist

The nodes of a tree are linked from a worklist that starts with the root: the next number is taken from
it, links are written into the children of that node one by one, each after a look at its span, and the
children go on top of the worklist. So the last child of a node comes before the others, and the links
are written in an order that has nothing to do with that of the nodes. Since every node is the child of
one other only, the order does not matter, and the worklist is empty after as many turns as there are
nodes.

* `Expr.isNested`: every expression lies in the one it is a child of;
* `Linking.run`: the turns of the worklist, with what can go wrong in them;
* `Linking.run_expr`: a number on the worklist leads to the links of all nodes below it;
* `Linking.run_start`: the worklist gives the linked tree, or finds that a child escapes;
* `ExprTree.linksAsListed_ofExpr`: what linking the tree of an expression comes to. -/

namespace ProjectLens

/-! ## Nested expressions -/

namespace Expr

mutual

/-- Whether every expression lies in the one it is a child of. -/
def isNested : Expr → Bool
  | .node _ span children =>
    (children.all fun child => span.straightened.encloses child.span.straightened) &&
      isNestedAll children

/-- Whether all of consecutive expressions are nested. -/
def isNestedAll : List Expr → Bool
  | [] => true
  | e :: es => isNested e && isNestedAll es

end

/-- What holds of the spans of a row's nodes holds of its expressions' spans, straightened. -/
theorem all_rootNodes (id : Nat) (es : List Expr) (p : Span → Bool) :
    ((rootNodes id es).all fun node => p node.span) = es.all fun e => p e.span.straightened := by
  induction es generalizing id with
  | nil => rfl
  | cons e es ih =>
    rw [rootNodes, List.all_cons, List.all_cons, ih]
    rfl

end Expr

namespace ExprTree

open ProjectLens.Expr

variable {expr : Expr}

mutual

/-- The check on the nodes of an expression is one on the expression. -/
theorem all_nodesFrom (id : Nat) : (e : Expr) → Sits (expr.nodesFrom 0) id e →
    ((e.nodesFrom id).all fun node =>
      ((ofExpr expr).childrenOf node).all fun child => node.span.encloses child.span) = e.isNested
  | .node kind span children, h => by
    have hbelow := all_nodesAllFrom (id + 1) children h.children
    have hroot := all_rootNodes (id + 1) children (rootNode id (.node kind span children)).span.encloses
    rw [nodesFrom_eq, List.all_cons, childrenOf_rootNode h, Expr.isNested, ← hbelow]
    exact congrArg (· && _) hroot

/-- Every node of a row encloses its children if the row's expressions are nested. -/
theorem all_nodesAllFrom (id : Nat) : (es : List Expr) → SitAll (expr.nodesFrom 0) id es →
    ((nodesAllFrom id es).all fun node =>
      ((ofExpr expr).childrenOf node).all fun child => node.span.encloses child.span) =
      isNestedAll es
  | [], _ => rfl
  | e :: es, h => by
    obtain ⟨hfirst, hrest⟩ := h.cons
    rw [nodesAllFrom, List.all_append, all_nodesFrom id e hfirst,
      all_nodesAllFrom (id + e.size) es hrest, isNestedAll]

end

/-- `(ofExpr e).isNested = e.isNested`. -/
theorem isNested_ofExpr (e : Expr) : (ofExpr e).isNested = e.isNested := by
  have hall := all_nodesFrom 0 e e.sits_self
  rw [ExprTree.isNested]
  simpa [ofExpr] using hall

end ExprTree

/-! ## The worklist -/

/-- Nodes that are being linked. -/
structure Linking where
  /-- The nodes, some of them with links. -/
  nodes : Array ExprNode
  /-- The numbers whose children are still to be linked, the next one first. -/
  pending : List Nat

namespace Linking

/-- What can go wrong while nodes are linked. -/
inductive Fault where
  /-- The nodes cannot be linked. -/
  | refused (error : LinkError)
  /-- A number is that of no node. -/
  | missing
  /-- There are more turns than are allowed. -/
  | unfinished
  deriving DecidableEq, Repr

/-- The start: the children of the root are still to be linked, and so all others. -/
def start (tree : ExprTree) : Linking := ⟨tree.nodes, [0]⟩

/-- The node of a number. -/
def find (nodes : Array ExprNode) (id : Nat) : Except Fault ExprNode :=
  match nodes[id]? with
  | some node => .ok node
  | none => .error .missing

/-- Writes one link, if the child lies in its parent. -/
def linkOne (nodes : Array ExprNode) (link : Links) : Except Fault (Array ExprNode) := do
  let parent ← find nodes link.parent
  let child ← find nodes link.id
  if parent.span.encloses child.span then return nodes.modify link.id link.on
  else throw (.refused .childEscapes)

/-- Links the children of one node after another, in at most some number of turns. -/
def run : Nat → Linking → Except Fault (Array ExprNode)
  | _, ⟨nodes, []⟩ => .ok nodes
  | 0, ⟨_, _ :: _⟩ => .error .unfinished
  | turns + 1, ⟨nodes, id :: pending⟩ => do
    let parent ← find nodes id
    let nodes ← (childLinks id none parent.children).foldlM linkOne nodes
    run turns ⟨nodes, parent.children.reverse ++ pending⟩

/-! ### Nodes but for their links -/

open ProjectLens.Expr

variable {expr : Expr} {nodes : Array ExprNode}

/-- Nodes that are those of an expression but for their links. -/
def Keeps (expr : Expr) (nodes : Array ExprNode) : Prop :=
  ∀ id, nodes[id]?.map ExprNode.bare = ((ExprTree.ofExpr expr).get? id).map ExprNode.bare

/-- Writing links keeps what the nodes of an expression are otherwise. -/
theorem Keeps.write (h : Keeps expr nodes) (links : List Links) :
    Keeps expr (Links.write nodes links) :=
  fun id => (Links.map_bare_write nodes links id).trans (h id)

/-- The node of an expression is found, with its span and its children. -/
theorem Keeps.find (h : Keeps expr nodes) {id : Nat} {e : Expr} (hsits : Sits (expr.nodesFrom 0) id e) :
    ∃ node, Linking.find nodes id = .ok node ∧ node.span = e.span.straightened ∧
      node.children = childIds (id + 1) e.children := by
  have hbare := h id
  rw [ExprTree.get?_of_sits hsits] at hbare
  obtain ⟨node, hnode, hsame⟩ := Option.map_eq_some_iff.mp hbare
  refine ⟨node, by rw [Linking.find, hnode], ?_, ?_⟩
  · rw [← node.span_bare, hsame]
    rfl
  · rw [← node.children_bare, hsame]
    rfl

/-- A link is written if the child lies in its parent. -/
theorem linkOne_eq (h : Keeps expr nodes) {link : Links} {e child : Expr}
    (hparent : Sits (expr.nodesFrom 0) link.parent e) (hchild : Sits (expr.nodesFrom 0) link.id child) :
    linkOne nodes link =
      if e.span.straightened.encloses child.span.straightened then .ok (nodes.modify link.id link.on)
      else .error (.refused .childEscapes) := by
  obtain ⟨above, habove, hspan, -⟩ := h.find hparent
  obtain ⟨below, hbelow, hspan', -⟩ := h.find hchild
  rw [linkOne, habove, hbelow]
  show (if above.span.encloses below.span then _ else _) = _
  rw [hspan, hspan']
  rfl

/-- **The children of a node are linked**, if all of them lie in it. -/
theorem foldlM_linkOne (h : Keeps expr nodes) {id : Nat} {e : Expr} {es : List Expr}
    (hparent : Sits (expr.nodesFrom 0) id e) {first : Nat} (hes : SitAll (expr.nodesFrom 0) first es)
    (previous : Option Nat) :
    (childLinks id previous (childIds first es)).foldlM linkOne nodes =
      if es.all fun child => e.span.straightened.encloses child.span.straightened then
        .ok (Links.write nodes (childLinks id previous (childIds first es)))
      else .error (.refused .childEscapes) := by
  induction es generalizing nodes first previous with
  | nil => rfl
  | cons child es ih =>
    obtain ⟨hchild, hrest⟩ := hes.cons
    rw [childIds, childLinks, List.foldlM_cons, linkOne_eq h hparent hchild, List.all_cons]
    by_cases hinside : e.span.straightened.encloses child.span.straightened = true
    · rw [if_pos hinside, hinside, Bool.true_and]
      exact ih (h.write [_]) hrest (some first)
    · rw [if_neg hinside, if_neg (by simp [hinside])]
      rfl

/-! ### Links in the order of the worklist -/

mutual

/-- The links of all nodes below an expression, in the order in which they are written. -/
def linksFrom (id : Nat) : Expr → List Links
  | .node _ _ children =>
    childLinks id none (childIds (id + 1) children) ++ linksAllFrom (id + 1) children

/-- The links of all nodes below consecutive expressions, those of the last one first. -/
def linksAllFrom (id : Nat) : List Expr → List Links
  | [] => []
  | e :: es => linksAllFrom (id + e.size) es ++ linksFrom id e

end

mutual

/-- The links are those of the nodes. -/
theorem linksFrom_perm (id : Nat) : (e : Expr) → (linksFrom id e).Perm
    ((e.nodesFrom id).flatMap fun node => childLinks node.id none node.children)
  | .node kind span children => by
    rw [linksFrom, nodesFrom, List.flatMap_cons]
    exact (linksAllFrom_perm (id + 1) children).append_left _

/-- The links of a row in the order of the worklist are those of its nodes in another order. -/
theorem linksAllFrom_perm (id : Nat) : (es : List Expr) → (linksAllFrom id es).Perm
    ((nodesAllFrom id es).flatMap fun node => childLinks node.id none node.children)
  | [] => .refl []
  | e :: es => by
    rw [linksAllFrom, nodesAllFrom, List.flatMap_append]
    exact ((linksAllFrom_perm (id + e.size) es).append (linksFrom_perm id e)).trans
      List.perm_append_comm

end

mutual

/-- **A number on the worklist leads to the links of all nodes below it**, in as many turns as these
are, or to a refusal. -/
theorem run_expr (turns : Nat) (pending : List Nat) (nodes : Array ExprNode) (h : Keeps expr nodes)
    (id : Nat) : (e : Expr) → Sits (expr.nodesFrom 0) id e →
    run (turns + e.size) ⟨nodes, id :: pending⟩ =
      if e.isNested then run turns ⟨Links.write nodes (linksFrom id e), pending⟩
      else .error (.refused .childEscapes)
  | .node kind span children, hsits => by
    obtain ⟨node, hnode, -, hchildren⟩ := h.find hsits
    -- the children are linked, or the first one that escapes ends the run
    have hlinks : (childLinks id none node.children).foldlM linkOne nodes =
        if children.all fun child => span.straightened.encloses child.span.straightened then
          .ok (Links.write nodes (childLinks id none (childIds (id + 1) children)))
        else .error (.refused .childEscapes) :=
      hchildren ▸ foldlM_linkOne h hsits hsits.children none
    rw [size, ← Nat.add_assoc, run, hnode]
    show ((childLinks id none node.children).foldlM linkOne nodes >>= fun nodes =>
      run (turns + sizeAll children) ⟨nodes, node.children.reverse ++ pending⟩) = _
    rw [hlinks, hchildren, isNested]
    by_cases hinside : (children.all fun child =>
        span.straightened.encloses child.span.straightened) = true
    · rw [if_pos hinside, hinside, Bool.true_and, linksFrom, Links.write_append]
      exact run_children turns pending _ (h.write _) (id + 1) children hsits.children
    · rw [if_neg hinside, if_neg (by simp [hinside])]
      rfl

/-- Consecutive numbers on the worklist, of which the last one is the next. -/
theorem run_children (turns : Nat) (pending : List Nat) (nodes : Array ExprNode)
    (h : Keeps expr nodes) (first : Nat) : (es : List Expr) → SitAll (expr.nodesFrom 0) first es →
    run (turns + sizeAll es) ⟨nodes, (childIds first es).reverse ++ pending⟩ =
      if isNestedAll es then run turns ⟨Links.write nodes (linksAllFrom first es), pending⟩
      else .error (.refused .childEscapes)
  | [], _ => rfl
  | e :: es, hes => by
    obtain ⟨hfirst, hrest⟩ := hes.cons
    rw [childIds, List.reverse_cons, List.append_assoc, sizeAll, ← Nat.add_assoc]
    have hlater := run_children (turns + e.size) (first :: pending) nodes h (first + e.size) es hrest
    rw [List.singleton_append, hlater, isNestedAll]
    by_cases hnested : isNestedAll es = true
    · rw [if_pos hnested, hnested, Bool.and_true, linksAllFrom, Links.write_append]
      exact run_expr turns pending _ (h.write _) first e hfirst
    · rw [if_neg hnested, if_neg (by simp [hnested])]

end

/-- **The worklist links a tree as its lists of children say**, in as many turns as there are nodes. -/
theorem run_start (e : Expr) :
    (start (ExprTree.ofExpr e)).run (ExprTree.ofExpr e).size =
      match (ExprTree.ofExpr e).link with
      | .ok linked => .ok linked.nodes
      | .error error => .error (.refused error) := by
  have hrun := run_expr 0 [] (ExprTree.ofExpr e).nodes (fun _ => rfl) 0 e e.sits_self
  have hsize : (ExprTree.ofExpr e).size = 0 + e.size := by
    rw [ExprTree.size, ExprTree.ofExpr, List.size_toArray, length_nodesFrom, Nat.zero_add]
  rw [hsize, start, hrun, ExprTree.link, ExprTree.isNested_ofExpr]
  by_cases hnested : e.isNested = true
  · have hperm : (linksFrom 0 e).Perm (ExprTree.ofExpr e).allLinks := linksFrom_perm 0 e
    have hnodup := (ExprTree.nodup_allLinks e).of_cons
    rw [if_pos hnested, if_pos hnested, run, ← Links.write_perm hnodup hperm.symm]
    rfl
  · rw [if_neg hnested, if_neg hnested]
    rfl

end Linking

/-! ## Linked trees -/

namespace ExprTree

open ProjectLens.Expr

/-- Some child covers text that its parent does not. -/
def Escapes (tree : ExprTree) : Prop :=
  ∃ parent ∈ tree.nodes, ∃ id ∈ parent.children, ∃ child, tree.get? id = some child ∧
    ¬ (parent.start ≤ child.start ∧ child.start + child.length ≤ parent.start + parent.length)

/-- **What linking a tree gives.** -/
structure IsLinkingOf (linked tree : ExprTree) : Prop where
  /-- Nothing but links has changed. -/
  map_bare : ∀ id, (linked.get? id).map ExprNode.bare = tree.get? id
  /-- A node has the parent whose child it is. -/
  parent_iff : ∀ id node, linked.get? id = some node → ∀ above,
    node.parent = some above ↔ linked.IsChild above id
  /-- The siblings of a child are the ones right before and after it. -/
  siblings : ∀ parent ∈ linked.nodes, ∀ before id after, parent.children = before ++ id :: after →
    ∃ child, linked.get? id = some child ∧ child.previous = before.getLast? ∧
      child.next = after.head?
  /-- The root has neither parent nor siblings. -/
  root : ∃ root, linked.root? = some root ∧
    root.parent = none ∧ root.previous = none ∧ root.next = none
  /-- Linking again changes nothing. -/
  again : linked.link = .ok linked
  /-- Going up leads from parent to parent and ends at the root. -/
  climbs : ∀ node ∈ linked.nodes,
    (node.id :: linked.ancestors node).IsChain (fun below above => linked.IsChild above below) ∧
      (node.id :: linked.ancestors node).getLast? = some 0
  /-- One node is above another just when that one is below it. -/
  above_iff_below : ∀ above ∈ linked.nodes, ∀ below ∈ linked.nodes,
    above.id ∈ linked.ancestors below ↔ below.id ∈ linked.descendants above
  /-- What is below a node follows it without a gap. -/
  block : ∀ node ∈ linked.nodes, ∃ count,
    linked.descendants node = List.range' (node.id + 1) count
  /-- A stack that starts with the children of a node finds what is below it, in as many turns as there
  are nodes. -/
  collected : ∀ node ∈ linked.nodes,
    linked.collect linked.size [] node.children = some (linked.descendants node)

/-- **How a tree is linked.** -/
structure LinksAsListed (tree : ExprTree) : Prop where
  /-- Linking is refused just when a child escapes its parent. -/
  refused_iff : tree.link = .error .childEscapes ↔ tree.Escapes
  /-- Otherwise it gives the tree with its links. -/
  linked : ¬ tree.Escapes → ∃ linked, tree.link = .ok linked ∧ linked.IsLinkingOf tree
  /-- The worklist comes to the same, in as many turns as there are nodes. -/
  run_start : (Linking.start tree).run tree.size =
    match tree.link with
    | .ok linked => .ok linked.nodes
    | .error error => .error (.refused error)

/-- The check before linking looks for children that escape. -/
theorem isNested_iff {tree : ExprTree} : tree.isNested = true ↔ ¬ tree.Escapes := by
  rw [isNested, Array.all_eq_true_iff_forall_mem]
  constructor
  · rintro hall ⟨parent, hparent, id, hid, child, hchild, hout⟩
    have hmem : child ∈ tree.childrenOf parent := List.mem_filterMap.mpr ⟨id, hid, hchild⟩
    have hinside := List.all_eq_true.mp (hall parent hparent) child hmem
    exact hout (of_decide_eq_true hinside)
  · intro hnone parent hparent
    rw [List.all_eq_true]
    intro child hmem
    obtain ⟨id, hid, hchild⟩ := List.mem_filterMap.mp hmem
    apply decide_eq_true
    by_contra hout
    exact hnone ⟨parent, hparent, id, hid, child, hchild, hout⟩

/-- Before linking no node has links. -/
theorem map_bare_get?_ofExpr (e : Expr) (id : Nat) :
    ((ofExpr e).get? id).map ExprNode.bare = (ofExpr e).get? id := by
  cases hnode : (ofExpr e).get? id with
  | none => rfl
  | some node =>
    obtain ⟨id', e', -, rfl⟩ := exists_sits (Array.mem_of_getElem? hnode)
    rfl

/-- **A tree with its links is what linking should give.** -/
theorem isLinkingOf_withLinks (e : Expr) : (ofExpr e).withLinks.IsLinkingOf (ofExpr e) := by
  have hr := related_withLinks e
  have hforward := forward_withLinks e
  have hbare := (ofExpr e).get?_withLinks
  have hlt : ∀ node ∈ (ofExpr e).withLinks.nodes, node.id < (ofExpr e).withLinks.size := by
    intro node hnode
    exact (Array.getElem?_eq_some_iff.mp (hr.get?_id hnode)).1
  refine ⟨?_, ?_, ?_, ?_, rfl, ?_, ?_, ?_, fun node hnode => collect_descendants hnode⟩
  · intro id
    rw [hbare, map_bare_get?_ofExpr]
  · intro id node hnode above
    exact hr.parent_eq_some_iff hnode
  · intro parent hparent before id after hsplit
    obtain ⟨child, hchild, -, hprevious, hnext⟩ := hr.sibling parent hparent before id after hsplit
    exact ⟨child, hchild, hprevious, hnext⟩
  · obtain ⟨root, hroot, -, -⟩ := exists_of_map_bare (hbare 0).symm (get?_of_sits e.sits_self)
    exact ⟨root, hroot, hr.top root hroot⟩
  · intro node hnode
    exact hr.climbs hforward node.id (hlt node hnode)
  · intro above _ below hbelow
    rw [ancestors, descendants, hr.mem_ancestorsFrom_iff hforward below.id (hlt below hbelow),
      mem_descendantsFrom_iff hforward]
  · intro node hnode
    -- the same node before linking is that of an expression
    obtain ⟨unlinked, hunlinked, hid, -⟩ := exists_of_map_bare (hbare node.id) (hr.get?_id hnode)
    obtain ⟨id, e', hsits, rfl⟩ := exists_sits (Array.mem_of_getElem? hunlinked)
    rw [descendants, ← hid]
    exact ⟨_, descendantsFrom_of_sits id e' hsits⟩

/-- **The tree of an expression is linked as its lists of children say**, whatever its spans. -/
theorem linksAsListed_ofExpr (e : Expr) : (ofExpr e).LinksAsListed := by
  have hnested : (ofExpr e).isNested = true ↔ ¬ (ofExpr e).Escapes := isNested_iff
  refine ⟨?_, ?_, Linking.run_start e⟩
  · rw [link, if_neg (by simp [ofExpr])]
    by_cases hescapes : (ofExpr e).Escapes
    · rw [if_neg (fun h => hnested.mp h hescapes)]
      simp [hescapes]
    · rw [if_pos (hnested.mpr hescapes)]
      simp [hescapes]
  · intro hescapes
    refine ⟨(ofExpr e).withLinks, ?_, isLinkingOf_withLinks e⟩
    rw [link, if_neg (by simp [ofExpr]), if_pos (hnested.mpr hescapes)]

end ExprTree

end ProjectLens
