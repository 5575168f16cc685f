import ProjectLens.Proofs.Placement

/-! # Links between the nodes of a tree

Linking writes parent and siblings into the children of every node. Each number but that of the root
is a child once, so no link is written over another, and in the end every node knows its place among
the children of its parent.

* `Expr.map_id_nodesFrom`: nodes are numbered by their places;
* `Expr.children_perm`: each number below the root is a child of exactly one node, once;
* `Links.getElem?_write_of_mem`, `Links.write_perm`: a node gets the link that is for it, in whatever
  order links are written;
* `ExprTree.Related`: the links of a tree are those that its lists of children say;
* `ExprTree.related_withLinks`: linking gives them. -/

namespace ProjectLens

namespace Expr

/-! ## Numbers -/

mutual

/-- The nodes of an expression have consecutive numbers. -/
theorem map_id_nodesFrom (id : Nat) :
    (e : Expr) → (e.nodesFrom id).map ExprNode.id = List.range' id e.size
  | .node kind span children => by
    rw [nodesFrom, List.map_cons, map_id_nodesAllFrom (id + 1) children, size, List.range'_succ]

/-- The numbers of laid out trees follow each other from the first. -/
theorem map_id_nodesAllFrom (id : Nat) :
    (es : List Expr) → (nodesAllFrom id es).map ExprNode.id = List.range' id (sizeAll es)
  | [] => rfl
  | e :: es => by
    rw [nodesAllFrom, List.map_append, map_id_nodesFrom id e, map_id_nodesAllFrom (id + e.size) es,
      sizeAll, List.range'_append_1]

end

mutual

/-- **Each number below the root is a child of exactly one node, once.** -/
theorem children_perm (id : Nat) : (e : Expr) →
    (id :: (e.nodesFrom id).flatMap ExprNode.children).Perm (List.range' id e.size)
  | .node kind span children => by
    rw [nodesFrom, List.flatMap_cons, size, List.range'_succ]
    exact (childrenAll_perm (id + 1) children).cons id

/-- Of consecutive expressions, the numbers of the roots are the only ones that are not children of a
node. -/
theorem childrenAll_perm (id : Nat) : (es : List Expr) →
    (childIds id es ++ (nodesAllFrom id es).flatMap ExprNode.children).Perm
      (List.range' id (sizeAll es))
  | [] => .refl []
  | e :: es => by
    have hfirst := children_perm id e
    have hrest := childrenAll_perm (id + e.size) es
    rw [childIds, nodesAllFrom, List.flatMap_append, sizeAll, ← List.range'_append_1]
    -- the numbers below the first expression move to the front, next to its root
    refine List.Perm.trans ?_ (hfirst.append hrest)
    rw [List.cons_append, List.cons_append]
    refine List.Perm.cons id ?_
    rw [← List.append_assoc, ← List.append_assoc]
    exact (List.perm_append_comm).append_right _

end

/-- The numbers of consecutive subtrees are among those of their nodes. -/
theorem bounds_of_mem_childIds {id first : Nat} {es : List Expr} (h : id ∈ childIds first es) :
    first ≤ id ∧ id < first + sizeAll es := by
  have hmem := (childrenAll_perm first es).subset (List.mem_append_left _ h)
  exact List.mem_range'_1.mp hmem

end Expr

/-! ## What linking writes -/

namespace Links

variable {nodes : Array ExprNode} {links : List Links} {link : Links} {id : Nat}

/-- Writing links adds no node. -/
@[simp] theorem size_write (nodes : Array ExprNode) (links : List Links) :
    (write nodes links).size = nodes.size := by
  induction links generalizing nodes with
  | nil => rfl
  | cons link links ih => rw [write, List.foldl_cons, ← write, ih, Array.size_modify]

/-- A node that no link is for stays as it is. -/
theorem getElem?_write_of_not_mem (h : id ∉ links.map Links.id) :
    (write nodes links)[id]? = nodes[id]? := by
  induction links generalizing nodes with
  | nil => rfl
  | cons link links ih =>
    rw [List.map_cons, List.mem_cons, not_or] at h
    rw [write, List.foldl_cons, ← write, ih h.2, Array.getElem?_modify, if_neg (Ne.symm h.1)]

/-- **A node gets the link that is for it** if no two links are for one node. -/
theorem getElem?_write_of_mem (hnodup : (links.map Links.id).Nodup) (hlink : link ∈ links) :
    (write nodes links)[link.id]? = nodes[link.id]?.map link.on := by
  induction links generalizing nodes with
  | nil => cases hlink
  | cons first links ih =>
    rw [List.map_cons, List.nodup_cons] at hnodup
    rw [write, List.foldl_cons, ← write]
    rcases List.mem_cons.mp hlink with rfl | hlater
    · -- later links are for other nodes
      rw [getElem?_write_of_not_mem hnodup.1, Array.getElem?_modify, if_pos rfl]
    · have hne : first.id ≠ link.id := fun heq =>
        hnodup.1 (heq ▸ List.mem_map_of_mem hlater)
      rw [ih hnodup.2 hlater, Array.getElem?_modify, if_neg hne]

/-- The order of links does not matter if no two of them are for one node. -/
theorem write_perm {links' : List Links} (hnodup : (links.map Links.id).Nodup)
    (hperm : links.Perm links') : write nodes links = write nodes links' := by
  have hnodup' : (links'.map Links.id).Nodup := (hperm.map Links.id).nodup_iff.mp hnodup
  apply Array.ext_getElem?
  intro id
  by_cases hmem : id ∈ links.map Links.id
  · obtain ⟨link, hlink, rfl⟩ := List.mem_map.mp hmem
    rw [getElem?_write_of_mem hnodup hlink, getElem?_write_of_mem hnodup' (hperm.mem_iff.mp hlink)]
  · rw [getElem?_write_of_not_mem hmem,
      getElem?_write_of_not_mem (mt (hperm.map Links.id).mem_iff.mpr hmem)]

/-- `write nodes (links ++ more) = write (write nodes links) more`. -/
theorem write_append (nodes : Array ExprNode) (links more : List Links) :
    write nodes (links ++ more) = write (write nodes links) more := List.foldl_append

end Links

/-- There is one link for each child. -/
@[simp] theorem map_id_childLinks (parent : Nat) (previous : Option Nat) (ids : List Nat) :
    (childLinks parent previous ids).map Links.id = ids := by
  induction ids generalizing previous with
  | nil => rfl
  | cons id ids ih => rw [childLinks, List.map_cons, ih]

/-- **The link of a child** names the children right before and after it. -/
theorem mem_childLinks (parent : Nat) (previous : Option Nat) (before : List Nat) (id : Nat)
    (after : List Nat) : ⟨id, parent, before.getLast?.or previous, after.head?⟩ ∈
      childLinks parent previous (before ++ id :: after) := by
  induction before generalizing previous with
  | nil => exact List.mem_cons_self
  | cons first before ih =>
    have hlast : ((first :: before).getLast?).or previous = before.getLast?.or (some first) := by
      cases before with
      | nil => rfl
      | cons second before => rw [List.getLast?_cons_cons, List.getLast?_cons]; rfl
    rw [hlast]
    exact List.mem_cons_of_mem _ (ih (some first))

namespace ExprTree

/-- `tree.withLinks.size = tree.size`. -/
@[simp] theorem size_withLinks (tree : ExprTree) : tree.withLinks.size = tree.size :=
  Links.size_write tree.nodes tree.allLinks

/-- The links there are to write are those of all children. -/
theorem map_id_allLinks (tree : ExprTree) :
    tree.allLinks.map Links.id = tree.nodes.toList.flatMap ExprNode.children := by
  simp only [allLinks, List.map_flatMap, map_id_childLinks]

/-! ## Linked trees -/

/-- **The links of a tree are those that its lists of children say.** -/
structure Related (tree : ExprTree) : Prop where
  /-- Links are set. -/
  linked : tree.linked = true
  /-- A node is known by its place. -/
  numbered : ∀ {id : Nat} {node : ExprNode}, tree.get? id = some node → node.id = id
  /-- The root is nobody's child. -/
  top : ∀ root ∈ tree.root?, root.parent = none ∧ root.previous = none ∧ root.next = none
  /-- A child is linked to its parent and to the children right before and after it. -/
  sibling : ∀ parent ∈ tree.nodes, ∀ before id after, parent.children = before ++ id :: after →
    ∃ child, tree.get? id = some child ∧ child.parent = some parent.id ∧
      child.previous = before.getLast? ∧ child.next = after.head?
  /-- Any node but the root is the child of its parent. -/
  below : ∀ child ∈ tree.nodes, child.id ≠ 0 →
    ∃ parent ∈ tree.nodes, child.parent = some parent.id ∧ child.id ∈ parent.children

variable {tree : ExprTree} {expr : Expr} {id : Nat} {node : ExprNode}

/-- A node is found at its number. -/
theorem Related.get?_id (hr : tree.Related) (h : node ∈ tree.nodes) :
    tree.get? node.id = some node := by
  obtain ⟨place, hplace⟩ := Array.mem_iff_getElem?.mp h
  have hid : node.id = place := hr.numbered hplace
  rw [hid]
  exact hplace

/-- What is found at a number has that number. -/
theorem id_of_get?_ofExpr (h : (ofExpr expr).get? id = some node) : node.id = id := by
  rw [get?, ofExpr, List.getElem?_toArray] at h
  have hid : ((expr.nodesFrom 0).map ExprNode.id)[id]? = some node.id := by
    rw [List.getElem?_map, h]
    rfl
  rw [Expr.map_id_nodesFrom] at hid
  obtain ⟨hlt, heq⟩ := List.getElem?_eq_some_iff.mp hid
  rw [← heq, List.getElem_range', Nat.one_mul, Nat.zero_add]

/-- The numbers that linking the tree of an expression writes to: all but that of the root. -/
theorem cons_allLinks_perm (expr : Expr) :
    (0 :: (ofExpr expr).allLinks.map Links.id).Perm (List.range' 0 expr.size) := by
  rw [map_id_allLinks]
  exact expr.children_perm 0

/-- No number is linked twice, and the root is not linked. -/
theorem nodup_allLinks (expr : Expr) : (0 :: (ofExpr expr).allLinks.map Links.id).Nodup :=
  (cons_allLinks_perm expr).nodup_iff.mpr List.nodup_range'

/-- Every number but the root's is linked: `id < (ofExpr expr).size`. -/
theorem mem_allLinks_iff (expr : Expr) :
    id ∈ 0 :: (ofExpr expr).allLinks.map Links.id ↔ id < (ofExpr expr).size := by
  have hsize : (ofExpr expr).size = expr.size := by
    rw [size, ofExpr, List.size_toArray, Expr.length_nodesFrom]
  rw [(cons_allLinks_perm expr).mem_iff, List.mem_range'_1, hsize]
  omega

/-- Nodes that are the same but for their links have the same number and the same children. -/
theorem exists_of_map_bare {a b : Option ExprNode} (h : a.map ExprNode.bare = b.map ExprNode.bare)
    (hnode : a = some node) :
    ∃ node', b = some node' ∧ node'.id = node.id ∧ node'.children = node.children := by
  rw [hnode] at h
  obtain ⟨node', hnode', hsame⟩ := Option.map_eq_some_iff.mp h.symm
  have hid : node'.bare.id = node.bare.id := by rw [hsame]
  have hchildren : node'.bare.children = node.bare.children := by rw [hsame]
  exact ⟨node', hnode', hid, hchildren⟩

/-- **A link is in the node it is for.** -/
theorem get?_withLinks_of_mem {link : Links} (h : link ∈ (ofExpr expr).allLinks) :
    ∃ node, (ofExpr expr).get? link.id = some node ∧
      (ofExpr expr).withLinks.get? link.id = some (link.on node) := by
  have hlt : link.id < (ofExpr expr).size :=
    (mem_allLinks_iff expr).mp (List.mem_cons_of_mem _ (List.mem_map_of_mem h))
  refine ⟨(ofExpr expr).nodes[link.id], Array.getElem?_eq_getElem hlt, ?_⟩
  rw [withLinks_eq, get?, Links.getElem?_write_of_mem (nodup_allLinks expr).of_cons h,
    Array.getElem?_eq_getElem hlt]
  rfl

/-- A child between two siblings is linked to its parent and to both. -/
theorem mem_allLinks_of_split {parent : ExprNode} {before after : List Nat}
    (hparent : parent ∈ tree.nodes) (hsplit : parent.children = before ++ id :: after) :
    ⟨id, parent.id, before.getLast?, after.head?⟩ ∈ tree.allLinks := by
  refine List.mem_flatMap.mpr ⟨parent, hparent.val, ?_⟩
  have hmem := mem_childLinks parent.id none before id after
  rwa [Option.or_none, ← hsplit] at hmem

/-- A child is linked to its parent and to the children right before and after it. -/
theorem exists_sibling {parent : ExprNode} {before after : List Nat}
    (hparent : parent ∈ (ofExpr expr).withLinks.nodes)
    (hsplit : parent.children = before ++ id :: after) :
    ∃ child, (ofExpr expr).withLinks.get? id = some child ∧ child.parent = some parent.id ∧
      child.previous = before.getLast? ∧ child.next = after.head? := by
  -- the same parent before linking
  obtain ⟨place, hplace⟩ := Array.mem_iff_getElem?.mp hparent
  obtain ⟨unlinked, hunlinked, hid, hchildren⟩ :=
    exists_of_map_bare ((ofExpr expr).get?_withLinks place) hplace
  rw [← hchildren] at hsplit
  have hlink := mem_allLinks_of_split (Array.mem_of_getElem? hunlinked) hsplit
  obtain ⟨node, -, hnode⟩ := get?_withLinks_of_mem hlink
  rw [← hid]
  exact ⟨_, hnode, rfl, rfl, rfl⟩

/-- Any number but that of the root is in the children of a node. -/
theorem exists_parent (hlt : id < (ofExpr expr).size) (hroot : id ≠ 0) :
    ∃ parent ∈ (ofExpr expr).withLinks.nodes, id ∈ parent.children := by
  have hmem : id ∈ (ofExpr expr).allLinks.map Links.id :=
    List.mem_of_ne_of_mem hroot ((mem_allLinks_iff expr).mpr hlt)
  rw [map_id_allLinks] at hmem
  obtain ⟨unlinked, hunlinked, hchild⟩ := List.mem_flatMap.mp hmem
  -- the same parent after linking
  obtain ⟨place, hplace⟩ := Array.mem_iff_getElem?.mp (Array.mem_def.mpr hunlinked)
  obtain ⟨parent, hparent, -, hchildren⟩ :=
    exists_of_map_bare ((ofExpr expr).get?_withLinks place).symm hplace
  exact ⟨parent, Array.mem_of_getElem? hparent, hchildren ▸ hchild⟩

/-- **Linking the tree of an expression relates its nodes.** -/
theorem related_withLinks (expr : Expr) : (ofExpr expr).withLinks.Related := by
  have numbered {id : Nat} {node : ExprNode} (h : (ofExpr expr).withLinks.get? id = some node) :
      node.id = id ∧ id < (ofExpr expr).size := by
    obtain ⟨unlinked, hunlinked, hid, -⟩ :=
      exists_of_map_bare ((ofExpr expr).get?_withLinks id) h
    exact ⟨hid ▸ id_of_get?_ofExpr hunlinked, (Array.getElem?_eq_some_iff.mp hunlinked).1⟩
  refine ⟨rfl, fun h => (numbered h).1, ?_, fun _ hparent _ _ _ => exists_sibling hparent, ?_⟩
  · intro root hroot
    -- no link is for the root
    have hnot := (List.nodup_cons.mp (nodup_allLinks expr)).1
    have hsame : (ofExpr expr).withLinks.get? 0 = (ofExpr expr).get? 0 :=
      Links.getElem?_write_of_not_mem hnot
    have hget : (ofExpr expr).get? 0 = some (expr.rootNode 0) := by
      rw [get?, ofExpr, List.getElem?_toArray, Expr.nodesFrom_eq]
      rfl
    rw [root?, hsame, hget] at hroot
    cases hroot
    exact ⟨rfl, rfl, rfl⟩
  · intro child hchild hroot
    obtain ⟨place, hplace⟩ := Array.mem_iff_getElem?.mp hchild
    obtain ⟨hid, hlt⟩ := numbered hplace
    rw [hid] at hroot ⊢
    obtain ⟨parent, hparent, hmem⟩ := exists_parent hlt hroot
    obtain ⟨before, after, hsplit⟩ := List.append_of_mem hmem
    obtain ⟨linked, hlinked, hlink, -⟩ := exists_sibling hparent hsplit
    -- a number has one node
    obtain rfl : linked = child := Option.some.inj (hlinked.symm.trans hplace)
    exact ⟨parent, hparent, hlink, hmem⟩

end ExprTree

end ProjectLens
