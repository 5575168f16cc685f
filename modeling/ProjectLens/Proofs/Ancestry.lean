import Mathlib.Logic.Relation
import ProjectLens.Proofs.Lowering

/-! # Above and below in a linked tree

Ancestors are found by going up through the links to parents, descendants by going down through the
lists of children. Both are the transitive closure of one relation, read from either end, so the two
answers agree. In a preorder layout a child has a greater number than its parent, so neither way is cut
short, and what is below a node follows it without a gap.

* `ExprTree.IsChild`: one number is in the children of another;
* `ExprTree.Related.parent_eq_some_iff`: links to parents say the same;
* `ExprTree.mem_descendantsFrom_iff`, `ExprTree.Related.mem_ancestorsFrom_iff`: the transitive closure;
* `ExprTree.Related.climbs`: the way up goes from parent to parent and ends at the root;
* `ExprTree.descendantsFrom_of_sits`: what is below a node are the numbers right behind it;
* `ExprTree.collect`, `ExprTree.collect_descendants`: they are found with a stack. -/

namespace ProjectLens

namespace ExprTree

open Relation

/-- One number is in the children of another. -/
def IsChild (tree : ExprTree) (above below : Nat) : Prop :=
  ∃ node, tree.get? above = some node ∧ below ∈ node.children

/-- Children are nodes, with greater numbers than their parents. -/
def Forward (tree : ExprTree) : Prop :=
  ∀ above below, tree.IsChild above below → above < below ∧ below < tree.size

variable {tree : ExprTree} {expr : Expr} {id above below : Nat} {node : ExprNode}

/-! ## Up and down -/

/-- **A node has the parent whose child it is.** -/
theorem Related.parent_eq_some_iff (hr : tree.Related) (hnode : tree.get? id = some node) :
    node.parent = some above ↔ tree.IsChild above id := by
  constructor
  · intro hparent
    have hid := hr.numbered hnode
    have hne : node.id ≠ 0 := by
      -- the root has no parent
      intro hzero
      have hroot : tree.root? = some node := by rw [root?, ← hzero, hid, hnode]
      rw [(hr.top node hroot).1] at hparent
      cases hparent
    obtain ⟨parent, hmem, hlink, hchild⟩ := hr.below node (Array.mem_of_getElem? hnode) hne
    rw [hparent] at hlink
    cases hlink
    exact ⟨parent, hr.get?_id hmem, hid ▸ hchild⟩
  · rintro ⟨parent, hget, hchild⟩
    obtain ⟨before, after, hsplit⟩ := List.append_of_mem hchild
    obtain ⟨child, hchild, hlink, -⟩ :=
      hr.sibling parent (Array.mem_of_getElem? hget) before id after hsplit
    obtain rfl : node = child := Option.some.inj (hnode.symm.trans hchild)
    rw [hlink, hr.numbered hget]

/-- **Below a node are its children, their children and so on.** -/
theorem mem_descendantsFrom_iff (hforward : tree.Forward) (id : Nat) :
    below ∈ tree.descendantsFrom id ↔ TransGen tree.IsChild id below := by
  rw [TransGen.head'_iff, descendantsFrom]
  cases hnode : tree.get? id with
  | none => simp [IsChild, hnode]
  | some node =>
    rw [List.mem_flatMap]
    refine exists_congr fun child => ?_
    have hstep : tree.IsChild id child ↔ child ∈ node.children := by simp [IsChild, hnode]
    rw [hstep]
    refine and_congr_right fun hchild => ?_
    have hbounds := hforward id child (hstep.mpr hchild)
    rw [if_pos hbounds, List.mem_cons, mem_descendantsFrom_iff hforward child,
      reflTransGen_iff_eq_or_transGen]
termination_by tree.size - id

/-- **Above a node are its parent, the parent of that one and so on.** -/
theorem Related.mem_ancestorsFrom_iff (hr : tree.Related) (hforward : tree.Forward) (id : Nat)
    (hlt : id < tree.size) : above ∈ tree.ancestorsFrom id ↔ TransGen tree.IsChild above id := by
  obtain ⟨node, hnode⟩ : ∃ node, tree.get? id = some node := ⟨_, Array.getElem?_eq_getElem hlt⟩
  have hlink : ∀ parent, node.parent = some parent ↔ tree.IsChild parent id :=
    fun _ => hr.parent_eq_some_iff hnode
  rw [TransGen.tail'_iff, ancestorsFrom, hnode]
  cases hparent : node.parent with
  | none => simp [← hlink, hparent]
  | some parent =>
    have hless := (hforward parent id ((hlink parent).mp hparent)).1
    simp only [← hlink, hparent, if_pos hless, List.mem_cons, Option.some.injEq, exists_eq_right']
    rw [hr.mem_ancestorsFrom_iff hforward parent (Nat.lt_trans hless hlt),
      reflTransGen_iff_eq_or_transGen, eq_comm]
termination_by id

/-- **The way up goes from parent to parent and ends at the root.** -/
theorem Related.climbs (hr : tree.Related) (hforward : tree.Forward) (id : Nat)
    (hlt : id < tree.size) :
    (id :: tree.ancestorsFrom id).IsChain (fun below above => tree.IsChild above below) ∧
      (id :: tree.ancestorsFrom id).getLast? = some 0 := by
  obtain ⟨node, hnode⟩ : ∃ node, tree.get? id = some node := ⟨_, Array.getElem?_eq_getElem hlt⟩
  rw [ancestorsFrom, hnode]
  cases hparent : node.parent with
  | none =>
    -- only the root has no parent
    have hid : node.id = id := hr.numbered hnode
    have hroot : id = 0 := by
      by_contra hne
      obtain ⟨parent, -, hlink, -⟩ := hr.below node (Array.mem_of_getElem? hnode) (hid ▸ hne)
      rw [hparent] at hlink
      cases hlink
    simp [hroot, hparent]
  | some parent =>
    have hchild := (hr.parent_eq_some_iff hnode).mp hparent
    have hless := (hforward parent id hchild).1
    obtain ⟨hchain, hlast⟩ := hr.climbs hforward parent (Nat.lt_trans hless hlt)
    simp only [hparent, if_pos hless]
    exact ⟨.cons_cons hchild hchain, by rw [List.getLast?_cons_cons, hlast]⟩
termination_by id

/-! ## Numbers below a node -/

/-- Linking changes no children. -/
theorem isChild_withLinks : tree.withLinks.IsChild above below ↔ tree.IsChild above below := by
  have hbare := tree.get?_withLinks above
  constructor
  · rintro ⟨node, hnode, hmem⟩
    obtain ⟨node', hnode', -, hchildren⟩ := exists_of_map_bare hbare hnode
    exact ⟨node', hnode', hchildren ▸ hmem⟩
  · rintro ⟨node, hnode, hmem⟩
    obtain ⟨node', hnode', -, hchildren⟩ := exists_of_map_bare hbare.symm hnode
    exact ⟨node', hnode', hchildren ▸ hmem⟩

/-- In a linked tree children have greater numbers than their parents. -/
theorem forward_withLinks (expr : Expr) : (ofExpr expr).withLinks.Forward := by
  intro above below hchild
  obtain ⟨node, hnode, hmem⟩ := isChild_withLinks.mp hchild
  rw [size_withLinks, ← id_of_get?_ofExpr hnode]
  exact bounds_of_mem_children (Array.mem_of_getElem? hnode) hmem

open ProjectLens.Expr

mutual

/-- **What is below a node are the numbers right behind it.** -/
theorem descendantsFrom_of_sits (id : Nat) : (e : Expr) → Sits (expr.nodesFrom 0) id e →
    (ofExpr expr).withLinks.descendantsFrom id = List.range' (id + 1) (sizeAll e.children)
  | .node kind span children, h => by
    obtain ⟨node, hnode, -, hchildren⟩ :=
      exists_of_map_bare ((ofExpr expr).get?_withLinks id).symm (get?_of_sits h)
    have hbelow := flatMap_descendantsFrom id (id + 1) (Nat.lt_succ_self id) children h.children
    rw [descendantsFrom, hnode]
    simp only [hchildren]
    exact hbelow

/-- The children of a node, each with what is below it, have the numbers from the first on. -/
theorem flatMap_descendantsFrom (id first : Nat) (hlt : id < first) : (es : List Expr) →
    SitAll (expr.nodesFrom 0) first es →
    ((childIds first es).flatMap fun child =>
      if id < child ∧ child < (ofExpr expr).withLinks.size then
        child :: (ofExpr expr).withLinks.descendantsFrom child else []) =
      List.range' first (sizeAll es)
  | [], _ => rfl
  | e :: es, h => by
    obtain ⟨hfirst, hrest⟩ := h.cons
    have hsize : first < (ofExpr expr).withLinks.size := by
      rw [size_withLinks]
      exact lt_size_of_sits hfirst
    rw [childIds, List.flatMap_cons, if_pos ⟨hlt, hsize⟩, descendantsFrom_of_sits first e hfirst,
      flatMap_descendantsFrom id (first + e.size) (by omega) es hrest, sizeAll,
      ← List.range'_append_1, e.size_eq, List.range'_succ]

end

/-! ## Below, with a stack

The nodes below one are found with a stack of numbers: the next one is taken off it, and its children are
put on it, the first of them on top. -/

/-- Takes the next number off a stack as one that is found and puts its children on it, in at most some
number of turns. -/
def collect (tree : ExprTree) : (turns : Nat) → (found pending : List Nat) → Option (List Nat)
  | _, found, [] => some found
  | 0, _, _ :: _ => none
  | turns + 1, found, id :: pending =>
    match tree.get? id with
    | some node => tree.collect turns (found ++ [id]) (node.children ++ pending)
    | none => none

/-- In a preorder layout what is below a node are its children, each with what is below it. -/
theorem descendantsFrom_eq (hforward : tree.Forward) (hnode : tree.get? id = some node) :
    tree.descendantsFrom id = node.children.flatMap fun child => child :: tree.descendantsFrom child := by
  rw [descendantsFrom, hnode]
  refine List.flatMap_congr fun child hchild => ?_
  rw [if_pos (hforward id child ⟨node, hnode, hchild⟩)]

/-- A number on the stack leads to itself and to all that is below it, in as many turns as these are. -/
def Collects (tree : ExprTree) (id : Nat) : Prop :=
  ∀ (turns : Nat) (found pending : List Nat),
    tree.collect (turns + (id :: tree.descendantsFrom id).length) found (id :: pending) =
      tree.collect turns (found ++ id :: tree.descendantsFrom id) pending

/-- Several numbers on the stack lead to what each of them leads to, in order. -/
theorem collect_row {ids : List Nat} (h : ∀ id ∈ ids, tree.Collects id) (turns : Nat)
    (found pending : List Nat) :
    tree.collect (turns + (ids.flatMap fun id => id :: tree.descendantsFrom id).length) found
        (ids ++ pending) =
      tree.collect turns (found ++ ids.flatMap fun id => id :: tree.descendantsFrom id) pending := by
  induction ids generalizing found with
  | nil => simp
  | cons id ids ih =>
    obtain ⟨hid, hids⟩ := List.forall_mem_cons.mp h
    rw [List.flatMap_cons, List.length_append, Nat.add_comm (List.length _), ← Nat.add_assoc,
      List.cons_append, hid, ih hids, List.append_assoc]

/-- **Every number on the stack leads to all that is below it.** -/
theorem collects (hforward : tree.Forward) (hlt : id < tree.size) : tree.Collects id := by
  -- by how many numbers are greater
  induction hgreater : tree.size - id using Nat.strongRecOn generalizing id with
  | _ greater ih =>
    intro turns found pending
    obtain ⟨node, hnode⟩ : ∃ node, tree.get? id = some node := ⟨_, Array.getElem?_eq_getElem hlt⟩
    have hchildren : ∀ child ∈ node.children, tree.Collects child := by
      intro child hchild
      obtain ⟨hlater, hsize⟩ := hforward id child ⟨node, hnode, hchild⟩
      exact ih (tree.size - child) (by omega) hsize rfl
    rw [List.length_cons, ← Nat.add_assoc, collect, hnode]
    simp only
    rw [descendantsFrom_eq hforward hnode, collect_row hchildren, List.append_assoc,
      List.singleton_append]

/-- With nothing left on the stack all is found. -/
@[simp] theorem collect_nil (turns : Nat) (found : List Nat) :
    tree.collect turns found [] = some found := by
  rw [collect]

/-- **What is below a node is found with a stack**, in as many turns as there are nodes. -/
theorem collect_descendants (hnode : node ∈ (ofExpr expr).withLinks.nodes) :
    (ofExpr expr).withLinks.collect (ofExpr expr).withLinks.size [] node.children =
      some ((ofExpr expr).withLinks.descendants node) := by
  have hforward := forward_withLinks expr
  have hget := (related_withLinks expr).get?_id hnode
  -- the node before linking is that of an expression, which has no more nodes than the tree
  obtain ⟨unlinked, hunlinked, hid, -⟩ := exists_of_map_bare ((ofExpr expr).get?_withLinks node.id) hget
  obtain ⟨id, e, hsits, rfl⟩ := exists_sits (Array.mem_of_getElem? hunlinked)
  have hcount : ((ofExpr expr).withLinks.descendants node).length ≤ (ofExpr expr).withLinks.size := by
    have hbound := add_size_le_of_sits hsits
    rw [descendants, ← hid, rootNode, descendantsFrom_of_sits id e hsits, List.length_range',
      size_withLinks]
    rw [e.size_eq] at hbound
    omega
  have hrow := collect_row
    (fun child hchild => collects hforward (hforward node.id child ⟨node, hget, hchild⟩).2)
    ((ofExpr expr).withLinks.size - ((ofExpr expr).withLinks.descendants node).length) [] []
  rw [← descendantsFrom_eq hforward hget, List.append_nil, List.nil_append, collect_nil] at hrow
  rw [descendants] at hcount ⊢
  rwa [descendants, Nat.sub_add_cancel hcount] at hrow

end ExprTree

end ProjectLens
