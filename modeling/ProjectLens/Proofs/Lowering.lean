import Mathlib.Data.List.Nodup
import Mathlib.Data.List.Pairwise
import ProjectLens.Proofs.Links

/-! # Laying out an expression loses nothing

The nodes of an expression are laid out with a stack: the next expression on it becomes a node without
children, its number is added to the children of its parent, and its own children go on top of the
stack. What comes of this is the preorder layout, whatever the shape of the expression, and going down
from the first node through the lists of children gives the expression back. Only the end of a span
that stands before its start is lost: a node keeps a length.

* `Lowering`: the stack and the nodes so far, `Lowering.run` the turns until the stack is empty;
* `Lowering.run_expr`, `Lowering.run_children`: an expression on the stack becomes its nodes;
* `ExprTree.exprFrom?`: the expression that is read back from a node;
* `ExprTree.lowers_ofExpr`: the tree of an expression is that expression. -/

namespace ProjectLens

/-- A span whose end is no earlier than its start: one that stands before it is taken for it. -/
def Span.straightened (span : Span) : Span := ⟨span.start, span.start + span.length⟩

/-- What a node tells about itself, its place among the others apart. -/
def ExprNode.label (node : ExprNode) : Nat × Kind × Nat × Nat :=
  (node.id, node.kind, node.start, node.length)

namespace Expr

mutual

/-- An expression and all those below it, in preorder. -/
def preorder : Expr → List Expr
  | .node kind span children => .node kind span children :: preorderAll children

/-- Consecutive expressions and all those below them. -/
def preorderAll : List Expr → List Expr
  | [] => []
  | e :: es => preorder e ++ preorderAll es

end

mutual

/-- An expression with all of its spans straightened. -/
def straightened : Expr → Expr
  | .node kind span children => .node kind span.straightened (straightenedAll children)

/-- Consecutive expressions with all of their spans straightened. -/
def straightenedAll : List Expr → List Expr
  | [] => []
  | e :: es => straightened e :: straightenedAll es

end

/-! ## Nodes in preorder -/

/-- The label of the node that stands for an expression. -/
def label (e : Expr) (id : Nat) : Nat × Kind × Nat × Nat :=
  (id, e.kind, e.span.start, e.span.length)

mutual

/-- An expression has as many nodes as there are expressions in it. -/
theorem length_preorder : (e : Expr) → e.preorder.length = e.size
  | .node kind span children => by
    rw [preorder, List.length_cons, length_preorderAll children, size]

/-- `(preorderAll es).length = sizeAll es`. -/
theorem length_preorderAll : (es : List Expr) → (preorderAll es).length = sizeAll es
  | [] => rfl
  | e :: es => by
    rw [preorderAll, List.length_append, length_preorder e, length_preorderAll es, sizeAll]

end

mutual

/-- **Nodes stand in preorder**, numbered by their places. -/
theorem map_label_nodesFrom (id : Nat) : (e : Expr) →
    (e.nodesFrom id).map ExprNode.label = (e.preorder.zipIdx id).map fun (e, id) => e.label id
  | .node kind span children => by
    rw [nodesFrom, List.map_cons, map_label_nodesAllFrom (id + 1) children, preorder,
      List.zipIdx_cons, List.map_cons]
    rfl

/-- The labels of laid out rows of trees are those of their expressions, numbered in this order. -/
theorem map_label_nodesAllFrom (id : Nat) : (es : List Expr) →
    (nodesAllFrom id es).map ExprNode.label =
      ((preorderAll es).zipIdx id).map fun (e, id) => e.label id
  | [] => rfl
  | e :: es => by
    rw [nodesAllFrom, List.map_append, map_label_nodesFrom id e,
      map_label_nodesAllFrom (id + e.size) es, preorderAll, List.zipIdx_append, List.map_append,
      length_preorder e, Nat.add_comm id]

end

mutual

/-- What holds of all expressions holds of all those in one. -/
theorem every_true : (e : Expr) → e.Every fun _ => True
  | .node _ _ children => .node trivial (every_true_all children)

/-- Every node of a row of trees is a node. -/
theorem every_true_all : (es : List Expr) → ∀ e ∈ es, e.Every fun _ => True
  | [] => by simp
  | e :: es => List.forall_mem_cons.mpr ⟨every_true e, every_true_all es⟩

end

/-- `e.size = sizeAll e.children + 1`. -/
theorem size_eq (e : Expr) : e.size = sizeAll e.children + 1 := by
  obtain ⟨kind, span, children⟩ := e
  rfl

/-- `0 < e.size`. -/
theorem size_pos (e : Expr) : 0 < e.size := by
  rw [size_eq]
  exact Nat.succ_pos _

/-- `sizeAll (es ++ more) = sizeAll es + sizeAll more`. -/
theorem sizeAll_append (es more : List Expr) : sizeAll (es ++ more) = sizeAll es + sizeAll more := by
  induction es with
  | nil => exact (Nat.zero_add _).symm
  | cons e es ih => rw [List.cons_append, sizeAll, sizeAll, ih, Nat.add_assoc]

/-- An expression sits at the start of its own nodes. -/
theorem sits_self (e : Expr) : Sits (e.nodesFrom 0) 0 e := ⟨[], [], by simp, rfl⟩

/-- The numbers of consecutive subtrees ascend. -/
theorem pairwise_childIds (first : Nat) (es : List Expr) :
    (childIds first es).Pairwise (· < ·) := by
  induction es generalizing first with
  | nil => exact .nil
  | cons e es ih =>
    refine List.pairwise_cons.mpr ⟨fun id hid => ?_, ih (first + e.size)⟩
    have hle := (bounds_of_mem_childIds hid).1
    have hpos := e.size_pos
    omega

end Expr

/-! ## The stack -/

/-- A node with more children. -/
def ExprNode.adopt (ids : List Nat) (node : ExprNode) : ExprNode :=
  { node with children := node.children ++ ids }

/-- An expression that is being laid out. -/
structure Lowering where
  /-- The nodes so far. -/
  nodes : Array ExprNode
  /-- The expressions that are still to come, the next one first, each with the number of its
  parent. -/
  pending : List (Expr × Option Nat)

namespace Lowering

/-- The start: all is to come. -/
def start (e : Expr) : Lowering := ⟨#[], [(e, none)]⟩

/-- Nodes in which a number is added to the children of its parent; `none` if the parent is not one of
them. -/
def adopt? (nodes : Array ExprNode) (id : Nat) : Option Nat → Option (Array ExprNode)
  | none => some nodes
  | some parent =>
    if parent < nodes.size then some (nodes.modify parent (ExprNode.adopt [id])) else none

/-- Lays out one expression after another, until none is left. -/
def run : Lowering → Option (Array ExprNode)
  | ⟨nodes, []⟩ => some nodes
  | ⟨nodes, (.node kind span children, parent) :: pending⟩ =>
    let id := nodes.size
    let nodes := nodes.push ⟨id, kind, span.start, span.length, [], none, none, none⟩
    match adopt? nodes id parent with
    | none => none
    | some nodes => run ⟨nodes, children.map (·, some id) ++ pending⟩
termination_by lowering => Expr.sizeAll (lowering.pending.map Prod.fst)
decreasing_by
  rw [List.map_append, List.map_map, List.map_cons, Expr.sizeAll_append, Expr.sizeAll, Expr.size]
  simp [Function.comp_def]

section Modify

variable {nodes : Array ExprNode} {node : ExprNode} {f g : ExprNode → ExprNode} {place : Nat}

/-- A change to one of the first nodes leaves those behind them as they are. -/
theorem modify_append (hplace : place < nodes.size) (more : Array ExprNode) :
    (nodes ++ more).modify place f = nodes.modify place f ++ more := by
  ext i
  · simp
  · grind

/-- Two changes of one place are the change by one and then the other. -/
theorem modify_modify :
    (nodes.modify place f).modify place g = nodes.modify place (g ∘ f) := by
  ext i
  · simp
  · grind

/-- A change to the last node. -/
theorem modify_push (hplace : place = nodes.size) :
    (nodes.push node).modify place f = nodes.push (f node) := by
  ext i
  · simp
  · grind

end Modify

/-- Nodes in which a number is added to the children of its parent. -/
def adopted (nodes : Array ExprNode) (id : Nat) : Option Nat → Array ExprNode
  | none => nodes
  | some parent => nodes.modify parent (ExprNode.adopt [id])

/-- Telling a parent of a child adds no node. -/
@[simp] theorem size_adopted (nodes : Array ExprNode) (id : Nat) (parent : Option Nat) :
    (adopted nodes id parent).size = nodes.size := by
  cases parent <;> simp [adopted]

/-- A parent that is there is told of its child the same whether a node has been pushed or not. -/
theorem adopt?_push {nodes : Array ExprNode} {parent : Option Nat} (node : ExprNode) (id : Nat)
    (hparent : ∀ place ∈ parent, place < nodes.size) :
    adopt? (nodes.push node) id parent = some ((adopted nodes id parent).push node) := by
  cases parent with
  | none => rfl
  | some parent =>
    have hlt : parent < nodes.size := hparent parent rfl
    rw [adopt?, if_pos (by rw [Array.size_push]; omega), adopted, Array.push_eq_append,
      modify_append hlt, ← Array.push_eq_append]

/-- The nodes once an expression has been laid out behind them. -/
def withExpr (nodes : Array ExprNode) (parent : Option Nat) (e : Expr) : Array ExprNode :=
  adopted nodes nodes.size parent ++ (e.nodesFrom nodes.size).toArray

/-- The nodes once consecutive children of a node have been laid out behind them. -/
def withChildren (nodes : Array ExprNode) (parent : Nat) (es : List Expr) : Array ExprNode :=
  nodes.modify parent (ExprNode.adopt (Expr.childIds nodes.size es)) ++
    (Expr.nodesAllFrom nodes.size es).toArray

/-- Writing an expression adds a node for each of its own. -/
theorem size_withExpr (nodes : Array ExprNode) (parent : Option Nat) (e : Expr) :
    (withExpr nodes parent e).size = nodes.size + e.size := by
  simp [withExpr, Expr.length_nodesFrom]

/-- No children change nothing. -/
theorem withChildren_nil (nodes : Array ExprNode) (parent : Nat) :
    withChildren nodes parent [] = nodes := by
  have hsame : ExprNode.adopt [] = id := by
    funext node
    rw [ExprNode.adopt, List.append_nil]
    rfl
  ext i
  · simp [withChildren, Expr.nodesAllFrom]
  · simp [withChildren, Expr.nodesAllFrom, Expr.childIds, hsame, Array.getElem_modify]

/-- The first child comes before the others. -/
theorem withChildren_cons {nodes : Array ExprNode} {parent : Nat} (hparent : parent < nodes.size)
    (e : Expr) (es : List Expr) :
    withChildren nodes parent (e :: es) = withChildren (withExpr nodes (some parent) e) parent es := by
  have hadopt : ExprNode.adopt (Expr.childIds (nodes.size + e.size) es) ∘ ExprNode.adopt [nodes.size] =
      ExprNode.adopt (Expr.childIds nodes.size (e :: es)) := by
    funext node
    rw [Function.comp_apply, ExprNode.adopt, ExprNode.adopt, ExprNode.adopt, List.append_assoc]
    rfl
  rw [withChildren, withChildren, size_withExpr, withExpr, modify_append (by simpa using hparent),
    adopted, modify_modify, hadopt, Expr.nodesAllFrom, Array.append_assoc,
    List.append_toArray (e.nodesFrom nodes.size)]

/-- The children of a node come right behind it. -/
theorem withChildren_push (nodes : Array ExprNode) (parent : Option Nat) (kind : Kind) (span : Span)
    (es : List Expr) :
    withChildren ((adopted nodes nodes.size parent).push
      ⟨nodes.size, kind, span.start, span.length, [], none, none, none⟩) nodes.size es =
      withExpr nodes parent (.node kind span es) := by
  have hsize := size_adopted nodes nodes.size parent
  rw [withChildren, Array.size_push, hsize, modify_push hsize.symm, withExpr, Expr.nodesFrom,
    Array.push_eq_append, Array.append_assoc]
  simp [ExprNode.adopt]

mutual

/-- **An expression on the stack becomes its nodes**, whatever is below it. -/
theorem run_expr (nodes : Array ExprNode) (parent : Option Nat) (pending : List (Expr × Option Nat))
    (hparent : ∀ place ∈ parent, place < nodes.size) : (e : Expr) →
    run ⟨nodes, (e, parent) :: pending⟩ = run ⟨withExpr nodes parent e, pending⟩
  | .node kind span children => by
    rw [run]
    simp only [adopt?_push _ _ hparent]
    rw [run_children _ nodes.size pending (by simp) children, withChildren_push]

/-- Children on the stack become their nodes, and their numbers the children of their parent. -/
theorem run_children (nodes : Array ExprNode) (parent : Nat) (pending : List (Expr × Option Nat))
    (hparent : parent < nodes.size) : (es : List Expr) →
    run ⟨nodes, es.map (·, some parent) ++ pending⟩ = run ⟨withChildren nodes parent es, pending⟩
  | [] => by rw [withChildren_nil, List.map_nil, List.nil_append]
  | e :: es => by
    have hlater : parent < (withExpr nodes (some parent) e).size := by
      rw [size_withExpr]
      omega
    rw [List.map_cons, List.cons_append, run_expr nodes (some parent) _ (by simpa using hparent) e,
      run_children _ parent pending hlater es, withChildren_cons hparent]

end

/-- **The stack gives the nodes in preorder.** -/
theorem run_start (e : Expr) : (start e).run = some (e.nodesFrom 0).toArray := by
  rw [start, run_expr #[] none [] (by simp) e, run]
  simp [withExpr, adopted]

end Lowering

/-! ## Reading back -/

namespace ExprTree

open ProjectLens.Expr

/-- The expression that stands at a node, read through the lists of children. Children come after their
parent, so this ends. -/
def exprFrom? (tree : ExprTree) (id : Nat) : Option Expr := do
  let node ← tree.get? id
  let children ← node.children.mapM fun child =>
    if id < child ∧ child < tree.size then exprFrom? tree child else none
  return .node node.kind node.span children
termination_by tree.size - id

variable {expr : Expr}

/-- An expression that sits at a number in the layout is found there as its node. -/
theorem get?_of_sits {id : Nat} {e : Expr} (h : Sits (expr.nodesFrom 0) id e) :
    (ofExpr expr).get? id = some (rootNode id e) := by
  rw [get?, ofExpr, List.getElem?_toArray]
  exact h.getElem?

/-- An expression that sits at a number sits within the layout. -/
theorem lt_size_of_sits {id : Nat} {e : Expr} (h : Sits (expr.nodesFrom 0) id e) :
    id < (ofExpr expr).size :=
  (Array.getElem?_eq_some_iff.mp (get?_of_sits h)).1

mutual

/-- **Reading back from a node gives the expression it stands for.** -/
theorem exprFrom?_of_sits (id : Nat) : (e : Expr) → Sits (expr.nodesFrom 0) id e →
    (ofExpr expr).exprFrom? id = some e.straightened
  | .node kind span children, h => by
    have hchildren := mapM_exprFrom?_of_sitAll id (id + 1) (Nat.lt_succ_self id) children h.children
    rw [exprFrom?, get?_of_sits h, Option.bind_eq_bind, Option.bind_some]
    show ((childIds (id + 1) children).mapM _ >>= _) = _
    rw [hchildren]
    rfl

/-- A row of expressions that sits at its numbers is read back from there, straightened. -/
theorem mapM_exprFrom?_of_sitAll (id first : Nat) (hlt : id < first) : (es : List Expr) →
    SitAll (expr.nodesFrom 0) first es →
    ((childIds first es).mapM fun child =>
      if id < child ∧ child < (ofExpr expr).size then (ofExpr expr).exprFrom? child else none) =
      some (straightenedAll es)
  | [], _ => rfl
  | e :: es, h => by
    obtain ⟨hfirst, hrest⟩ := h.cons
    rw [childIds, List.mapM_cons, if_pos ⟨hlt, lt_size_of_sits hfirst⟩, exprFrom?_of_sits first e hfirst,
      mapM_exprFrom?_of_sitAll id (first + e.size) (by omega) es hrest]
    rfl

end

/-! ## The tree of an expression -/

/-- **A tree holds an expression**, its nodes being laid out in preorder. -/
structure Lowers (tree : ExprTree) (e : Expr) : Prop where
  /-- There are as many nodes as expressions. -/
  size_eq : tree.size = e.preorder.length
  /-- The nodes are those of the expressions in preorder, each numbered by its place. -/
  label_eq : ∀ id, (tree.get? id).map ExprNode.label = e.preorder[id]?.map (·.label id)
  /-- Children are nodes, with greater numbers than their parent. -/
  later : ∀ node ∈ tree.nodes, ∀ child ∈ node.children, node.id < child ∧ child < tree.size
  /-- The numbers of children ascend. -/
  ascending : ∀ node ∈ tree.nodes, node.children.Pairwise (· < ·)
  /-- Any number but that of the root is a child of one node. -/
  parent : ∀ id, 0 < id → id < tree.size → ∃! node, node ∈ tree.nodes ∧ id ∈ node.children
  /-- Going down from the root through the lists of children gives the expression back. -/
  exprFrom?_zero : tree.exprFrom? 0 = some e.straightened
  /-- The nodes are those that come off the stack. -/
  run_start : (Lowering.start e).run = some tree.nodes

/-- Every node stands for an expression. -/
theorem exists_sits {node : ExprNode} (h : node ∈ (ofExpr expr).nodes) :
    ∃ id e, Sits (expr.nodesFrom 0) id e ∧ node = rootNode id e := by
  have hmem : node ∈ expr.nodesFrom 0 := by simpa [ofExpr] using h
  obtain ⟨id, e, hsits, -, rfl⟩ := expr.sits_self.every expr.every_true node hmem
  exact ⟨id, e, hsits, rfl⟩

/-- The nodes below a node are among those of the tree. -/
theorem add_size_le_of_sits {id : Nat} {e : Expr} (h : Sits (expr.nodesFrom 0) id e) :
    id + e.size ≤ (ofExpr expr).size := by
  obtain ⟨before, after, hnodes, rfl⟩ := h
  rw [size, ofExpr, hnodes, List.size_toArray, List.length_append, List.length_append,
    length_nodesFrom]
  omega

/-- Children are nodes, with greater numbers than their parent. -/
theorem bounds_of_mem_children {node : ExprNode} {child : Nat} (hnode : node ∈ (ofExpr expr).nodes)
    (hchild : child ∈ node.children) : node.id < child ∧ child < (ofExpr expr).size := by
  obtain ⟨id, e, hsits, rfl⟩ := exists_sits hnode
  obtain ⟨hlow, hhigh⟩ := bounds_of_mem_childIds hchild
  have hsize := add_size_le_of_sits hsits
  rw [e.size_eq] at hsize
  simp only [rootNode] at hhigh ⊢
  omega

/-- Any number but that of the root is a child of one node. -/
theorem existsUnique_parent {id : Nat} (hpos : 0 < id) (hlt : id < (ofExpr expr).size) :
    ∃! node, node ∈ (ofExpr expr).nodes ∧ id ∈ node.children := by
  have hids : ((ofExpr expr).nodes.toList.flatMap ExprNode.children).Nodup := by
    rw [← map_id_allLinks]
    exact (nodup_allLinks expr).of_cons
  have hmem : id ∈ (ofExpr expr).nodes.toList.flatMap ExprNode.children := by
    rw [← map_id_allLinks]
    exact List.mem_of_ne_of_mem (Nat.ne_of_gt hpos) ((mem_allLinks_iff expr).mpr hlt)
  obtain ⟨node, hnode, hchild⟩ := List.mem_flatMap.mp hmem
  refine ⟨node, ⟨Array.mem_def.mpr hnode, hchild⟩, ?_⟩
  rintro other ⟨hother, hchild'⟩
  -- two nodes that share a child are one node
  by_contra hne
  have hsymm : Std.Symm (Function.onFun List.Disjoint ExprNode.children) :=
    ⟨fun _ _ h _ ha hb => h hb ha⟩
  have hapart := (List.nodup_flatMap.mp hids).2.forall hother.val hnode hne
  exact hapart hchild' hchild

/-- **The tree of an expression holds it**, whatever its kinds, spans and shape. -/
theorem lowers_ofExpr (e : Expr) : (ofExpr e).Lowers e := by
  refine ⟨?_, ?_, fun _ hnode _ => bounds_of_mem_children hnode, ?_, ?_, ?_, Lowering.run_start e⟩
  · rw [length_preorder, size, ofExpr, List.size_toArray, length_nodesFrom]
  · intro id
    have hlabels := congrArg (·[id]?) (map_label_nodesFrom 0 e)
    simp only [List.getElem?_map, List.getElem?_zipIdx, Option.map_map, Nat.zero_add] at hlabels
    rw [get?, ofExpr, List.getElem?_toArray, hlabels]
    rfl
  · intro node hnode
    obtain ⟨id, e', -, rfl⟩ := exists_sits hnode
    exact pairwise_childIds (id + 1) e'.children
  · intro id hpos hlt
    exact existsUnique_parent hpos hlt
  · exact exprFrom?_of_sits 0 e e.sits_self

end ExprTree

end ProjectLens
