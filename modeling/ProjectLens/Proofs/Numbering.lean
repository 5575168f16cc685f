import ProjectLens.Proofs.Rows

/-! # How the nodes of a model refer to the nodes around them

The node around another one has a smaller number, so going from node to parent ends.

* `Model.exists_row`: every node is the first one of a row;
* `Model.Numbered`: what the nodes of every model know of themselves and of the nodes around them;
* `Model.ancestors`, `Model.depth`: the nodes around a node, and how many there are. -/

namespace ProjectLens

namespace Model

open Draft

variable {index : Index} {document : Markup.Document} {model : Model} {i j k : Nat} {n : Node}
  {parent previous : Option Nat}

/-! ## Nodes and drafts -/

/-- A node is found by its place in the order of discovery. -/
theorem get?_ofDocument (document : Markup.Document) (index : Index) (i : Nat) :
    (ofDocument document index).get? i =
      (nodesAllFrom index 0 none none (Draft.ofDocument document index))[i]? := by
  rw [get?, ofDocument, List.getElem?_toArray]

/-- The nodes of a model are numbered in order. -/
theorem map_id_nodes (document : Markup.Document) (index : Index) :
    (ofDocument document index).nodes.toList.map Node.id =
      List.range' 0 (sizeAll (Draft.ofDocument document index)) :=
  map_id_nodesAllFrom 0 none none _

/-- A node knows its number. -/
theorem id_eq_of_get (hn : (ofDocument document index).get? i = some n) : n.id = i := by
  rw [get?, ← Array.getElem?_toList] at hn
  have hid := congrArg (fun numbers => numbers[i]?) (map_id_nodes document index)
  simp only [List.getElem?_map, hn, Option.map_some] at hid
  obtain ⟨hlt, heq⟩ := List.getElem?_eq_some_iff.mp hid.symm
  rw [← heq, List.getElem_range', Nat.one_mul, Nat.zero_add]

/-- The first node of a row. -/
theorem get?_of_row {id : Nat} {draft : Draft} {drafts : List Draft}
    (row : Row (Draft.ofDocument document index) id parent previous (draft :: drafts)) :
    (ofDocument document index).get? id =
      some (ownNode index id parent previous (Draft.ids (id + draft.size) drafts).head? draft) := by
  rw [get?_ofDocument]
  exact row.getElem?_eq

/-- **Every node is the first one of a row.** -/
theorem exists_row (hn : (ofDocument document index).get? i = some n) :
    ∃ parent previous draft drafts,
      Row (Draft.ofDocument document index) i parent previous (draft :: drafts) ∧
        n = ownNode index i parent previous (Draft.ids (i + draft.size) drafts).head? draft := by
  have hid := id_eq_of_get hn
  rw [get?_ofDocument] at hn
  obtain ⟨id, parent, previous, draft, drafts, row, rfl⟩ :=
    exists_row_of_mem_nodesAllFrom 0 none none _ .outermost (List.mem_of_getElem? hn)
  -- the node is found by the number it knows, so its row starts there
  cases draft
  obtain rfl : id = i := hid
  exact ⟨parent, previous, _, drafts, row, rfl⟩

/-- **The nodes of a model know their numbers**, which grow from a node to those in it, and their
places. -/
structure Numbered (index : Index) (model : Model) : Prop where
  /-- A node knows its number. -/
  id_eq : ∀ {i : Nat} {n : Node}, model.get? i = some n → n.id = i
  /-- The node around a node has a smaller number. -/
  parent_lt : ∀ {i p : Nat} {n : Node}, model.get? i = some n → n.parent = some p → p < i
  /-- The range of a node is that of its span. -/
  range_eq : ∀ {i : Nat} {n : Node}, model.get? i = some n → n.range = index.spanToRange n.span

/-- **Every model is numbered.** -/
theorem numbered_ofDocument (document : Markup.Document) (index : Index) :
    (ofDocument document index).Numbered index := by
  constructor
  case id_eq => exact id_eq_of_get
  case parent_lt =>
    intro i p n hn hp
    obtain ⟨parent, previous, draft, drafts, row, rfl⟩ := exists_row hn
    cases draft
    exact row.parent_lt p hp
  case range_eq =>
    intro i n hn
    obtain ⟨parent, previous, draft, drafts, row, rfl⟩ := exists_row hn
    cases draft
    rfl

/-! ## The nodes around a node -/

/-- The nodes around a node, from the innermost one on. A node comes after the one around it, so this
ends. -/
def ancestors (model : Model) (id : Nat) : List Nat :=
  match (model.get? id).bind Node.parent with
  | none => []
  | some parent => if parent < id then parent :: model.ancestors parent else []
termination_by id

/-- Number of nodes around a node. -/
def depth (model : Model) (id : Nat) : Nat := (model.ancestors id).length

/-- What stands around a node stands around the nodes in it, after the ones between. -/
theorem ancestors_suffix (hj : j ∈ model.ancestors i) :
    j :: model.ancestors j <:+ model.ancestors i := by
  induction i using Nat.strongRecOn with
  | _ i ih =>
    unfold ancestors at hj
    rw [ancestors.eq_def model i]
    split at hj
    · cases hj
    · split at hj
      · next parent _ hlt =>
        rw [if_pos hlt]
        rcases List.mem_cons.mp hj with rfl | hj
        · exact List.suffix_refl _
        · exact (ih parent hlt hj).trans (List.suffix_cons _ _)
      · cases hj

/-- `k ∈ model.ancestors j → j ∈ model.ancestors i → k ∈ model.ancestors i`. -/
theorem ancestors_trans (hk : k ∈ model.ancestors j) (hj : j ∈ model.ancestors i) :
    k ∈ model.ancestors i :=
  (ancestors_suffix hj).subset (List.mem_cons_of_mem _ hk)

/-- **A node is deeper than those around it.** -/
theorem depth_lt (hj : j ∈ model.ancestors i) : model.depth j < model.depth i :=
  (ancestors_suffix hj).length_le

namespace Numbered

variable (h : model.Numbered index)
include h

/-- Around a node stand the one it belongs to and all those around that one. -/
theorem ancestors_eq (hn : model.get? i = some n) : model.ancestors i =
    match n.parent with
    | none => []
    | some parent => parent :: model.ancestors parent := by
  rw [ancestors, hn, Option.bind_some]
  cases hparent : n.parent with
  | none => rfl
  | some parent => exact if_pos (h.parent_lt hn hparent)

/-- The node a node belongs to is around it. -/
theorem mem_ancestors_of_parent (hn : model.get? i = some n) (hparent : n.parent = some j) :
    j ∈ model.ancestors i := by
  rw [h.ancestors_eq hn, hparent]
  exact List.mem_cons_self

end Numbered

end Model

end ProjectLens
