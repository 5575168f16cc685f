import Mathlib.Data.List.Nodup
import ProjectLens.Outline.Model
import ProjectLens.Proofs.Growing
import ProjectLens.Proofs.Numbering
import ProjectLens.Proofs.OutlineLines
import ProjectLens.Snapshot

/-! # Outlines of models

The nodes of a model are numbered in preorder, with the attributes of an element before its content, and
so are they drawn. So the outlines of a model hold its nodes in the order of their numbers.

* `Model.consecutive_of_row`: the nodes of a row and those in them stand one after the other;
* `Model.items_outlines`: the outlines of a model hold each of its nodes once;
* `Outline.draws_recoverably`: what drawings look like, that the outline can be told from them, and that
  every node of a model has one line. -/

namespace ProjectLens

namespace Model

open Draft

variable {document : Markup.Document} {index : Index}

/-- **The nodes of a row and all nodes in them** stand one after the other. -/
theorem consecutive_of_row {id : Nat} {parent previous : Option Nat} : (drafts : List Draft) →
    Row (Draft.ofDocument document index) id parent previous drafts →
      Outline.Consecutive (ofDocument document index).get? below id (Draft.ids id drafts)
        (id + sizeAll drafts)
  | [], _ => .nil
  | .node part span path attributes content :: drafts, row => by
    have hattributes := consecutive_of_row attributes row.attributes
    have hcontent := consecutive_of_row content row.content
    have hrest := consecutive_of_row drafts row.tail
    have hsize : id + Draft.size (.node part span path attributes content) =
        id + 1 + sizeAll attributes + sizeAll content := by
      rw [Draft.size]
      omega
    rw [sizeAll, ← Nat.add_assoc]
    refine .cons (get?_of_row row) ?_ hrest
    rw [hsize]
    exact hattributes.append hcontent

/-- The model has as many nodes as its drafts. -/
theorem size_ofDocument (document : Markup.Document) (index : Index) :
    (ofDocument document index).size = sizeAll (Draft.ofDocument document index) := by
  have hlength := congrArg List.length (map_id_nodes document index)
  rwa [List.length_map, Array.length_toList, List.length_range'] at hlength

/-- The outermost elements of a model and all nodes in them stand one after the other. -/
theorem consecutive_roots (document : Markup.Document) (index : Index) :
    Outline.Consecutive (ofDocument document index).get? below 0 (ofDocument document index).roots
      (ofDocument document index).size := by
  have h := consecutive_of_row _ (@Row.outermost (Draft.ofDocument document index))
  rwa [Nat.zero_add, ← size_ofDocument] at h

/-- **The outlines of a model hold its nodes**, each of them once and in order. -/
theorem items_outlines (document : Markup.Document) (index : Index) :
    Outline.itemsAll (ofDocument document index).outlines =
      (ofDocument document index).nodes.toList :=
  (consecutive_roots document index).items_grow_array

/-- The outlines of a model are those of its outermost elements. -/
theorem root_outlines (document : Markup.Document) (index : Index) :
    (ofDocument document index).outlines.map (fun outline => some outline.root) =
      (ofDocument document index).roots.map (ofDocument document index).get? :=
  (consecutive_roots document index).root_grow (Nat.le_refl _)

/-- The outlines of a model are what its nodes unfold to. -/
theorem unfolds_outlines (document : Markup.Document) (index : Index) :
    ∀ outline ∈ (ofDocument document index).outlines,
      outline.Unfolds (ofDocument document index).get? below :=
  (consecutive_roots document index).unfolds_grow (Nat.le_refl _)

/-- No node of a model is listed twice, for each of them has a number of its own. -/
theorem nodup_nodes (document : Markup.Document) (index : Index) :
    (ofDocument document index).nodes.toList.Nodup := by
  refine List.Nodup.of_map Node.id ?_
  rw [map_id_nodes]
  exact List.nodup_range'

end Model

namespace Outline

/-- **A drawing is the lines of the nodes in preorder, and the outline can be told from it.** Of any two
outlines that are drawn the same, without line breaks in their items, one has the same items in the same
places as the other. And the outlines of a model are drawn as one line for each of its nodes. -/
theorem draws_recoverably {α β : Type} (render : α → String) (outline : Outline α)
    (render' : β → String) (other : Outline β) (text : String) (showRanges : Bool) :
    (outline.draw render = String.join (outline.paths.map (outline.row render)) ∧
      outline.paths.Pairwise (· < ·) ∧
      ∀ path, path ∈ outline.paths ↔ (outline.at? path).isSome = true) ∧
    ((∀ item ∈ outline.items, '\n' ∉ (render item).toList) →
      (∀ item ∈ other.items, '\n' ∉ (render' item).toList) →
      outline.draw render = other.draw render' → outline.map render = other.map render') ∧
    let model := (Snapshot.ofText text).model
    model.outline showRanges = String.join (List.zipWith (fun rule node =>
        rule ++ node.outlineLine showRanges ++ "\n") (rulesAll model.outlines) model.nodes.toList) ∧
      (rulesAll model.outlines).length = model.size ∧
      itemsAll model.outlines = model.nodes.toList ∧ model.nodes.toList.Nodup ∧
      model.outlines.map (fun drawn => some drawn.root) = model.roots.map model.get? ∧
      ∀ drawn ∈ model.outlines, drawn.Unfolds model.get? Model.below := by
  refine ⟨⟨draw_eq_rows render outline, pairwise_paths outline, fun path => mem_paths⟩,
    map_eq_of_draw_eq, ?_⟩
  intro model
  have hitems : itemsAll model.outlines = model.nodes.toList := Model.items_outlines _ _
  refine ⟨?_, ?_, hitems, Model.nodup_nodes _ _, Model.root_outlines _ _, Model.unfolds_outlines _ _⟩
  · rw [Model.outline, join_draw, hitems]
  · rw [length_rulesAll, hitems, Array.length_toList]
    rfl

/-- Four items on three levels: the line of the innermost one has a rule for the one above it, which
has another one to come beside it. -/
theorem draws_recoverably_numbers :
    let tree := node 1 [node 2 [node 3 []], node 4 []]
    let other := node "1" [node "2" [node "3" []], node "4" []]
    tree.draw toString = "1\n├─ 2\n│ └─ 3\n└─ 4\n" ∧
      tree.draw toString = String.join (tree.paths.map (tree.row toString)) ∧
      tree.map toString = other.map id := by
  intro tree other
  have drawn : tree.draw toString = "1\n├─ 2\n│ └─ 3\n└─ 4\n" := by
    rw [draw_eq_drawing]
    rfl
  have drawn' : other.draw id = "1\n├─ 2\n│ └─ 3\n└─ 4\n" := by
    rw [draw_eq_drawing]
    rfl
  obtain ⟨⟨rows, -⟩, recovered, -⟩ := draws_recoverably toString tree id other "" false
  exact ⟨drawn, rows, recovered (by decide) (by decide) (drawn.trans drawn'.symm)⟩

end Outline

end ProjectLens
