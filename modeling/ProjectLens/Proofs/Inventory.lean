import ProjectLens.Proofs.Lookup
import ProjectLens.Proofs.Neighbours
import ProjectLens.Proofs.Origins

/-! # Nothing is lost in a model

Every element of a document has a node, with nodes for its attributes right after it. Nodes start later
the later they are discovered, and so do the elements of a document, so elements and attributes are
discovered in the order in which they are written.

* `Markup.Element.markup`, `Model.markup`: elements and attributes, as written and as discovered;
* `Markup.Linked.exists_row`: every element is found among the drafts;
* `Markup.Kept.markup_eq`: both orders are the same;
* `Model.Complete`, `Snapshot.complete_ofText`: what holds of the nodes of every text. -/

namespace ProjectLens

variable {index : Index}

/-! ## Elements and attributes -/

/-- What the nodes of an element and of its attributes are, in the order in which they are written. -/
def Markup.Element.markup (index : Index) (e : Element) : List (Part × Span) :=
  (.element (elementPart index e), (shapeOf index e).2) ::
    e.attributes.map fun a => (.attribute (attributePart index a), a.span)

/-- The elements and attributes among the nodes of a model, in the order of discovery. -/
def Model.markup (model : Model) : List (Part × Span) :=
  (model.nodes.toList.filter fun n => n.part.text?.isNone).map Node.mark

namespace Markup

open Draft

variable {document : Document} {e e' : Element} {i j k id : Nat} {parent previous : Option Nat}
  {path : Path} {drafts : List Draft}

/-- **Every element is found among the drafts.** -/
theorem Linked.exists_row (index : Index) (h : Linked document.elements document.roots)
    (he : document.get? i = some e) : ∃ id parent previous path drafts,
      Row (ofDocument document index) id parent previous
        (ofElement document index path e :: drafts) := by
  -- an element is found in the one around it, which comes earlier
  induction i using Nat.strongRecOn generalizing e with
  | _ i ih =>
    have hi : i < document.elements.size := lt_size_of_getElem? he
    have hparentOf : parentOf document.elements i = e.parent := by
      rw [parentOf, ← Document.get?, he]
      rfl
    cases hparent : e.parent with
    | none =>
      have hroot : i ∈ document.roots := by
        rw [h.roots_eq, mem_childrenOf, hparentOf]
        exact ⟨hi, hparent⟩
      have hmem : ofElement document index Path.root e ∈ ofDocument document index :=
        List.mem_map_of_mem (List.mem_filterMap.mpr ⟨i, hroot, he⟩)
      obtain ⟨id, previous, drafts, row⟩ := Row.outermost.exists_of_mem hmem
      exact ⟨id, none, previous, Path.root, drafts, row⟩
    | some p =>
      have hlt := h.parent_lt he hparent
      have hget : document.get? p = some document.elements[p] := Array.getElem?_eq_getElem _
      obtain ⟨id, parent, previous, path, drafts, row⟩ := ih p hlt hget
      have hchild : .element i ∈ document.elements[p].content := by
        rw [← mem_childElements, h.children_eq hget, mem_childrenOf, hparentOf]
        exact ⟨hi, hparent⟩
      have hown : ofElement document index (path.join (segmentOf document.elements[p])) e ∈
          Content.drafts document index document.elements[p]
            (path.join (segmentOf document.elements[p])) (shapeOf index document.elements[p]).2
            (.element i) := by
        have hlater : document.elements[p].id < e.id ∧ e.id < document.elements.size := by
          rw [h.id_eq hget, h.id_eq he]
          exact ⟨hlt, hi⟩
        rw [Content.drafts, he]
        simp only [if_pos hlater, List.mem_singleton]
      rw [ofElement_eq] at row
      obtain ⟨id', previous', drafts', row'⟩ :=
        row.content.exists_of_mem (List.mem_flatMap.mpr ⟨_, hchild, hown⟩)
      exact ⟨id', _, previous', _, drafts', row'⟩

/-- **The nodes of an element and of its attributes have consecutive numbers.** -/
theorem exists_node_of_row {x : Part × Span}
    (row : Row (ofDocument document index) id parent previous
      (ofElement document index path e :: drafts)) (hx : (e.markup index)[k]? = some x) :
    ∃ n, (Model.ofDocument document index).get? (id + k) = some n ∧ n.mark = x := by
  cases k with
  | zero =>
    cases hx
    refine ⟨_, Model.get?_of_row row, ?_⟩
    rw [mark_ownNode, ofElement_eq]
    rfl
  | succ k =>
    rw [Element.markup, List.getElem?_cons_succ, List.getElem?_map, Option.map_eq_some_iff] at hx
    obtain ⟨a, ha, rfl⟩ := hx
    rw [ofElement_eq] at row
    obtain ⟨previous', drafts', leaf⟩ := row.attributes.exists_of_leaves (fun a => rfl) ha
    rw [Nat.add_assoc, Nat.add_comm 1 k] at leaf
    exact ⟨_, Model.get?_of_row leaf, rfl⟩

/-! ## Order -/

/-- What comes earlier. -/
def StartsBefore (x y : Part × Span) : Prop := x.2.start < y.2.start

/-- Nodes start later the later they are discovered. -/
theorem Kept.startsBefore (h : Kept index document.elements document.roots [] index.length)
    {n m : Node} (hn : (Model.ofDocument document index).get? i = some n)
    (hm : (Model.ofDocument document index).get? j = some m) (hlt : i < j) :
    StartsBefore n.mark m.mark :=
  ((Model.nested_ofDocument h).before_of_lt hn hm hlt).1

/-- An element and its attributes are written in the order of their numbers. -/
theorem Kept.pairwise_markup (h : Kept index document.elements document.roots [] index.length)
    (he : document.get? i = some e) : (e.markup index).Pairwise StartsBefore := by
  obtain ⟨id, parent, previous, path, drafts, row⟩ := h.linked.exists_row index he
  rw [List.pairwise_iff_getElem]
  intro k l hk hl hlt
  obtain ⟨n, hn, heq⟩ := exists_node_of_row row (List.getElem?_eq_getElem hk)
  obtain ⟨m, hm, heq'⟩ := exists_node_of_row row (List.getElem?_eq_getElem hl)
  rw [← heq, ← heq']
  exact h.startsBefore hn hm (by omega)

/-- **All of an element's start tag comes before a later element.** -/
theorem Kept.startsBefore_markup (h : Kept index document.elements document.roots [] index.length)
    (he : document.get? i = some e) (he' : document.get? j = some e') (hlt : i < j) :
    ∀ x ∈ e.markup index, ∀ y ∈ e'.markup index, StartsBefore x y := by
  obtain ⟨id, parent, previous, path, drafts, row⟩ := h.linked.exists_row index he
  obtain ⟨id', parent', previous', path', drafts', row'⟩ := h.linked.exists_row index he'
  obtain ⟨n, hn, hnode⟩ := exists_node_of_row (k := 0) row rfl
  obtain ⟨m, hm, hnode'⟩ := exists_node_of_row (k := 0) row' rfl
  have hstart : StartsBefore n.mark m.mark := by
    rw [hnode, hnode', StartsBefore, (h.written he).span_shapeOf.1, (h.written he').span_shapeOf.1]
    exact h.linked.start_lt he he' hlt
  have hlater : id < id' := by
    rcases Nat.lt_trichotomy id id' with hid | rfl | hid
    · exact hid
    · cases hn.symm.trans hm
      exact absurd hstart (Nat.lt_irrefl _)
    · exact absurd hstart (Nat.lt_asymm (h.startsBefore hm hn hid))
  -- between them there is room for the attributes of the earlier one
  have hroom : id + (e.markup index).length ≤ id' := by
    refine Nat.le_of_not_lt fun hclash => ?_
    obtain ⟨k, rfl⟩ := Nat.exists_eq_add_of_lt hlater
    have hk : k < e.attributes.length := by
      rw [Element.markup, List.length_cons, List.length_map] at hclash
      omega
    obtain ⟨m', hm', hmark⟩ := exists_node_of_row (k := k + 1) row
      (x := (.attribute (attributePart index e.attributes[k]), e.attributes[k].span))
      (by simp [Element.markup, hk])
    cases hm.symm.trans hm'
    cases congrArg Prod.fst (hnode'.symm.trans hmark)
  intro x hx y hy
  obtain ⟨k, hk⟩ := List.mem_iff_getElem?.mp hx
  obtain ⟨l, hl⟩ := List.mem_iff_getElem?.mp hy
  obtain ⟨a, ha, rfl⟩ := exists_node_of_row row hk
  obtain ⟨b, hb, rfl⟩ := exists_node_of_row row' hl
  obtain ⟨hk, -⟩ := List.getElem?_eq_some_iff.mp hk
  exact h.startsBefore ha hb (by omega)

/-- An element or attribute among the nodes is one of the document. -/
theorem exists_element_of_stemsFrom {part : Part} {span : Span}
    (h : StemsFrom document index part span) (hmarkup : part.text?.isNone = true) :
    ∃ i e, document.get? i = some e ∧ (part, span) ∈ e.markup index := by
  cases h with
  | ofElement he => exact ⟨_, _, he, List.mem_cons_self⟩
  | ofAttribute a he ha =>
    exact ⟨_, _, he, List.mem_cons_of_mem _ (List.mem_map.mpr ⟨a, ha, rfl⟩)⟩
  | ofText start run => cases hmarkup
  | ofWhitespace start run => cases hmarkup

/-- What an element is written with is an element or an attribute. -/
theorem text?_of_mem_markup {x : Part × Span} (hx : x ∈ e.markup index) :
    x.1.text?.isNone = true := by
  rcases List.mem_cons.mp hx with rfl | hx
  · rfl
  · obtain ⟨a, -, rfl⟩ := List.mem_map.mp hx
    rfl

/-- **Elements and attributes are discovered in the order in which they are written.** -/
theorem Kept.markup_eq (h : Kept index document.elements document.roots [] index.length) :
    (Model.ofDocument document index).markup =
      document.elements.toList.flatMap (Element.markup index) := by
  have hget {e : Element} : e ∈ document.elements.toList ↔ ∃ i, document.get? i = some e := by
    simp only [List.mem_iff_getElem?, Array.getElem?_toList, Document.get?]
  have discovered : (Model.ofDocument document index).markup.Pairwise StartsBefore := by
    rw [Model.markup, List.pairwise_map]
    exact ((Model.nested_ofDocument h).before.filter _).imp fun hbefore => hbefore.1
  have written : (document.elements.toList.flatMap (Element.markup index)).Pairwise StartsBefore := by
    rw [List.pairwise_flatMap]
    constructor
    · intro e he
      obtain ⟨i, hi⟩ := hget.mp he
      exact h.pairwise_markup hi
    · rw [List.pairwise_iff_getElem]
      intro i j hi hj hlt
      exact h.startsBefore_markup (Array.getElem?_eq_getElem hi) (Array.getElem?_eq_getElem hj) hlt
  have nodup {l : List (Part × Span)} (hl : l.Pairwise StartsBefore) : l.Nodup := by
    refine List.Pairwise.imp ?_ hl
    rintro x y hlt rfl
    exact Nat.lt_irrefl _ hlt
  -- both lists stand in the order in which things start, so they need only have the same members
  refine List.Perm.eq_of_pairwise (fun x y _ _ hxy hyx => absurd hxy (Nat.lt_asymm hyx)) discovered
    written ((List.perm_ext_iff_of_nodup (nodup discovered) (nodup written)).mpr fun x => ?_)
  rw [List.mem_flatMap, Model.markup, List.mem_map]
  constructor
  · rintro ⟨n, hn, rfl⟩
    obtain ⟨hmem, hmarkup⟩ := List.mem_filter.mp hn
    obtain ⟨i, e, he, hx⟩ := exists_element_of_stemsFrom (Model.stemsFrom_ofDocument hmem) hmarkup
    exact ⟨e, hget.mpr ⟨i, he⟩, hx⟩
  · rintro ⟨e, he, hx⟩
    obtain ⟨i, hi⟩ := hget.mp he
    obtain ⟨id, parent, previous, path, drafts, row⟩ := h.linked.exists_row index hi
    obtain ⟨k, hk⟩ := List.mem_iff_getElem?.mp hx
    obtain ⟨n, hn, rfl⟩ := exists_node_of_row row hk
    rw [Model.get?_eq] at hn
    exact ⟨n, List.mem_filter.mpr ⟨List.mem_of_getElem? hn, text?_of_mem_markup hx⟩, rfl⟩

end Markup

/-! ## Models -/

namespace Model

/-- **A model is complete**: it has the elements and attributes of its document, each once and in the
order in which they are written, lists all its nodes, and sorts them by range. -/
structure Complete (document : Markup.Document) (index : Index) (model : Model) : Prop
    extends model.Listing where
  /-- Elements and attributes. -/
  markup_eq : model.markup = document.elements.toList.flatMap (Markup.Element.markup index)
  /-- Every node is among the sorted ones, once. -/
  sorted_perm : model.sorted.Perm model.nodes.toList
  /-- Sorted nodes stand by start, then by end, then by number. -/
  sorted_order : model.sorted.Pairwise fun a b => a.range.start < b.range.start ∨
    (a.range.start = b.range.start ∧ (a.range.stop < b.range.stop ∨
      (a.range.stop = b.range.stop ∧ a.id < b.id)))

/-- The nodes of a model are numbered in order. -/
theorem pairwise_id (document : Markup.Document) (index : Index) :
    (ofDocument document index).nodes.toList.Pairwise fun a b => a.id < b.id := by
  rw [← List.pairwise_map, map_id_nodes]
  exact List.pairwise_lt_range'

/-- **Sorted nodes stand by range, and those of the same range by number.** -/
theorem sorted_pairwise {model : Model}
    (h : model.nodes.toList.Pairwise fun a b => a.id < b.id) :
    model.sorted.Pairwise fun a b => a.range.start < b.range.start ∨
      (a.range.start = b.range.start ∧ (a.range.stop < b.range.stop ∨
        (a.range.stop = b.range.stop ∧ a.id < b.id))) := by
  have le_iff {a b : Node} : (decide (a.range.order b.range ≠ .gt) = true) ↔
      a.range.start < b.range.start ∨
        (a.range.start = b.range.start ∧ a.range.stop ≤ b.range.stop) := by
    rw [decide_eq_true_eq, Range.order_ne_gt]
  refine (pairwise_mergeSort_stable (fun a b c => ?_) (fun a b => ?_) h).imp fun {a b} hab => ?_
  · rw [le_iff, le_iff, le_iff]
    grind
  · rw [Bool.or_eq_true, le_iff, le_iff]
    grind
  · rw [le_iff, le_iff] at hab
    grind

end Model

/-- **The model of every text is complete**, however broken it is. -/
theorem Snapshot.complete_ofText (text : String) :
    (Snapshot.ofText text).model.Complete (Snapshot.ofText text).document
      (Snapshot.ofText text).index where
  toListing := Model.listing_ofDocument _ _
  markup_eq := (Markup.kept_readDocument _).markup_eq
  sorted_perm := List.mergeSort_perm _ _
  sorted_order := Model.sorted_pairwise (Model.pairwise_id _ _)

end ProjectLens
