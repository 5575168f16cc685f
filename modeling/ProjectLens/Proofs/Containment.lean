import ProjectLens.Proofs.Inventory
import ProjectLens.Proofs.Reports

/-! # Where nodes stand in the element they belong to

The node of an element that nothing closes ends with its start tag, while the elements in it stay where
they are. These are the only nodes that reach out of the node they belong to: text is kept only where
it lies in the element's node, and there is no room for it in a start tag.

* `Markup.Kept.isElement_of_mem_drafts`: what is left between the tags of an element without an end tag;
* `Model.Depicts`: a node with all that belongs to it stands for an element;
  `Model.Depicts.encloses_or_unclosed`: what belongs to it lies in it;
* `Model.Contained`, `Snapshot.contained_ofText`: what holds of the nodes of every text. -/

namespace ProjectLens

open Draft

variable {index : Index}

/-- Drafts that fit between two offsets stand there in a row. -/
theorem Draft.FitAll.spread {start stop : Nat} {drafts : List Draft} (h : FitAll start stop drafts) :
    Spread start (drafts.map fun draft => draft.mark.2) stop := by
  induction drafts generalizing start with
  | nil => exact h
  | cons draft drafts ih =>
    obtain ⟨middle, hdraft, hdrafts⟩ := h
    cases draft with
    | node part span path attributes content =>
      obtain ⟨hstart, hlt, hstop, -⟩ := hdraft
      exact ⟨hstart, Nat.le_of_lt hlt, (ih hdrafts).widen hstop (Nat.le_refl _)⟩

namespace Markup

variable {document : Document} {e : Element} {i : Nat} {own : Path} {draft : Draft}

/-! ## Elements without an end tag -/

/-- The node of an element with an end tag is all of it. -/
theorem shapeOf_of_endTag {tag : Span} (h : e.endTag = some tag) : (shapeOf index e).2 = e.span := by
  unfold shapeOf
  split
  · rfl
  · rw [h]

/-- The node of an element that nothing closes ends with its start tag. -/
theorem stop_shapeOf (hopen : e.selfClosing = false) (hend : e.endTag = none) :
    (shapeOf index e).2.stop = e.tagStop := by
  rw [shapeOf, hopen, hend, Element.tagStop]
  -- when the start tag is broken both are the end of the element
  cases e.startTag <;> rfl

/-- A run without characters has no nodes. -/
theorem textDrafts_of_holds {run : String} {place : Span} (h : index.Holds place run)
    (hempty : place.stop ≤ place.start) : textDrafts own place.start run.toList = [] := by
  have hnil : run.toList = [] := by
    have := length_run h
    exact List.eq_nil_of_length_eq_zero (by omega)
  rw [hnil]
  rfl

/-- **An element that nothing closes has only elements in it.** -/
theorem Kept.isElement_of_mem_drafts
    (h : Kept index document.elements document.roots [] index.length) (he : document.get? i = some e)
    (hopen : e.selfClosing = false) (hend : e.endTag = none)
    (hdraft : draft ∈ e.content.flatMap (Content.drafts document index e own (shapeOf index e).2)) :
    draft.mark.1.isElement = true := by
  obtain ⟨c, hc, hdraft⟩ := List.mem_flatMap.mp hdraft
  obtain ⟨hafter, -⟩ := (h.settled_of_get he).row.inside (List.mem_map_of_mem hc)
  have hwritten := (h.written he).content c hc
  -- text after the start tag lies in the node only if it is empty
  have hrun {run : String} {place : Span} (hholds : index.Holds place run)
      (hplace : e.tagStop ≤ place.start) (hdraft : draft ∈ if (shapeOf index e).2.encloses place then
        textDrafts own place.start run.toList else []) : draft.mark.1.isElement = true := by
    split at hdraft
    · next hinside =>
      simp only [Span.encloses, decide_eq_true_eq, stop_shapeOf hopen hend] at hinside
      rw [textDrafts_of_holds hholds (by omega)] at hdraft
      cases hdraft
    · cases hdraft
  cases c with
  | element id =>
    rw [Content.drafts] at hdraft
    split at hdraft
    · split at hdraft
      · rw [List.mem_singleton.mp hdraft, ofElement_eq]
        rfl
      · cases hdraft
    · cases hdraft
  | text run place => exact hrun hwritten hafter hdraft
  | cdata run place => exact hrun hwritten hafter hdraft
  | comment run place => cases hdraft

end Markup

/-! ## Nodes of elements -/

namespace Model

variable {model : Model} {document : Markup.Document} {e : Markup.Element} {n : Node} {i j : Nat}

/-- **A node stands for an element**, with the nodes of its attributes and of what is between its
tags. -/
structure Depicts (document : Markup.Document) (index : Index) (model : Model) (e : Markup.Element)
    (n : Node) : Prop where
  /-- The node and its attributes. -/
  markup_eq : n.mark :: (model.attributesOf n).map Node.mark = e.markup index
  /-- Its content. -/
  content_eq : ∃ own, (model.contentOf n).map Node.mark = (e.content.flatMap
    (Markup.Content.drafts document index e own (shapeOf index e).2)).map Draft.mark

/-- The node of an element in a row stands for it. -/
theorem depicts_of_row {parent previous next : Option Nat} {path : Path} {drafts : List Draft}
    (row : Row (Draft.ofDocument document index) i parent previous
      (Draft.ofElement document index path e :: drafts)) :
    Depicts document index (ofDocument document index) e
      (Draft.ownNode index i parent previous next (Draft.ofElement document index path e)) := by
  rw [Markup.ofElement_eq] at row ⊢
  refine ⟨?_, _, map_mark_of_row row.content⟩
  exact congrArg (List.cons _) ((map_mark_of_row row.attributes).trans (List.map_map ..))

/-- **Nodes belong only to nodes that stand for elements.** -/
theorem depicts_or_leaf (hn : (ofDocument document index).get? i = some n) :
    (∃ j e, document.get? j = some e ∧ Depicts document index (ofDocument document index) e n) ∨
      (n.part.isElement = false ∧ n.attributes = [] ∧ n.content = []) := by
  obtain ⟨parent, previous, draft, drafts, row, rfl⟩ := exists_row hn
  cases row.drawn draft List.mem_cons_self with
  | ofElement path he => exact .inl ⟨_, _, he, depicts_of_row row⟩
  | ofAttribute path a he ha => exact .inr ⟨rfl, rfl, rfl⟩
  | ofText path start run => exact .inr ⟨rfl, rfl, rfl⟩
  | ofWhitespace path start run => exact .inr ⟨rfl, rfl, rfl⟩

namespace Depicts

variable (h : Depicts document index model e n)
include h

/-- The node of an element has the element's part. -/
theorem part_eq : n.part = .element (elementPart index e) :=
  congrArg Prod.fst (List.cons.inj h.markup_eq).1

/-- Its span is that of the element's shape. -/
theorem span_eq : n.span = (shapeOf index e).2 :=
  congrArg Prod.snd (List.cons.inj h.markup_eq).1

/-- The attributes stand in a row in the start tag. -/
theorem attributes_row (hwritten : e.Written index) :
    Spread e.span.start ((model.attributesOf n).map Node.span) e.tagStop := by
  have hspans := congrArg (List.map Prod.snd) (List.cons.inj h.markup_eq).2
  rw [List.map_map, List.map_map] at hspans
  have hstart := hwritten.start_lt
  have hname := hwritten.name.start_le
  have hrow := hwritten.row.widen (show e.span.start ≤ e.nameSpan.stop by omega) (Nat.le_refl _)
  exact hspans ▸ hrow

/-- The content stands in a row between the tags. -/
theorem content_row (kept : Markup.Kept index document.elements document.roots [] index.length)
    (he : document.get? j = some e) :
    Spread e.tagStop ((model.contentOf n).map Node.span) e.contentStop := by
  obtain ⟨own, heq⟩ := h.content_eq
  have hspans := congrArg (List.map Prod.snd) heq
  rw [List.map_map, List.map_map] at hspans
  have hfits := kept.fitAll_drafts own (shapeOf index e).2 he fun hchild _ =>
    kept.fits_ofElement own hchild
  exact hspans ▸ hfits.spread

/-- Without an end tag the content is made of elements. -/
theorem isElement_of_mem_content
    (kept : Markup.Kept index document.elements document.roots [] index.length)
    (he : document.get? j = some e) (closed : e.selfClosing = true → e.content = [])
    (hend : e.endTag = none) : ∀ c ∈ model.contentOf n, c.part.isElement = true := by
  intro c hc
  obtain ⟨own, heq⟩ := h.content_eq
  have hmark : c.mark ∈ (model.contentOf n).map Node.mark := List.mem_map_of_mem hc
  rw [heq] at hmark
  obtain ⟨draft, hdraft, hmark⟩ := List.mem_map.mp hmark
  cases hopen : e.selfClosing with
  | true =>
    rw [closed hopen] at hdraft
    cases hdraft
  | false =>
    have helement := kept.isElement_of_mem_drafts he hopen hend hdraft
    rw [hmark] at helement
    exact helement

/-- **What belongs to an element lies in its node**, apart from elements in an element without an end
tag. -/
theorem encloses_or_unclosed
    (kept : Markup.Kept index document.elements document.roots [] index.length)
    (he : document.get? j = some e) (closed : e.selfClosing = true → e.content = []) :
    ∀ inner ∈ model.attributesOf n ++ model.contentOf n, n.span.encloses inner.span = true ∨
      (inner.part.isElement = true ∧ e.endTag = none) := by
  have hwritten := kept.written he
  obtain ⟨hstart, htag, -⟩ := hwritten.span_shapeOf
  have hlt := hwritten.start_lt_tagStop
  rw [h.span_eq]
  simp only [Span.encloses, decide_eq_true_eq]
  intro inner hinner
  rcases List.mem_append.mp hinner with hinner | hinner
  · -- attributes lie in the start tag
    have hinside := (h.attributes_row hwritten).inside (List.mem_map_of_mem hinner)
    exact .inl (by omega)
  · cases hend : e.endTag with
    | none => exact .inr ⟨h.isElement_of_mem_content kept he closed hend inner hinner, rfl⟩
    | some tag =>
      have hinside := (h.content_row kept he).inside (List.mem_map_of_mem hinner)
      -- the content of a closed element ends before the element does
      have hstop := hwritten.contentStop_le
      rw [Markup.shapeOf_of_endTag hend]
      exact .inl (by omega)

/-- The attributes lie in the start tag. -/
theorem encloses_attributes {tag : Span} (hwritten : e.Written index) (htag : e.startTag = some tag) :
    ∀ a ∈ model.attributesOf n, tag.encloses a.span = true := by
  intro a ha
  have hinside := (h.attributes_row hwritten).inside (List.mem_map_of_mem ha)
  have hstop : e.tagStop = tag.stop := by
    rw [Markup.Element.tagStop, htag]
    rfl
  obtain ⟨hstart, -⟩ := hwritten.startTag tag htag
  simp only [Span.encloses, decide_eq_true_eq]
  omega

/-- The content lies between the tags. -/
theorem content_between {closing : Span}
    (kept : Markup.Kept index document.elements document.roots [] index.length)
    (he : document.get? j = some e) (hend : e.endTag = some closing) :
    ∃ opening, e.startTag = some opening ∧ ∀ c ∈ model.contentOf n,
      opening.stop ≤ c.span.start ∧ c.span.stop ≤ closing.start := by
  obtain ⟨hopen, -⟩ := (kept.written he).endTag closing hend
  obtain ⟨opening, hopening⟩ := Option.isSome_iff_exists.mp hopen
  have hrow := h.content_row kept he
  rw [Markup.Element.tagStop, Markup.Element.contentStop, hopening, hend] at hrow
  exact ⟨opening, hopening, fun c hc => hrow.inside (List.mem_map_of_mem hc)⟩

end Depicts

/-! ## Models -/

/-- **Nodes stand in order where they belong**: in the element they belong to, attributes in its start
tag and content between its tags, unless that element has no end tag. -/
structure Contained (model : Model) : Prop where
  /-- A node lies in the one it belongs to, unless it is an element and that one has no end tag. -/
  inside : ∀ {i p : Nat} {n : Node}, model.get? i = some n → n.parent = some p →
    ∃ m, model.get? p = some m ∧ (m.span.encloses n.span = true ∨
      (n.part.isElement = true ∧ ∃ own, m.part = .element own ∧ own.endTag = none))
  /-- The attributes of an element lie in its start tag. -/
  attributes_inside : ∀ {i : Nat} {n : Node} {own : ElementPart} {tag : Span},
    model.get? i = some n → n.part = .element own → own.startTag = some tag →
      ∀ a ∈ model.attributesOf n, tag.encloses a.span = true
  /-- The content of an element with an end tag lies between its tags. -/
  content_between : ∀ {i : Nat} {n : Node} {own : ElementPart} {closing : Span},
    model.get? i = some n → n.part = .element own → own.endTag = some closing →
      ∃ opening, own.startTag = some opening ∧ ∀ c ∈ model.contentOf n,
        opening.stop ≤ c.span.start ∧ c.span.stop ≤ closing.start
  /-- An element without an end tag has neither text nor blanks in it. -/
  content_unclosed : ∀ {i : Nat} {n : Node} {own : ElementPart},
    model.get? i = some n → n.part = .element own → own.endTag = none →
      ∀ c ∈ model.contentOf n, c.part.isElement = true
  /-- Attributes stand in order, and none overlaps another. -/
  attributes_apart : ∀ {i : Nat} {n : Node}, model.get? i = some n →
    (model.attributesOf n).Pairwise fun a b =>
      a.span.start < b.span.start ∧ a.span.stop ≤ b.span.start
  /-- Content stands in order, and no part of it overlaps another. -/
  content_apart : ∀ {i : Nat} {n : Node}, model.get? i = some n →
    (model.contentOf n).Pairwise fun a b =>
      a.span.start < b.span.start ∧ a.span.stop ≤ b.span.start

/-- The node of an element is known by its part. -/
theorem exists_depicts {own : ElementPart} (hn : (ofDocument document index).get? i = some n)
    (hpart : n.part = .element own) : ∃ j e, document.get? j = some e ∧
      Depicts document index (ofDocument document index) e n ∧ own = elementPart index e := by
  rcases depicts_or_leaf hn with ⟨j, e, he, hdepicts⟩ | ⟨hnone, -⟩
  · exact ⟨j, e, he, hdepicts, Part.element.inj (hpart.symm.trans hdepicts.part_eq)⟩
  · rw [hpart] at hnone
    cases hnone

/-- Nodes that stand in a row and are not empty are in order. -/
theorem pairwise_of_row {nodes : List Node} {start stop : Nat}
    (row : Spread start (nodes.map Node.span) stop)
    (filled : ∀ n ∈ nodes, n.span.start < n.span.stop) :
    nodes.Pairwise fun a b => a.span.start < b.span.start ∧ a.span.stop ≤ b.span.start := by
  refine (List.pairwise_map.mp row.apart).imp_of_mem fun {a b} ha _ hle => ?_
  have := filled a ha
  omega

/-- **The nodes of a document stand where they belong.** -/
theorem contained_ofDocument
    (kept : Markup.Kept index document.elements document.roots [] index.length)
    (closed : ∀ {j : Nat} {e : Markup.Element}, document.get? j = some e → e.selfClosing = true →
      e.content = []) : (ofDocument document index).Contained := by
  have filled {ids : List Nat} :
      ∀ n ∈ ids.filterMap (ofDocument document index).get?, n.span.start < n.span.stop := by
    intro n hn
    obtain ⟨i, -, hi⟩ := List.mem_filterMap.mp hn
    rw [get?_eq] at hi
    exact ((nested_ofDocument kept).inside n (List.mem_of_getElem? hi)).2.1
  constructor
  case inside =>
    intro i p n hn hparent
    have hlists := lists_parent hn
    rw [hparent] at hlists
    obtain ⟨m, hm, hmem⟩ := hlists
    refine ⟨m, hm, ?_⟩
    -- a parent is the node of an element, since leaves have nothing in them
    rcases depicts_or_leaf hm with ⟨j, e, he, hdepicts⟩ | ⟨-, hattributes, hcontent⟩
    · have hnode : n ∈ (ofDocument document index).attributesOf m ++
          (ofDocument document index).contentOf m := by
        rw [attributesOf, contentOf, ← List.filterMap_append]
        exact List.mem_filterMap.mpr ⟨i, hmem, hn⟩
      rcases hdepicts.encloses_or_unclosed kept he (closed he) n hnode with hinside | ⟨helement, hend⟩
      · exact .inl hinside
      · exact .inr ⟨helement, _, hdepicts.part_eq, hend⟩
    · rw [hattributes, hcontent] at hmem
      cases hmem
  case attributes_inside =>
    intro i n own tag hn hpart htag
    obtain ⟨j, e, he, hdepicts, rfl⟩ := exists_depicts hn hpart
    exact hdepicts.encloses_attributes (kept.written he) htag
  case content_between =>
    intro i n own closing hn hpart hclosing
    obtain ⟨j, e, he, hdepicts, rfl⟩ := exists_depicts hn hpart
    exact hdepicts.content_between kept he hclosing
  case content_unclosed =>
    intro i n own hn hpart hend
    obtain ⟨j, e, he, hdepicts, rfl⟩ := exists_depicts hn hpart
    exact hdepicts.isElement_of_mem_content kept he (closed he) hend
  case attributes_apart =>
    intro i n hn
    rcases depicts_or_leaf hn with ⟨j, e, he, hdepicts⟩ | ⟨-, hattributes, -⟩
    · exact pairwise_of_row (hdepicts.attributes_row (kept.written he)) filled
    · rw [attributesOf, hattributes]
      exact .nil
  case content_apart =>
    intro i n hn
    rcases depicts_or_leaf hn with ⟨j, e, he, hdepicts⟩ | ⟨-, -, hcontent⟩
    · exact pairwise_of_row (hdepicts.content_row kept he) filled
    · rw [contentOf, hcontent]
      exact .nil

end Model

/-- Nothing stands in an element that its start tag closes. -/
theorem Markup.content_of_selfClosing {i : Nat} {e : Element} (lined : index.Lined)
    (he : (readDocument index).1.get? i = some e) (hclosing : e.selfClosing = true) :
    e.content = [] := by
  obtain ⟨diagnostics, -, reported⟩ := reported_readDocument lined
  cases reported.settles he List.not_mem_nil with
  | selfClosing closes endTag content silent => exact content
  | ended closes endTag silent => cases closes.symm.trans hclosing
  | unclosed closes endTag told => cases closes.symm.trans hclosing
  | salvaged closes startTag endTag attributes content told isError placed => exact content

/-- **The nodes of every text stand where they belong**, however broken it is. -/
theorem Snapshot.contained_ofText (text : String) : (Snapshot.ofText text).model.Contained :=
  Model.contained_ofDocument (Markup.kept_readDocument _)
    (Markup.content_of_selfClosing (Index.lined_ofText text))

end ProjectLens
