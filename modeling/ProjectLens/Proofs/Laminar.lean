import Mathlib.Data.List.Basic
import ProjectLens.Proofs.Documents
import ProjectLens.Proofs.Numbering
import ProjectLens.Snapshot

/-! # The nodes of a model are nested

Elements that nothing closes are cut down to their start tags while what follows them stays where it
is, text that no longer lies in its element is dropped, and runs of text fall into several nodes. Still
any two nodes of a model are apart or one lies in the other, and then it is an ancestor.

* `Draft.Fits`: a draft with all that belongs to it stands between two offsets;
* `Markup.Kept.fits_ofElement`: the drafts of elements do;
* `Nested`, `Draft.nested_nodesFrom`: the nodes of such a draft;
* `Model.Laminar`, `Snapshot.laminar_ofText`: what holds of the nodes of every text. -/

namespace ProjectLens

variable {index : Index} {start middle stop : Nat}

/-! ## Drafts between two offsets -/

namespace Draft

mutual

/-- **A draft fits between two offsets**: it is not empty, its attributes stand in it, and its content
comes after them, either all of it in the draft or all of it after the draft. -/
def Fits (start stop : Nat) : Draft → Prop
  | .node _ span _ attributes content =>
    start ≤ span.start ∧ span.start < span.stop ∧ span.stop ≤ stop ∧
      ∃ tagStop contentStop, FitAll (span.start + 1) tagStop attributes ∧
        FitAll tagStop contentStop content ∧ tagStop ≤ span.stop ∧ contentStop ≤ stop ∧
        (contentStop ≤ span.stop ∨ span.stop ≤ tagStop)

/-- Drafts that fit between two offsets one after another. -/
def FitAll (start stop : Nat) : List Draft → Prop
  | [] => start ≤ stop
  | draft :: drafts => ∃ middle, draft.Fits start middle ∧ FitAll middle stop drafts

end

/-- `draft.Fits start stop → start < stop`. -/
theorem Fits.lt {draft : Draft} (h : draft.Fits start stop) : start < stop := by
  cases draft
  obtain ⟨hstart, hlt, hstop, -⟩ := h
  omega

namespace FitAll

variable {drafts more : List Draft}

/-- `FitAll start stop drafts → start ≤ stop`. -/
theorem le (h : FitAll start stop drafts) : start ≤ stop := by
  induction drafts generalizing start with
  | nil => exact h
  | cons draft drafts ih =>
    obtain ⟨middle, hdraft, hdrafts⟩ := h
    exact Nat.le_trans (Nat.le_of_lt hdraft.lt) (ih hdrafts)

/-- Drafts may go on where others stop. -/
theorem append (h : FitAll start middle drafts) (h' : FitAll middle stop more) :
    FitAll start stop (drafts ++ more) := by
  induction drafts generalizing start with
  | nil =>
    -- nothing stands before the others, so they only get more room
    cases more with
    | nil => exact Nat.le_trans h h'
    | cons draft more =>
      obtain ⟨between, hdraft, hmore⟩ := h'
      refine ⟨between, ?_, hmore⟩
      cases draft
      exact ⟨Nat.le_trans h hdraft.1, hdraft.2⟩
  | cons draft drafts ih =>
    obtain ⟨between, hdraft, hdrafts⟩ := h
    exact ⟨between, hdraft, ih hdrafts⟩

/-- **Drafts of things in a row** fit where the row stands, if the drafts of each thing fit where that
stands. -/
theorem flatMap {α : Type} {items : List α} {spanOf : α → Span} {draftsOf : α → List Draft}
    (row : Spread start (items.map spanOf) stop)
    (each : ∀ item ∈ items, FitAll (spanOf item).start (spanOf item).stop (draftsOf item)) :
    FitAll start stop (items.flatMap draftsOf) := by
  induction items generalizing start with
  | nil => exact row
  | cons item items ih =>
    obtain ⟨hstart, -, hrow⟩ := row
    obtain ⟨hitem, hitems⟩ := List.forall_mem_cons.mp each
    have hgap : FitAll start (spanOf item).start [] := hstart
    rw [List.flatMap_cons]
    exact (hgap.append hitem).append (ih hrow hitems)

/-- A draft that fits is a row that fits. -/
theorem single {draft : Draft} (h : draft.Fits start stop) : FitAll start stop [draft] :=
  ⟨stop, h, Nat.le_refl stop⟩

end FitAll

/-- A draft to which nothing belongs fits where it stands. -/
theorem fits_leaf (part : Part) (span : Span) (path : Path) (h : span.start < span.stop) :
    (leaf part span path).Fits span.start span.stop :=
  ⟨Nat.le_refl _, h, Nat.le_refl _, span.stop, span.stop, h, Nat.le_refl _, Nat.le_refl _,
    Nat.le_refl _, .inl (Nat.le_refl _)⟩

end Draft

open Draft

/-! ## Runs of text -/

/-- A run of characters with at most one node, which is all of it, fits where it stands. -/
theorem fitAll_run (path : Path) (start : Nat) (run : List Char) (part : Part) :
    FitAll start (start + run.length)
      (if run.isEmpty then [] else [leaf part ⟨start, start + run.length⟩ path]) := by
  split
  · exact Nat.le_add_right _ _
  · next hfilled =>
    have hpos : 0 < run.length := by
      rw [List.length_pos_iff]
      simpa using hfilled
    exact FitAll.single (fits_leaf part ⟨start, start + run.length⟩ path (Nat.lt_add_of_pos_right hpos))

/-- **The nodes of a run of text fit where it stands.** -/
theorem fitAll_textDrafts (path : Path) (start : Nat) (run : List Char) :
    FitAll start (start + run.length) (textDrafts path start run) := by
  unfold textDrafts
  simp only
  have hrest := List.takeWhile_append_dropWhile (p := isBlank) (l := run)
  generalize run.takeWhile isBlank = leading at hrest
  generalize run.dropWhile isBlank = rest at hrest
  -- the back of the text is found from its end
  have hback := congrArg List.length
    (List.takeWhile_append_dropWhile (p := isBlank) (l := rest.reverse))
  rw [List.length_append, List.length_reverse] at hback
  have hlength : start + run.length = start + leading.length +
      (rest.reverse.dropWhile isBlank).reverse.length +
      (rest.reverse.takeWhile isBlank).reverse.length := by
    rw [← hrest, List.length_append, List.length_reverse, List.length_reverse]
    omega
  rw [hlength]
  have hfront := fitAll_run (path.join "#whitespace") start leading
    (.whitespace (String.ofList leading))
  have hcore := fitAll_run (path.join "#text") (start + leading.length)
    (rest.reverse.dropWhile isBlank).reverse
    (.text (String.ofList (rest.reverse.dropWhile isBlank).reverse))
  have hend := fitAll_run (path.join "#whitespace")
    (start + leading.length + (rest.reverse.dropWhile isBlank).reverse.length)
    (rest.reverse.takeWhile isBlank).reverse
    (.whitespace (String.ofList (rest.reverse.takeWhile isBlank).reverse))
  exact (hfront.append hcore).append hend

/-! ## Elements -/

namespace Markup

variable {document : Document} {e : Element} {i : Nat}

/-- **The node of an element** starts with it and covers its start tag. It covers the content as well,
unless it ends with the start tag. -/
theorem Element.Written.span_shapeOf (h : e.Written index) :
    (shapeOf index e).2.start = e.span.start ∧ e.tagStop ≤ (shapeOf index e).2.stop ∧
      (shapeOf index e).2.stop ≤ e.span.stop ∧
      (e.contentStop ≤ (shapeOf index e).2.stop ∨ (shapeOf index e).2.stop ≤ e.tagStop) := by
  have htag := h.tagStop_le
  have hcontent := h.contentStop_le
  unfold shapeOf
  split
  · exact ⟨rfl, htag, Nat.le_refl _, .inl hcontent⟩
  · split
    · -- without an end tag the node is the start tag, or all of it when that is broken
      cases hstart : e.startTag with
      | none => exact ⟨rfl, htag, Nat.le_refl _, .inl hcontent⟩
      | some tag =>
        obtain ⟨htagStart, htagStop⟩ := h.startTag tag hstart
        have heq : e.tagStop = tag.stop := by rw [Element.tagStop, hstart]; rfl
        exact ⟨htagStart, Nat.le_of_eq heq, htagStop, .inr (Nat.le_of_eq heq.symm)⟩
    · exact ⟨rfl, htag, Nat.le_refl _, .inl hcontent⟩

/-- The nodes of the attributes of an element fit between its name and the end of its start tag. -/
theorem Element.Written.fitAll_attributes (h : e.Written index) (own : Path) :
    FitAll (e.span.start + 1) e.tagStop (e.attributes.map (attributeDraft index own)) := by
  have hname := h.name.start_le
  have hstart := h.start_lt
  have hrow : Spread (e.span.start + 1) (e.attributes.map Attribute.span) e.tagStop :=
    h.row.widen (by omega) (Nat.le_refl _)
  rw [List.map_eq_flatMap]
  refine FitAll.flatMap hrow fun a ha => FitAll.single ?_
  exact fits_leaf _ a.span _ (h.attributes a ha).start_lt

/-- An element in another one covers its span. -/
theorem spanIn_of_get (he : document.get? i = some e) :
    (Content.element i).spanIn document.elements = e.span := by
  rw [Content.spanIn, ← Document.get?, he]
  rfl

/-- The drafts of what stands between the tags of an element: `own` is the path of the element and
`node` the span of its node. -/
def Content.drafts (document : Document) (index : Index) (e : Element) (own : Path) (node : Span) :
    Content → List Draft
  | .element id =>
    match document.get? id with
    | some child =>
      if e.id < child.id ∧ child.id < document.elements.size then
        [ofElement document index own child]
      else []
    | none => []
  | .text run place | .cdata run place =>
    if node.encloses place then textDrafts own place.start run.toList else []
  | .comment .. => []

/-- The draft of an element: its part, its span, its path, its attributes, and the drafts of its
content. -/
theorem ofElement_eq (document : Document) (index : Index) (path : Path) (e : Element) :
    ofElement document index path e =
      .node (.element (elementPart index e)) (shapeOf index e).2 (path.join (segmentOf e))
        (e.attributes.map (attributeDraft index (path.join (segmentOf e))))
        (e.content.flatMap
          (Content.drafts document index e (path.join (segmentOf e)) (shapeOf index e).2)) := by
  rw [ofElement]
  rfl

/-- A run has as many characters as its span. -/
theorem length_run {run : String} {place : Span} (h : index.Holds place run) :
    place.start + run.toList.length = place.stop := by
  have hle := h.start_le
  rw [← h.slice_eq, String.length_toList, Index.length_slice h.stop_le]
  omega

/-- The nodes of a run fit where the run stands, all of them or none. -/
theorem fitAll_run_of_holds {run : String} {place : Span} (h : index.Holds place run) (own : Path)
    (node : Span) : FitAll place.start place.stop
      (if node.encloses place then textDrafts own place.start run.toList else []) := by
  split
  · rw [← length_run h]
    exact fitAll_textDrafts own place.start run.toList
  · exact h.start_le

/-- The drafts of what stands between the tags of an element fit there, if those of the elements in it
fit where these stand. -/
theorem Kept.fitAll_drafts (h : Kept index document.elements document.roots [] index.length)
    (own : Path) (node : Span) (he : document.get? i = some e)
    (inside : ∀ {j : Nat} {child : Element}, document.get? j = some child → i < j →
      (ofElement document index own child).Fits child.span.start child.span.stop) :
    FitAll e.tagStop e.contentStop
      (e.content.flatMap (Content.drafts document index e own node)) := by
  have hrow := (h.settled_of_get he).row
  refine FitAll.flatMap hrow fun c hc => ?_
  have horder : (c.spanIn document.elements).start ≤ (c.spanIn document.elements).stop :=
    hrow.ordered (List.mem_map_of_mem hc)
  -- a child fits where the recursion says so, a run is cut into pieces of its own span
  cases c with
  | element j =>
    rw [Content.drafts]
    split
    · next child hchild =>
      split
      · next hlater =>
        rw [h.linked.id_eq he, h.linked.id_eq hchild] at hlater
        rw [spanIn_of_get hchild]
        exact FitAll.single (inside hchild hlater.1)
      · exact horder
    · exact horder
  | text run place => exact fitAll_run_of_holds ((h.written he).content _ hc) _ _
  | cdata run place => exact fitAll_run_of_holds ((h.written he).content _ hc) _ _
  | comment run place => exact horder

/-- **The draft of every element fits where the element stands.** -/
theorem Kept.fits_ofElement
    (h : Kept index document.elements document.roots [] index.length) (path : Path)
    (he : document.get? i = some e) :
    (ofElement document index path e).Fits e.span.start e.span.stop := by
  -- elements in it come later, so fewer come after them
  induction hleft : document.elements.size - i using Nat.strongRecOn generalizing i e path with
  | _ left ih =>
    have hwritten := h.written he
    obtain ⟨hstart, htag, hstop, hcontent⟩ := hwritten.span_shapeOf
    have hlt := hwritten.start_lt_tagStop
    rw [ofElement_eq]
    refine ⟨Nat.le_of_eq hstart.symm, by omega, hstop, e.tagStop, e.contentStop, ?_, ?_, htag,
      hwritten.contentStop_le, hcontent⟩
    · rw [hstart]
      exact hwritten.fitAll_attributes (path.join (segmentOf e))
    · refine h.fitAll_drafts (path.join (segmentOf e)) _ he fun {j child} hchild hlater => ?_
      have hj : j < document.elements.size := lt_size_of_getElem? hchild
      exact ih (document.elements.size - j) (by omega) (path.join (segmentOf e)) hchild rfl

/-- **The drafts of a document fit into its text.** -/
theorem Kept.fitAll_ofDocument
    (h : Kept index document.elements document.roots [] index.length) :
    FitAll 0 index.length (ofDocument document index) := by
  obtain ⟨items, hroots, -, hrow⟩ := h.chain
  rw [List.append_nil] at hroots
  rw [← hroots, List.map_map] at hrow
  have hdrafts : ofDocument document index = document.roots.flatMap fun id =>
      ((document.get? id).map (ofElement document index Path.root)).toList := by
    rw [ofDocument, List.map_filterMap, List.filterMap_eq_flatMap_toList]
  rw [hdrafts]
  refine FitAll.flatMap hrow fun id hid => ?_
  cases he : document.get? id with
  | none => exact hrow.ordered (List.mem_map_of_mem hid)
  | some e =>
    rw [Function.comp_apply, spanIn_of_get he]
    exact FitAll.single (h.fits_ofElement Path.root he)

end Markup

/-! ## Nodes -/

variable {model : Model} {parent : Option Nat} {nodes more : List Node}

/-- **How two nodes stand to each other** of which the first is discovered earlier: it starts earlier,
and either ends before the second one or lies around it. -/
def Model.Before (model : Model) (a b : Node) : Prop :=
  a.span.start < b.span.start ∧
    (a.span.stop ≤ b.span.start ∨ (b.span.stop ≤ a.span.stop ∧ a.id ∈ model.ancestors b.id))

/-- **Nodes between two offsets**, in the order of discovery, with `parent` around all of them. -/
structure Nested (model : Model) (parent : Option Nat) (start stop : Nat) (nodes : List Node) :
    Prop where
  /-- None of them is empty, and all stand between the offsets. -/
  inside : ∀ n ∈ nodes, start ≤ n.span.start ∧ n.span.start < n.span.stop ∧ n.span.stop ≤ stop
  /-- They stand to each other as nodes do. -/
  before : nodes.Pairwise model.Before
  /-- They are in the element they are said to be in. -/
  below : ∀ n ∈ nodes, ∀ around ∈ parent, around ∈ model.ancestors n.id

namespace Nested

/-- Nodes may go on where others stop. -/
theorem append (h : Nested model parent start middle nodes) (h' : Nested model parent middle stop more)
    (hstart : start ≤ middle) (hstop : middle ≤ stop) :
    Nested model parent start stop (nodes ++ more) where
  inside := by
    intro n hn
    rcases List.mem_append.mp hn with hn | hn
    · have := h.inside n hn
      omega
    · have := h'.inside n hn
      omega
  before := by
    refine List.pairwise_append.mpr ⟨h.before, h'.before, fun a ha b hb => ?_⟩
    have := h.inside a ha
    have := h'.inside b hb
    exact ⟨by omega, .inl (by omega)⟩
  below := by
    intro n hn
    rcases List.mem_append.mp hn with hn | hn
    · exact h.below n hn
    · exact h'.below n hn

/-- **A node in front of its attributes and its content.** -/
theorem cons {own : Node} {attributes content : List Node} {tagStop contentStop : Nat}
    (hattributes : Nested model (some own.id) (own.span.start + 1) tagStop attributes)
    (hcontent : Nested model (some own.id) tagStop contentStop content)
    (hstart : start ≤ own.span.start) (hlt : own.span.start < own.span.stop)
    (hstop : own.span.stop ≤ stop) (htag : own.span.start + 1 ≤ tagStop)
    (htagStop : tagStop ≤ own.span.stop) (hcontentStop : contentStop ≤ stop)
    (hcut : contentStop ≤ own.span.stop ∨ own.span.stop ≤ tagStop)
    (hbelow : ∀ around ∈ parent, around ∈ model.ancestors own.id) :
    Nested model parent start stop (own :: (attributes ++ content)) where
  inside := by
    intro n hn
    rcases List.mem_cons.mp hn with rfl | hn
    · exact ⟨hstart, hlt, hstop⟩
    · -- attributes lie in the start tag, the content behind it
      rcases List.mem_append.mp hn with hn | hn
      · have := hattributes.inside n hn
        omega
      · have := hcontent.inside n hn
        omega
  before := by
    refine List.pairwise_cons.mpr ⟨fun n hn => ?_, List.pairwise_append.mpr
      ⟨hattributes.before, hcontent.before, fun a ha b hb => ?_⟩⟩
    · rcases List.mem_append.mp hn with hn | hn
      · have := hattributes.inside n hn
        exact ⟨by omega, .inr ⟨by omega, hattributes.below n hn _ rfl⟩⟩
      · -- the content lies in the node, or after it where the node was cut
        have := hcontent.inside n hn
        refine ⟨by omega, ?_⟩
        rcases hcut with hcut | hcut
        · exact .inr ⟨by omega, hcontent.below n hn _ rfl⟩
        · exact .inl (by omega)
    · -- an attribute ends where the content has not begun
      have := hattributes.inside a ha
      have := hcontent.inside b hb
      exact ⟨by omega, .inl (by omega)⟩
  below := by
    intro n hn around haround
    rcases List.mem_cons.mp hn with rfl | hn
    · exact hbelow around haround
    · rcases List.mem_append.mp hn with hn | hn
      · exact Model.ancestors_trans (hbelow around haround) (hattributes.below n hn _ rfl)
      · exact Model.ancestors_trans (hbelow around haround) (hcontent.below n hn _ rfl)

end Nested

namespace Draft

/-- The node that each of some nodes names is an ancestor of it. -/
def Linked (model : Model) (nodes : List Node) : Prop :=
  ∀ n ∈ nodes, ∀ around ∈ n.parent, around ∈ model.ancestors n.id

mutual

/-- **The nodes of a draft are nested** where the draft fits. -/
theorem nested_nodesFrom (start stop id : Nat) (parent previous next : Option Nat) :
    (draft : Draft) → draft.Fits start stop →
      Linked model (nodesFrom index id parent previous next draft) →
      Nested model parent start stop (nodesFrom index id parent previous next draft)
  | .node part span path attributes content => by
    rintro ⟨hstart, hlt, hstop, tagStop, contentStop, hattributes, hcontent, htagStop, hcontentStop,
      hcut⟩ links
    obtain ⟨hown, hinside⟩ := List.forall_mem_cons.mp links
    have nestedAttributes := nested_nodesAllFrom (span.start + 1) tagStop (id + 1) (some id) none
      attributes hattributes fun n hn => hinside n (List.mem_append_left _ hn)
    have nestedContent := nested_nodesAllFrom tagStop contentStop (id + 1 + sizeAll attributes)
      (some id) none content hcontent fun n hn => hinside n (List.mem_append_right _ hn)
    exact nestedAttributes.cons nestedContent hstart hlt hstop hattributes.le htagStop hcontentStop
      hcut hown

/-- Drafts that fit a range give nodes that are nested in it, by recursion on the drafts. -/
theorem nested_nodesAllFrom (start stop id : Nat) (parent previous : Option Nat) :
    (drafts : List Draft) → FitAll start stop drafts →
      Linked model (nodesAllFrom index id parent previous drafts) →
      Nested model parent start stop (nodesAllFrom index id parent previous drafts)
  | [] => by
    intro _ _
    rw [nodesAllFrom]
    exact ⟨by simp, List.Pairwise.nil, by simp⟩
  | draft :: drafts => by
    rintro ⟨middle, hdraft, hdrafts⟩ links
    have first := nested_nodesFrom start middle id parent previous
      (if drafts.isEmpty then none else some (id + draft.size)) draft hdraft
      fun n hn => links n (List.mem_append_left _ hn)
    have others := nested_nodesAllFrom middle stop (id + draft.size) parent (some id) drafts hdrafts
      fun n hn => links n (List.mem_append_right _ hn)
    exact first.append others (Nat.le_of_lt hdraft.lt) hdrafts.le

end

end Draft

/-! ## Models -/

namespace Model

variable {i j : Nat} {n m : Node}

/-- **The nodes of a model are laminar**: two of them are apart or nested, and the outer one of two
nested ones is an ancestor of the other. -/
structure Laminar (model : Model) : Prop where
  /-- No node is empty. -/
  filled : ∀ {i : Nat} {n : Node}, model.get? i = some n → n.span.start < n.span.stop
  /-- Two nodes have no character in common, or one of them lies in the other and is smaller. -/
  apart_or_nested : ∀ {i j : Nat} {n m : Node}, model.get? i = some n → model.get? j = some m →
    i ≠ j → (n.span.stop ≤ m.span.start ∨ m.span.stop ≤ n.span.start) ∨
      n.span ≠ m.span ∧ (m.span.encloses n.span = true ∨ n.span.encloses m.span = true)
  /-- Around a node stand the one it belongs to and all those around that one. -/
  ancestors_eq : ∀ {i : Nat} {n : Node}, model.get? i = some n → model.ancestors i =
    match n.parent with
    | none => []
    | some parent => parent :: model.ancestors parent
  /-- What a node lies in is an ancestor of it. -/
  ancestor : ∀ {i j : Nat} {n m : Node}, model.get? i = some n → model.get? j = some m → i ≠ j →
    m.span.encloses n.span = true → j ∈ model.ancestors i

/-- Nodes are found by their places in the order of discovery. -/
theorem get?_eq (model : Model) (i : Nat) : model.get? i = model.nodes.toList[i]? := by
  rw [get?, Array.getElem?_toList]

/-- **The nodes of every document are nested.** -/
theorem nested_ofDocument {document : Markup.Document}
    (h : Markup.Kept index document.elements document.roots [] index.length) :
    Nested (ofDocument document index) none 0 index.length
      (ofDocument document index).nodes.toList := by
  refine Draft.nested_nodesAllFrom 0 index.length 0 none none _ h.fitAll_ofDocument ?_
  intro n hn around haround
  obtain ⟨i, hi⟩ := List.mem_iff_getElem?.mp hn
  have numbered := numbered_ofDocument document index
  have hget : (ofDocument document index).get? i = some n := by
    rw [get?_ofDocument, hi]
  rw [numbered.id_eq hget]
  exact numbered.mem_ancestors_of_parent hget haround

end Model

/-- Of two nodes the one that is discovered earlier stands before the other. -/
theorem Nested.before_of_lt (h : Nested model parent start stop model.nodes.toList) {i j : Nat}
    {n m : Node} (hn : model.get? i = some n) (hm : model.get? j = some m) (hlt : i < j) :
    model.Before n m := by
  rw [Model.get?_eq] at hn hm
  obtain ⟨hi, rfl⟩ := List.getElem?_eq_some_iff.mp hn
  obtain ⟨hj, rfl⟩ := List.getElem?_eq_some_iff.mp hm
  exact List.pairwise_iff_getElem.mp h.before i j hi hj hlt

/-- Nodes that are nested between two offsets are laminar. -/
theorem Nested.laminar (h : Nested model parent start stop model.nodes.toList)
    (numbered : model.Numbered index) : model.Laminar := by
  have filled {i : Nat} {n : Node} (hn : model.get? i = some n) : n.span.start < n.span.stop := by
    rw [Model.get?_eq] at hn
    exact (h.inside n (List.mem_of_getElem? hn)).2.1
  constructor
  case filled => exact filled
  case apart_or_nested =>
    intro i j n m hn hm hne
    simp only [Span.encloses, decide_eq_true_eq]
    rcases Nat.lt_or_gt_of_ne hne with hlt | hlt
    · obtain ⟨hstart, hapart | ⟨hinside, -⟩⟩ := h.before_of_lt hn hm hlt
      · exact .inl (.inl hapart)
      · refine .inr ⟨fun heq => ?_, .inr ⟨Nat.le_of_lt hstart, hinside⟩⟩
        rw [heq] at hstart
        exact Nat.lt_irrefl _ hstart
    · obtain ⟨hstart, hapart | ⟨hinside, -⟩⟩ := h.before_of_lt hm hn hlt
      · exact .inl (.inr hapart)
      · refine .inr ⟨fun heq => ?_, .inl ⟨Nat.le_of_lt hstart, hinside⟩⟩
        rw [heq] at hstart
        exact Nat.lt_irrefl _ hstart
  case ancestors_eq => exact numbered.ancestors_eq
  case ancestor =>
    intro i j n m hn hm hne hinside
    simp only [Span.encloses, decide_eq_true_eq] at hinside
    have := filled hn
    -- the outer one starts earlier, so it is discovered earlier
    rcases Nat.lt_or_gt_of_ne hne with hlt | hlt
    · have := (h.before_of_lt hn hm hlt).1
      omega
    · obtain ⟨-, hapart | ⟨-, habove⟩⟩ := h.before_of_lt hm hn hlt
      · omega
      · rwa [numbered.id_eq hm, numbered.id_eq hn] at habove

/-- **The nodes of every text are laminar**, however broken it is. -/
theorem Snapshot.laminar_ofText (text : String) : (Snapshot.ofText text).model.Laminar :=
  (Model.nested_ofDocument (Markup.kept_readDocument _)).laminar (Model.numbered_ofDocument _ _)

end ProjectLens
