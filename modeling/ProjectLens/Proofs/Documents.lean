import ProjectLens.Proofs.Building
import ProjectLens.Proofs.Offsets

/-! # What holds of every document

However broken a text is, the document read from it is a forest in the order of the text, and all that
it says about places can be looked up there.

* `Document.WellFormed`, `readDocument_wellFormed`: elements, their content and their depth;
* `Document.Spelled`, `readDocument_spelled`: names, values, texts and tags are what the text has at
  their spans. -/

namespace ProjectLens

/-- **A text is spelled at a span**, whether the text around it is counted in characters or in
bytes. -/
structure Index.Spells (index : Index) (span : Span) (text : String) : Prop
    extends index.Holds span text where
  /-- The bytes of the span. -/
  bytes : index.betweenBytes? (index.offsetToByte span.start) (index.offsetToByte span.stop) =
    some text.toList
  /-- The first byte leads back to the start. -/
  ofStart : index.byteToOffset (index.offsetToByte span.start) = span.start
  /-- The byte after the last one leads back to the end. -/
  ofStop : index.byteToOffset (index.offsetToByte span.stop) = span.stop

/-- What a span holds is spelled there. -/
theorem Index.Holds.spells {index : Index} {span : Span} {text : String} (h : index.Holds span text)
    (lined : index.Lined) : index.Spells span text where
  toHolds := h
  bytes := by
    rw [lined.betweenBytes?_eq h.start_le, ← h.slice_eq, Index.slice, String.toList_ofList]
  ofStart := lined.byteToOffset_offsetToByte (Nat.le_trans h.start_le h.stop_le)
  ofStop := lined.byteToOffset_offsetToByte h.stop_le

namespace Markup

variable {index : Index} {document : Document} {i : Nat} {e : Element}

/-! ## Structure -/

/-- **A document is well-formed**: its elements form a forest and stand in it as they do in the text. -/
structure Document.WellFormed (index : Index) (document : Document) : Prop where
  /-- An element knows its place. -/
  id_eq : ∀ {i : Nat} {e : Element}, document.get? i = some e → e.id = i
  /-- Elements stand in the order in which they start. -/
  start_lt : ∀ {i j : Nat} {e e' : Element}, document.get? i = some e → document.get? j = some e' →
    i < j → e.span.start < e'.span.start
  /-- An element comes after the one around it, and lies in it. -/
  parent : ∀ {i p : Nat} {e : Element}, document.get? i = some e → e.parent = some p → p < i ∧
    ∃ e', document.get? p = some e' ∧ e'.span.start ≤ e.span.start ∧ e.span.stop ≤ e'.span.stop
  /-- An element that stands in no other is listed once among the outermost ones, and no other is. -/
  count_roots : ∀ {i : Nat} {e : Element}, document.get? i = some e →
    document.roots.count i = if e.parent = none then 1 else 0
  /-- Any other element is listed once by the one around it, and by no other. -/
  count_children : ∀ {i p : Nat} {e e' : Element}, document.get? i = some e →
    document.get? p = some e' → e'.childElements.count i = if e.parent = some p then 1 else 0
  /-- What is listed among the outermost elements is an element. -/
  listed_root : ∀ i ∈ document.roots, ∃ e, document.get? i = some e
  /-- What an element lists is an element. -/
  listed_child : ∀ {i p : Nat} {e : Element}, document.get? p = some e → .element i ∈ e.content →
    ∃ e', document.get? i = some e'
  /-- Around an element stand the one around it and all those around that one. -/
  ancestors_eq : ∀ {i : Nat} {e : Element}, document.get? i = some e → document.ancestors i =
    match e.parent with
    | none => []
    | some parent => parent :: document.ancestors parent
  /-- Depth counts the elements around. -/
  depth_eq : ∀ {i : Nat} {e : Element}, document.get? i = some e →
    e.location.depth = (document.ancestors i).length
  /-- An attribute is one deeper than its element. -/
  attribute_depth : ∀ {i : Nat} {e : Element}, document.get? i = some e → ∀ a ∈ e.attributes,
    a.location.depth = e.location.depth + 1
  /-- An element lies in the text. -/
  inText : ∀ {i : Nat} {e : Element}, document.get? i = some e →
    e.span.start < e.span.stop ∧ e.span.stop ≤ index.length
  /-- What an element contains lies in it. -/
  content_inside : ∀ {i : Nat} {e : Element}, document.get? i = some e → ∀ c ∈ e.content,
    e.span.start ≤ (c.spanIn document.elements).start ∧
      (c.spanIn document.elements).start ≤ (c.spanIn document.elements).stop ∧
      (c.spanIn document.elements).stop ≤ e.span.stop
  /-- What an element contains stands in order, and no part of it overlaps another. -/
  content_apart : ∀ {i : Nat} {e : Element}, document.get? i = some e →
    (e.content.map (Content.spanIn document.elements)).Pairwise fun a b => a.stop ≤ b.start
  /-- The location of an element is that of its span. -/
  range_eq : ∀ {i : Nat} {e : Element}, document.get? i = some e →
    e.location.range = index.spanToRange e.span

/-- At the end no element is open, so all are settled. -/
theorem Kept.settled_of_get (h : Kept index document.elements document.roots [] index.length)
    (he : document.get? i = some e) : e.Settled index document.elements :=
  h.settled he List.not_mem_nil

/-- What an element contains lies in it. -/
theorem Kept.inside_of_get (h : Kept index document.elements document.roots [] index.length)
    (he : document.get? i = some e) {c : Content} (hc : c ∈ e.content) :
    e.span.start ≤ (c.spanIn document.elements).start ∧
      (c.spanIn document.elements).start ≤ (c.spanIn document.elements).stop ∧
      (c.spanIn document.elements).stop ≤ e.span.stop := by
  have hwritten := h.written he
  have hrow := (h.settled_of_get he).row
  obtain ⟨hstart, hstop⟩ := hrow.inside (List.mem_map_of_mem hc)
  have horder := hrow.ordered (List.mem_map_of_mem hc)
  have := hwritten.start_lt_tagStop
  have := hwritten.contentStop_le
  exact ⟨by omega, horder, by omega⟩

/-- **Every document is well-formed**, whatever its text. -/
theorem readDocument_wellFormed (text : String) :
    (readDocument (Index.ofText text)).1.WellFormed (Index.ofText text) := by
  have h := kept_readDocument (Index.ofText text)
  -- all of it follows from what the reader keeps, with nothing left open
  generalize (readDocument (Index.ofText text)).1 = document at h
  generalize Index.ofText text = index at h
  constructor
  case id_eq => exact h.linked.id_eq
  case start_lt => exact h.linked.start_lt
  case parent =>
    intro i p e he hparent
    have hlt := h.linked.parent_lt he hparent
    have hp : p < document.elements.size := Nat.lt_trans hlt (lt_size_of_getElem? he)
    have hget : document.get? p = some document.elements[p] := Array.getElem?_eq_getElem hp
    -- the parent lists it, so it lies in the parent's content
    have hmem : i ∈ document.elements[p].childElements := by
      rw [h.linked.children_eq hget, mem_childrenOf, parentOf, ← Document.get?, he]
      exact ⟨lt_size_of_getElem? he, hparent⟩
    obtain ⟨hstart, -, hstop⟩ := h.inside_of_get hget (mem_childElements.mp hmem)
    rw [Content.spanIn, ← Document.get?, he] at hstart hstop
    exact ⟨hlt, _, hget, hstart, hstop⟩
  case count_roots =>
    intro i e he
    rw [h.linked.roots_eq, count_childrenOf he]
  case count_children =>
    intro i p e e' he he'
    rw [h.linked.children_eq he', count_childrenOf he]
  case listed_root =>
    intro i hi
    rw [h.linked.roots_eq, mem_childrenOf] at hi
    exact ⟨_, Array.getElem?_eq_getElem hi.1⟩
  case listed_child =>
    intro i p e he hi
    rw [← mem_childElements, h.linked.children_eq he, mem_childrenOf] at hi
    exact ⟨_, Array.getElem?_eq_getElem hi.1⟩
  case ancestors_eq => exact h.linked.ancestors_eq
  case depth_eq => exact h.linked.depth_eq_length
  case attribute_depth => exact h.linked.attribute_depth
  case inText => exact fun he => ⟨(h.written he).start_lt_stop, (h.settled_of_get he).stop_le⟩
  case content_inside => exact fun he c hc => h.inside_of_get he hc
  case content_apart => exact fun he => (h.settled_of_get he).row.apart
  case range_eq => exact fun he => (h.settled_of_get he).range_eq

/-! ## Spans -/

/-- **An attribute is spelled in the text**: its name, and its value after it. -/
structure Attribute.Spelled (index : Index) (a : Attribute) : Prop where
  /-- Its name. -/
  name : index.Spells a.nameSpan a.name
  /-- Its value. -/
  value : index.Spells a.valueSpan a.value
  /-- The name starts in the attribute. -/
  start_le : a.span.start ≤ a.nameSpan.start
  /-- The value comes after the name. -/
  name_le : a.nameSpan.stop ≤ a.valueSpan.start
  /-- The value ends in the attribute. -/
  le_stop : a.valueSpan.stop ≤ a.span.stop

/-- **Text is spelled in the text** it was read from. -/
def Content.Spelled (index : Index) : Content → Prop
  | .text run span | .cdata run span => index.Spells span run
  | .element _ | .comment _ _ => True

/-- **An element is spelled in the text**: its name, its attributes in order after it, and its tags
around its content. -/
structure Element.Spelled (index : Index) (e : Element) : Prop where
  /-- Its name. -/
  name : index.Spells e.nameSpan e.name
  /-- Its attributes. -/
  attributes : ∀ a ∈ e.attributes, a.Spelled index
  /-- Its attributes come after its name. -/
  attributes_after : ∀ a ∈ e.attributes, e.nameSpan.stop ≤ a.span.start
  /-- Its attributes stand in order, and none overlaps another. -/
  attributes_apart : e.attributes.Pairwise fun a b => a.span.stop ≤ b.span.start
  /-- Its texts. -/
  content : ∀ c ∈ e.content, c.Spelled index
  /-- Its start tag starts with it, and no attribute reaches out of it. -/
  startTag : ∀ tag ∈ e.startTag, tag.start = e.span.start ∧
    ∀ a ∈ e.attributes, tag.start ≤ a.span.start ∧ a.span.stop ≤ tag.stop
  /-- Its end tag comes after a start tag, and ends with it. -/
  endTag : ∀ tag ∈ e.endTag, ∃ opening ∈ e.startTag, opening.stop ≤ tag.start ∧
    tag.stop = e.span.stop

/-- **A document is spelled in the text**: all its elements are. -/
def Document.Spelled (index : Index) (document : Document) : Prop :=
  ∀ e ∈ document.elements, e.Spelled index

/-- A written attribute is spelled in the bytes of the text, its name and its value. -/
theorem Attribute.Written.spelled {a : Attribute} (h : a.Written index) (lined : index.Lined) :
    a.Spelled index where
  name := h.name.spells lined
  value := h.value.spells lined
  start_le := h.start_le
  name_le := h.name_le
  le_stop := h.le_stop

/-- So is a written piece of content. -/
theorem Content.Written.spelled {c : Content} (h : c.Written index) (lined : index.Lined) :
    c.Spelled index := by
  cases c with
  | element id => trivial
  | text run span => exact Index.Holds.spells h lined
  | cdata run span => exact Index.Holds.spells h lined
  | comment run span => trivial

/-- So is a written element: its name, its attributes and its content. -/
theorem Element.Written.spelled (h : e.Written index) (lined : index.Lined) : e.Spelled index where
  name := h.name.spells lined
  attributes := fun a ha => (h.attributes a ha).spelled lined
  attributes_after := fun a ha => (h.row.inside (List.mem_map_of_mem ha)).1
  attributes_apart := List.pairwise_map.mp h.row.apart
  content := fun c hc => (h.content c hc).spelled lined
  startTag := fun tag htag => by
    have hrow := h.row
    rw [Element.tagStop, Option.mem_def.mp htag] at hrow
    refine ⟨(h.startTag tag htag).1, fun a ha => ?_⟩
    obtain ⟨hstart, hstop⟩ := hrow.inside (List.mem_map_of_mem ha)
    have := h.start_lt
    have := h.name.start_le
    have := (h.startTag tag htag).1
    exact ⟨by omega, hstop⟩
  endTag := fun tag htag => by
    obtain ⟨hopen, hle, -, hstop⟩ := h.endTag tag htag
    obtain ⟨opening, hopening⟩ := Option.isSome_iff_exists.mp hopen
    rw [Element.tagStop, hopening] at hle
    exact ⟨opening, hopening, hle, hstop⟩

/-- **Every document is spelled in its text**, however broken that is. -/
theorem readDocument_spelled (text : String) :
    (readDocument (Index.ofText text)).1.Spelled (Index.ofText text) := by
  intro e he
  obtain ⟨i, hi, rfl⟩ := Array.mem_iff_getElem.mp he
  exact ((kept_readDocument _).written (Array.getElem?_eq_getElem hi)).spelled
    (Index.lined_ofText text)

end Markup

end ProjectLens
