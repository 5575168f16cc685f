import Mathlib.Data.List.TakeWhile
import ProjectLens.Proofs.Containment
import ProjectLens.Proofs.Places

/-! # The shapes of elements

Whether the parts of an element can be told apart is found out by comparing ranges, with all of the
element in place of a part that is missing. Of an element with an end tag no part is missing, and both
of its tags take up room, so the comparison finds nothing but blank names. What is left are elements
without an end tag, which are told apart by what closes them.

* `trimBlank_eq_nil_iff`: nothing is left of blanks, and of nothing else;
* `Markup.Element.Written.closedShape_eq`: the shape of an element with an end tag;
* `Markup.Element.Shaped`: the shape by what the element has; `Markup.Element.Written.shaped`;
* `Model.Classified`, `Snapshot.classified_ofText`: what holds of the nodes of every text. -/

namespace ProjectLens

variable {index : Index}

/-! ## Blank names -/

/-- **Trimming leaves nothing just of blanks.** -/
theorem trimBlank_eq_nil_iff {chars : List Char} :
    trimBlank chars = [] ↔ ∀ c ∈ chars, isBlank c = true := by
  rw [trimBlank, trimBack, List.reverse_eq_nil_iff, List.dropWhile_eq_nil_iff]
  constructor
  · intro h c hc
    by_cases hrest : c ∈ chars.dropWhile isBlank
    · exact h c (List.mem_reverse.mpr hrest)
    · rw [← List.takeWhile_append_dropWhile (p := isBlank) (l := chars), List.mem_append] at hc
      exact List.all_eq_true.mp List.all_takeWhile c (hc.resolve_right hrest)
  · intro h c hc
    exact h c ((List.dropWhile_sublist _).subset (List.mem_reverse.mp hc))

/-- `isBlankText text = true ↔ trimBlank text.toList = []`. -/
theorem isBlankText_iff {text : String} : isBlankText text = true ↔ trimBlank text.toList = [] := by
  rw [isBlankText, List.all_eq_true, trimBlank_eq_nil_iff]

/-! ## Ranges of tags -/

namespace Index

variable {span : Span}

/-- The range of a span that is the right way round. -/
theorem spanToRange_eq (hle : span.start ≤ span.stop) : index.spanToRange span =
    ⟨index.positionAt span.start, index.positionAt span.stop⟩ := by
  rw [spanToRange, Nat.max_eq_right hle]

end Index

/-! ## Elements -/

namespace Markup.Element

variable {e : Element} {opening closing : Span}

/-- **The tags of an element** stand at its ends, in order, and neither of them is empty. -/
theorem Written.tag_offsets (h : e.Written index) (hopening : e.startTag = some opening)
    (hclosing : e.endTag = some closing) :
    opening.start = e.span.start ∧ opening.start < opening.stop ∧ opening.stop ≤ closing.start ∧
      closing.start < closing.stop ∧ closing.stop = e.span.stop := by
  obtain ⟨hstart, -⟩ := h.startTag opening hopening
  obtain ⟨-, hle, hfilled, hstop⟩ := h.endTag closing hclosing
  have hroom := h.start_lt_tagStop
  have htag : e.tagStop = opening.stop := by
    rw [tagStop, hopening]
    rfl
  rw [htag] at hle hroom
  exact ⟨hstart, by omega, hle, hfilled, hstop⟩

/-- **The parts of an element with an end tag are told apart**, if its name is not blank. -/
theorem Written.closedShape_eq (h : e.Written index) (lined : index.Lined)
    (hlength : e.span.stop ≤ index.length) (hname : isBlankText e.name = false)
    (hopening : e.startTag = some opening) (hclosing : e.endTag = some closing) :
    closedShape index e closing = .withContent (index.spanToRange opening)
      ⟨index.positionAt opening.stop, index.positionAt closing.start⟩
      (index.spanToRange closing) := by
  obtain ⟨hstart, hopens, hle, hcloses, hstop⟩ := h.tag_offsets hopening hclosing
  have hwhole : index.spanToRange e.span =
      ⟨index.positionAt opening.start, index.positionAt closing.stop⟩ := by
    rw [index.spanToRange_eq (Nat.le_of_lt h.start_lt_stop), hstart, hstop]
  -- positions tell apart the offsets at which tags start and end
  have hfirst := lined.positionAt_lt hopens (by omega)
  have hbetween := index.positionAt_mono hle
  have hlast := lined.positionAt_lt hcloses (by omega)
  rw [closedShape, openingRange, hopening, Option.getD_some, hwhole,
    index.spanToRange_eq (Nat.le_of_lt hopens), index.spanToRange_eq (Nat.le_of_lt hcloses)]
  simp only [if_pos hbetween, hname]
  refine if_neg ?_
  simp only [Range.mk.injEq]
  grind

/-- An element that closes itself is empty, or invalid if it has no name. -/
theorem shape_of_selfClosing (h : e.selfClosing = true) : (shapeOf index e).1 =
    if isBlankText e.name then .invalid false else .empty := by
  rw [shapeOf, if_pos h]

/-- An element left open is invalid. -/
theorem shape_of_unclosed (h : e.selfClosing = false) (hend : e.endTag = none) :
    (shapeOf index e).1 = .invalid false := by
  rw [shapeOf, h, hend]
  rfl

/-- An element with an end tag has the shape its content gives. -/
theorem shape_of_endTag (h : e.selfClosing = false) (hend : e.endTag = some closing) :
    (shapeOf index e).1 = closedShape index e closing := by
  rw [shapeOf, h, hend]
  rfl

/-- **What shapes elements have**, by their names and by what closes them. -/
inductive Shaped (index : Index) (e : Element) : Shape → Prop where
  /-- The name is blank. -/
  | blank (name : trimBlank e.name.toList = []) (hasContent : Bool) :
      Shaped index e (.invalid hasContent)
  /-- The start tag closes the element. -/
  | empty (name : trimBlank e.name.toList ≠ []) (closes : e.selfClosing = true)
      (endTag : e.endTag = none) : Shaped index e .empty
  /-- An end tag closes the element, and comes after the start tag. -/
  | withContent {opening closing : Span} (name : trimBlank e.name.toList ≠ [])
      (closes : e.selfClosing = false) (startTag : e.startTag = some opening)
      (endTag : e.endTag = some closing) :
      Shaped index e (.withContent (index.spanToRange opening)
        ⟨index.positionAt opening.stop, index.positionAt closing.start⟩ (index.spanToRange closing))
  /-- Nothing closes the element. -/
  | unclosed (name : trimBlank e.name.toList ≠ []) (closes : e.selfClosing = false)
      (endTag : e.endTag = none) : Shaped index e (.invalid false)

/-- **Every element has its shape.** -/
theorem Written.shaped (h : e.Written index) (lined : index.Lined)
    (hlength : e.span.stop ≤ index.length) (closed : e.selfClosing = true → e.endTag = none) :
    Shaped index e (shapeOf index e).1 := by
  by_cases hname : trimBlank e.name.toList = []
  · -- a blank name goes before all else
    have hblank : isBlankText e.name = true := isBlankText_iff.mpr hname
    cases hcloses : e.selfClosing with
    | true =>
      rw [shape_of_selfClosing hcloses, hblank]
      exact .blank hname false
    | false =>
      cases hend : e.endTag with
      | none =>
        rw [shape_of_unclosed hcloses hend]
        exact .blank hname false
      | some closing =>
        have hshape : closedShape index e closing = .invalid true := by simp [closedShape, hblank]
        rw [shape_of_endTag hcloses hend, hshape]
        exact .blank hname true
  · -- then how it was closed decides
    have hblank : isBlankText e.name = false := Bool.eq_false_iff.mpr (mt isBlankText_iff.mp hname)
    cases hcloses : e.selfClosing with
    | true =>
      rw [shape_of_selfClosing hcloses, hblank]
      exact .empty hname hcloses (closed hcloses)
    | false =>
      cases hend : e.endTag with
      | none =>
        rw [shape_of_unclosed hcloses hend]
        exact .unclosed hname hcloses hend
      | some closing =>
        obtain ⟨hopen, -⟩ := h.endTag closing hend
        obtain ⟨opening, hopening⟩ := Option.isSome_iff_exists.mp hopen
        rw [shape_of_endTag hcloses hend, h.closedShape_eq lined hlength hblank hopening hend]
        exact .withContent hname hcloses hopening hend

end Markup.Element

/-! ## Nodes -/

namespace Model

open Markup.Element

variable {document : Markup.Document} {e : Markup.Element} {n : Node} {shape : Shape}

/-- **The shape of a node tells what its element has.** -/
structure Tells (e : Markup.Element) (n : Node) (shape : Shape) : Prop where
  /-- The node is valid just if the element is closed and its name is not blank. -/
  valid_iff : n.isValid = true ↔ e.isClosed = true ∧ trimBlank e.name.toList ≠ []
  /-- An empty element is one that its start tag closes. -/
  empty_iff : trimBlank e.name.toList ≠ [] → (shape = .empty ↔ e.selfClosing = true)
  /-- An element with content is one that has an end tag. -/
  withContent_iff : trimBlank e.name.toList ≠ [] →
    ((∃ opening content closing, shape = .withContent opening content closing) ↔
      e.endTag.isSome = true)
  /-- The tags and the content between them stand end to end from the start of the node to its end, and
  neither tag is empty. -/
  tiles : ∀ opening content closing, shape = .withContent opening content closing →
    opening.start = n.range.start ∧ opening.start < opening.stop ∧
      opening.stop = content.start ∧ content.start ≤ content.stop ∧
      content.stop = closing.start ∧ closing.start < closing.stop ∧ closing.stop = n.range.stop
  /-- The parts of an element with content can be told apart. -/
  ne_invalid : trimBlank e.name.toList ≠ [] → shape ≠ .invalid true

/-- The shape of an element tells what it has. -/
theorem tells_of_shaped (h : Shaped index e shape) (hwritten : e.Written index) (lined : index.Lined)
    (hlength : e.span.stop ≤ index.length) (hvalid : n.isValid = shape.isValid)
    (hrange : e.endTag.isSome = true → n.range = index.spanToRange e.span) : Tells e n shape := by
  cases h with
  | blank hname hasContent =>
    refine ⟨?_, fun hne => absurd hname hne, fun hne => absurd hname hne, ?_,
      fun hne => absurd hname hne⟩
    · simp [hvalid, Shape.isValid, hname]
    · rintro _ _ _ ⟨⟩
  | empty hname hcloses hend =>
    refine ⟨?_, ?_, ?_, ?_, ?_⟩
    · simp [hvalid, Shape.isValid, Markup.Element.isClosed, hcloses, hname]
    · simp [hcloses]
    · simp [hend]
    · rintro _ _ _ ⟨⟩
    · simp
  | @withContent opening closing hname hcloses hopening hend =>
    refine ⟨?_, ?_, ?_, ?_, ?_⟩
    · simp [hvalid, Shape.isValid, Markup.Element.isClosed, hend, hname]
    · simp [hcloses]
    · simp [hend]
    · rintro _ _ _ ⟨⟩
      -- the three ranges are those of the start tag, of the content and of the end tag
      obtain ⟨hstart, hopens, hle, hfilled, hstop⟩ := hwritten.tag_offsets hopening hend
      rw [hrange (by rw [hend]; rfl), index.spanToRange_eq (Nat.le_of_lt hwritten.start_lt_stop),
        index.spanToRange_eq (Nat.le_of_lt hopens), index.spanToRange_eq (Nat.le_of_lt hfilled),
        hstart, hstop]
      rw [hstart] at hopens
      rw [hstop] at hfilled
      exact ⟨rfl, lined.positionAt_lt hopens (by omega), rfl, index.positionAt_mono hle, rfl,
        lined.positionAt_lt hfilled hlength, rfl⟩
    · simp
  | unclosed hname hcloses hend =>
    refine ⟨?_, ?_, ?_, ?_, ?_⟩
    · simp [hvalid, Shape.isValid, Markup.Element.isClosed, hcloses, hend]
    · simp [hcloses]
    · simp [hend]
    · rintro _ _ _ ⟨⟩
    · simp

/-- **The nodes of elements are classified** by what their elements have. The element of a node is the
one that starts with it. -/
structure Classified (document : Markup.Document) (model : Model) : Prop where
  /-- The node of an element has one. -/
  exists_element : ∀ {i : Nat} {n : Node} {own : ElementPart}, model.get? i = some n →
    n.part = .element own → ∃ j e, document.get? j = some e ∧ e.span.start = n.span.start
  /-- It has the name of the element, and its shape tells what the element has. -/
  tells : ∀ {i j : Nat} {n : Node} {own : ElementPart} {e : Markup.Element},
    model.get? i = some n → n.part = .element own → document.get? j = some e →
      e.span.start = n.span.start → own.name = e.name ∧ Tells e n own.shape

/-- **The nodes of the elements of a document are classified.** -/
theorem classified_ofDocument (lined : index.Lined)
    (kept : Markup.Kept index document.elements document.roots [] index.length)
    (closed : ∀ {j : Nat} {e : Markup.Element}, document.get? j = some e → e.selfClosing = true →
      e.endTag = none) : (ofDocument document index).Classified document := by
  constructor
  · intro i n own hn hpart
    obtain ⟨j, e, he, hdepicts, -⟩ := exists_depicts hn hpart
    refine ⟨j, e, he, ?_⟩
    rw [hdepicts.span_eq, (kept.written he).span_shapeOf.1]
  · intro i j n own e hn hpart he hstart
    obtain ⟨k, other, hother, hdepicts, rfl⟩ := exists_depicts hn hpart
    rw [hdepicts.span_eq, (kept.written hother).span_shapeOf.1] at hstart
    -- no two elements start at the same place
    obtain rfl : j = k := by
      rcases Nat.lt_trichotomy j k with hlt | heq | hlt
      · have := kept.linked.start_lt he hother hlt
        omega
      · exact heq
      · have := kept.linked.start_lt hother he hlt
        omega
    obtain rfl : e = other := Option.some.inj (he.symm.trans hother)
    have hwritten := kept.written he
    have hlength := (kept.settled_of_get he).stop_le
    refine ⟨rfl, tells_of_shaped (hwritten.shaped lined hlength (closed he)) hwritten lined hlength
      ?_ fun hend => ?_⟩
    · rw [Node.isValid, hdepicts.part_eq]
    · obtain ⟨closing, hclosing⟩ := Option.isSome_iff_exists.mp hend
      rw [(numbered_ofDocument document index).range_eq hn, hdepicts.span_eq,
        Markup.shapeOf_of_endTag hclosing]

end Model

/-- An element that its start tag closes has no end tag. -/
theorem Markup.endTag_of_selfClosing {i : Nat} {e : Element} (lined : index.Lined)
    (he : (readDocument index).1.get? i = some e) (hclosing : e.selfClosing = true) :
    e.endTag = none := by
  obtain ⟨diagnostics, -, reported⟩ := reported_readDocument lined
  cases reported.settles he List.not_mem_nil with
  | selfClosing closes endTag content silent => exact endTag
  | ended closes endTag silent => cases closes.symm.trans hclosing
  | unclosed closes endTag told => exact endTag
  | salvaged closes startTag endTag attributes content told isError placed => exact endTag

/-- **The elements of every text are classified by what they have**, however broken it is. -/
theorem Snapshot.classified_ofText (text : String) :
    (Snapshot.ofText text).model.Classified (Snapshot.ofText text).document :=
  Model.classified_ofDocument (Index.lined_ofText text) (Markup.kept_readDocument _)
    (Markup.endTag_of_selfClosing (Index.lined_ofText text))

end ProjectLens
