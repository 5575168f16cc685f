import Mathlib.Logic.Basic
import ProjectLens.Proofs.Shapes
import ProjectLens.Proofs.UnderCursor

/-! # The parts of a node under a position

Every flag is found out from a span of its own, some of which hold their ends and some do not. In a
document these spans stand in a row: name, attributes and the rest of the start tag, then the content,
then the end tag. So on an element whose tags can be told apart no place is left out, and the only place
with two flags is the one where the content ends and the end tag starts.

* `Flags.Parted`: what the flags say on an element with content;
* `Spot.Classified`: what the flags of a spot say of its node;
* `Snapshot.start_le_of_inspect`: a spot is never before its node;
* `Snapshot.inspect_classified`: the flags of every spot of every text. -/

namespace ProjectLens

/-! ## What flags say -/

/-- **What the flags say on an element with content**, at an offset that is not before the element. -/
structure Flags.Parted (flags : Flags) (opening closing : Span) (offset : Nat) : Prop where
  /-- Before the end of the start tag it is the start tag. -/
  openingTag_iff : flags.has .openingTag = true ↔ offset < opening.stop
  /-- From there on to the start of the end tag, that included, it is the value. -/
  value_iff : flags.has .value = true ↔ opening.stop ≤ offset ∧ offset ≤ closing.start
  /-- In the end tag it is the end tag. -/
  closingTag_iff : flags.has .closingTag = true ↔ closing.contains offset = true
  /-- Before the end of the element it is either the start tag, or the value or the end tag. -/
  exactly_one : offset < closing.stop → Xor (flags.has .openingTag = true)
    (flags.has .value = true ∨ flags.has .closingTag = true)
  /-- It is both value and end tag just where the end tag starts. -/
  value_and_closingTag_iff : flags.has .value = true ∧ flags.has .closingTag = true ↔
    offset = closing.start
  /-- The name and the attributes are in the start tag. -/
  openingTag_of_inside : flags.has .name = true ∨ flags.has .attributes = true →
    flags.has .openingTag = true

/-- **What the flags of a spot say of its node.** -/
structure Spot.Classified (spot : Spot) : Prop where
  /-- An element with content has both tags, at its ends, and the flags tell its parts apart. -/
  parted : ∀ own opening content closing, spot.node.part = .element own →
    own.shape = .withContent opening content closing →
    ∃ startTag endTag, own.startTag = some startTag ∧ own.endTag = some endTag ∧
      startTag.start = spot.node.span.start ∧ startTag.stop ≤ endTag.start ∧
      endTag.start < endTag.stop ∧ endTag.stop = spot.node.span.stop ∧
      spot.flags.Parted startTag endTag spot.offset
  /-- No place of an element is both in its name and among its attributes. -/
  name_or_attributes : ∀ own, spot.node.part = .element own →
    ¬ (spot.flags.has .name = true ∧ spot.flags.has .attributes = true)
  /-- No place of an attribute is both in its name and in its value. -/
  name_or_value : ∀ attr, spot.node.part = .attribute attr →
    ¬ (spot.flags.has .name = true ∧ spot.flags.has .value = true)
  /-- What is not valid is said to be so, and nothing else is. -/
  invalid_iff : spot.flags.has .invalid = true ↔ spot.node.isValid = false
  /-- Texts are said to be texts, and nothing else is. -/
  text_iff : spot.flags.has .text = true ↔ ∃ run, spot.node.part = .text run
  /-- Blanks are said to be blanks, and nothing else is. -/
  whitespace_iff : spot.flags.has .whitespace = true ↔ ∃ run, spot.node.part = .whitespace run
  /-- Attributes are said to be attributes, and nothing else is. -/
  attribute_iff : spot.flags.has .attribute = true ↔ ∃ attr, spot.node.part = .attribute attr

/-! ## One node -/

/-- `flags.has flag = true ↔ flag ∈ flags.members`. -/
theorem Flags.has_iff {flags : Flags} {flag : Flag} : flags.has flag = true ↔ flag ∈ flags.members := by
  rw [has, List.contains_iff_mem]

section Classify

variable {node : Node} {own : ElementPart} {attr : AttributePart} {offset : Nat} {flag : Flag}
  {opening closing : Span}

/-- **The flags of an element.** -/
theorem has_classify_element (hpart : node.part = .element own) :
    (classify node offset).has flag = true ↔
      (node.isValid = false ∧ flag = .invalid) ∨ flag = .element ∨
        (own.nameSpan.contains offset = true ∧ flag = .name) ∨
        (own.attributesSpan.any (·.contains offset) = true ∧ flag = .attributes) ∨
        flag ∈ classifyShape own offset := by
  rw [Flags.has_iff, classify, hpart]
  simp [Flag.mem_when]

/-- **The flags of an attribute.** -/
theorem has_classify_attribute (hpart : node.part = .attribute attr) :
    (classify node offset).has flag = true ↔
      (node.isValid = false ∧ flag = .invalid) ∨ flag = .attribute ∨
        (attr.nameSpan.contains offset = true ∧ flag = .name) ∨
        (attr.valueSpan.touches offset = true ∧ flag = .value) := by
  rw [Flags.has_iff, classify, hpart]
  simp [Flag.mem_when]

/-- What is said of the structure of an element is about its tags and what is between them. -/
theorem of_mem_classifyShape (h : flag ∈ classifyShape own offset) :
    flag = .openingTag ∨ flag = .closingTag ∨ flag = .value ∨ flag = .empty := by
  unfold classifyShape at h
  split at h
  · exact .inr (.inr (.inr (List.mem_singleton.mp h)))
  · cases h
  · simp only [List.mem_append, Flag.mem_when] at h
    grind

/-- **What is said of a node wherever the offset is**: that it is not valid, and what kind of node it
is. -/
theorem has_classify_kind (node : Node) (offset : Nat) :
    ((classify node offset).has .invalid = true ↔ node.isValid = false) ∧
      ((classify node offset).has .text = true ↔ ∃ run, node.part = .text run) ∧
      ((classify node offset).has .whitespace = true ↔ ∃ run, node.part = .whitespace run) ∧
      ((classify node offset).has .attribute = true ↔ ∃ attr, node.part = .attribute attr) := by
  rcases hpart : node.part with own | attr | run | run
  · have hshape {flag : Flag} : flag ∈ classifyShape own offset → _ := of_mem_classifyShape
    refine ⟨?_, ?_, ?_, ?_⟩
    all_goals
      rw [has_classify_element hpart]
      grind
  · refine ⟨?_, ?_, ?_, ?_⟩
    all_goals
      rw [has_classify_attribute hpart]
      grind
  · simp [Flags.has_iff, classify, hpart, Flag.mem_when]
  · simp [Flags.has_iff, classify, hpart, Flag.mem_when]

/-- An element's flag for the name is set within its name. -/
theorem has_classify_name_of_element (hpart : node.part = .element own) :
    (classify node offset).has .name = true ↔ own.nameSpan.contains offset = true := by
  have hshape : .name ∈ classifyShape own offset → _ := of_mem_classifyShape
  rw [has_classify_element hpart]
  grind

/-- Its flag for the attributes is set within their block. -/
theorem has_classify_attributes (hpart : node.part = .element own) :
    (classify node offset).has .attributes = true ↔
      ∃ block ∈ own.attributesSpan, block.contains offset = true := by
  have hshape : .attributes ∈ classifyShape own offset → _ := of_mem_classifyShape
  rw [has_classify_element hpart, Option.any_eq_true]
  grind [Option.mem_def]

/-- The flags that tell the parts of an element with content apart. -/
theorem mem_classifyShape {first content last : Range}
    (hshape : own.shape = .withContent first content last)
    (hopening : own.startTag = some opening) (hclosing : own.endTag = some closing) :
    flag ∈ classifyShape own offset ↔
      (opening.contains offset = true ∧ flag = .openingTag) ∨
        (closing.contains offset = true ∧ flag = .closingTag) ∨
        ((opening.stop ≤ offset ∧ offset ≤ closing.start) ∧ flag = .value) := by
  rw [classifyShape, hshape, hopening, hclosing]
  simp [Flag.mem_when]

/-- **The parts of an element with content are told apart**: its tags stand in order, with the name and
the attributes in the first one. -/
theorem parted_classify {first content last : Range} (hpart : node.part = .element own)
    (hshape : own.shape = .withContent first content last)
    (hopening : own.startTag = some opening) (hclosing : own.endTag = some closing)
    (horder : opening.stop ≤ closing.start) (hfilled : closing.start < closing.stop)
    (hname : own.nameSpan.stop ≤ opening.stop)
    (hblock : ∀ block ∈ own.attributesSpan, block.stop ≤ opening.stop)
    (hstart : opening.start ≤ offset) : (classify node offset).Parted opening closing offset := by
  have htag : (classify node offset).has .openingTag = true ↔ offset < opening.stop := by
    rw [has_classify_element hpart, mem_classifyShape hshape hopening hclosing]
    simp [Span.contains, hstart]
  have hvalue : (classify node offset).has .value = true ↔
      opening.stop ≤ offset ∧ offset ≤ closing.start := by
    rw [has_classify_element hpart, mem_classifyShape hshape hopening hclosing]
    simp
  have hend : (classify node offset).has .closingTag = true ↔ closing.contains offset = true := by
    rw [has_classify_element hpart, mem_classifyShape hshape hopening hclosing]
    simp
  have hinside : closing.contains offset = true ↔ closing.start ≤ offset ∧ offset < closing.stop :=
    decide_eq_true_iff
  -- the three regions are now three intervals
  refine ⟨htag, hvalue, hend, ?_, ?_, ?_⟩
  · intro hstop
    rw [htag, hvalue, hend, hinside, xor_def]
    omega
  · rw [hvalue, hend, hinside]
    omega
  · rw [htag, has_classify_name_of_element hpart, has_classify_attributes hpart]
    rintro (hon | ⟨block, hmem, hon⟩)
    · have hlt := (of_decide_eq_true hon).2
      omega
    · have hlt := (of_decide_eq_true hon).2
      have hstop := hblock block hmem
      omega

end Classify

/-! ## Where nodes stand -/

/-- A position counted from one is not after its own place, which has no number below one. -/
theorem Position.le_place {p q : Position} (h : p.toOneBased = .ok q) :
    q ≤ ⟨q.toZeroBased.line + 1, q.toZeroBased.column + 1, .one⟩ := by
  have hbasis : q.basis = .one := by
    unfold toOneBased at h
    split at h
    · next hone =>
      cases h
      exact hone
    · split at h
      · cases h
        rfl
      · cases h
  rw [le_iff, toZeroBased, hbasis]
  simp only [Nat.le_refl, and_true]
  omega

namespace Snapshot

variable {text : String} {p : Position} {spot : Spot} {own : ElementPart} {attr : AttributePart}
  {n : Node}

/-- **A spot is never before its node**, also where its position has a number less than its basis
allows. -/
theorem start_le_of_inspect (h : (ofText text).inspect p = .ok (some spot)) :
    spot.node.span.start ≤ spot.offset := by
  have sited := sited_ofText text
  obtain ⟨hp, hoffset, ⟨hmem, hcontains, -⟩, -⟩ := spot_of_inspect h
  obtain ⟨hle, hposition⟩ := sited.lined.positionAt_of_toOffset hoffset
  obtain ⟨hstart, -⟩ := Range.contains_iff.mp hcontains
  -- the position of the offset is no less in either number
  have hafter : spot.position ≤ (ofText text).index.positionAt spot.offset := by
    rw [hposition]
    exact Position.le_place hp
  have hfilled := sited.filled hmem
  have hstop := sited.stop_le hmem
  rw [sited.range_eq hmem] at hstart
  apply (sited.lined.positionAt_le_iff (by omega) hle).mp
  exact Std.le_trans hstart hafter

/-- **The tags of an element with content** stand at its ends, in order, with its name and its
attributes in the first one. -/
theorem exists_tags {first content last : Range} (hn : n ∈ (ofText text).model.nodes.toList)
    (hpart : n.part = .element own) (hshape : own.shape = .withContent first content last) :
    ∃ opening closing, own.startTag = some opening ∧ own.endTag = some closing ∧
      opening.start = n.span.start ∧ opening.stop ≤ closing.start ∧
      closing.start < closing.stop ∧ closing.stop = n.span.stop ∧
      own.nameSpan.stop ≤ opening.stop ∧ ∀ block ∈ own.attributesSpan, block.stop ≤ opening.stop := by
  have kept := Markup.kept_readDocument (Index.ofText text)
  have lined := Index.lined_ofText text
  have hstems := Model.stemsFrom_ofDocument hn
  rw [hpart] at hstems
  generalize n.span = span at hstems ⊢
  -- only the draft of an element has the part of one
  cases hstems with
  | @ofElement i e he =>
    have hwritten := kept.written he
    have hshaped := hwritten.shaped lined (kept.settled_of_get he).stop_le
      (Markup.endTag_of_selfClosing lined he)
    rw [show (shapeOf (Index.ofText text) e).1 = _ from hshape] at hshaped
    cases hshaped with
    | @withContent opening closing hname hcloses hopening hclosing =>
      obtain ⟨hstart, hopens, hle, hfilled, hstop⟩ := hwritten.tag_offsets hopening hclosing
      -- the name and the attributes end where the start tag does
      have htag : e.tagStop = opening.stop := by
        rw [Markup.Element.tagStop, hopening]
        rfl
      have hrow := hwritten.row.le
      have hblock := hwritten.attributesSpan
      rw [htag] at hrow hblock
      rw [Markup.shapeOf_of_endTag hclosing]
      exact ⟨opening, closing, hopening, hclosing, hstart, hle, hfilled, hstop, hrow,
        fun block hmem => (hblock block hmem).2⟩

/-- The attributes of an element come after its name. -/
theorem name_le_attributes (hn : n ∈ (ofText text).model.nodes.toList)
    (hpart : n.part = .element own) : ∀ block ∈ own.attributesSpan, own.nameSpan.stop ≤ block.start := by
  have hstems := Model.stemsFrom_ofDocument hn
  rw [hpart] at hstems
  generalize n.span = span at hstems
  cases hstems with
  | ofElement he =>
    intro block hmem
    exact (((Markup.kept_readDocument (Index.ofText text)).written he).attributesSpan block hmem).1

/-- The value of an attribute comes after its name. -/
theorem name_le_value (hn : n ∈ (ofText text).model.nodes.toList)
    (hpart : n.part = .attribute attr) : attr.nameSpan.stop ≤ attr.valueSpan.start := by
  have hstems := Model.stemsFrom_ofDocument hn
  rw [hpart] at hstems
  generalize n.span = span at hstems
  cases hstems with
  | ofAttribute a he ha =>
    exact (((Markup.kept_readDocument (Index.ofText text)).written he).attributes a ha).name_le

/-! ## Spots -/

/-- **The flags of every spot tell the parts of its node apart**, in every text and at every
position. -/
theorem inspect_classified (h : (ofText text).inspect p = .ok (some spot)) : spot.Classified := by
  obtain ⟨-, -, ⟨hmem, -, -⟩, hflags⟩ := spot_of_inspect h
  have hstart := start_le_of_inspect h
  obtain ⟨hinvalid, htext, hwhitespace, hattribute⟩ := has_classify_kind spot.node spot.offset
  constructor
  case parted =>
    intro own first content last hpart hshape
    obtain ⟨opening, closing, hopening, hclosing, hfirst, horder, hfilled, hlast, hname, hblock⟩ :=
      exists_tags hmem hpart hshape
    refine ⟨opening, closing, hopening, hclosing, hfirst, horder, hfilled, hlast, ?_⟩
    rw [hflags]
    rw [← hfirst] at hstart
    exact parted_classify hpart hshape hopening hclosing horder hfilled hname hblock hstart
  case name_or_attributes =>
    intro own hpart
    rw [hflags, has_classify_name_of_element hpart, has_classify_attributes hpart]
    rintro ⟨hname, block, hblock, hon⟩
    -- the name ends where the attributes have not begun
    have hafter := name_le_attributes hmem hpart block hblock
    have hlt := (of_decide_eq_true hname).2
    have hle := (of_decide_eq_true hon).1
    omega
  case name_or_value =>
    intro attr hpart
    rw [hflags, has_classify_attribute hpart, has_classify_attribute hpart]
    rintro ⟨hname, hvalue⟩
    have hafter := name_le_value hmem hpart
    have hin : attr.nameSpan.contains spot.offset = true := by simpa using hname
    have hon : attr.valueSpan.touches spot.offset = true := by simpa using hvalue
    have hlt := (of_decide_eq_true hin).2
    have hle := (of_decide_eq_true hon).1
    omega
  case invalid_iff => rw [hflags]; exact hinvalid
  case text_iff => rw [hflags]; exact htext
  case whitespace_iff => rw [hflags]; exact hwhitespace
  case attribute_iff => rw [hflags]; exact hattribute

/-- Where an element without content has its end tag, it has its value too. -/
theorem inspect_classified_endTag :
    ∃ spot, (ofText "<a></a>").inspect ⟨1, 4, .one⟩ = .ok (some spot) ∧ spot.Classified ∧
      spot.flags.listed = [.element, .closingTag, .value] := by
  obtain ⟨node, hnode, -, hinspect⟩ := exists_at "<a></a>"
    (show (⟨1, 4, .one⟩ : Position).toOneBased = .ok _ from rfl)
  -- there is one node, and it is found
  have hfind : (ofText "<a></a>").lookup.find ⟨1, 4, .one⟩ = .ok (some 0) := by
    show (ofText "<a></a>").model.lookup.find _ = _
    rw [Lookup.find_eq _ rfl, Model.lookup, Lookup.ofOneBased, List.mergeSort_of_pairwise]
    · decide +kernel
    · decide +kernel
  rw [nodeAt, hfind] at hnode
  cases hnode
  have hlisted : ((ofText "<a></a>").inspect ⟨1, 4, .one⟩).toOption.join.map (·.flags.listed) =
      some [.element, .closingTag, .value] := by
    rw [hinspect]
    decide +kernel
  cases h : (ofText "<a></a>").inspect ⟨1, 4, .one⟩ with
  | error problem =>
    rw [h] at hlisted
    cases hlisted
  | ok place =>
    cases place with
    | none =>
      rw [h] at hlisted
      cases hlisted
    | some spot =>
      rw [h] at hlisted
      exact ⟨spot, rfl, inspect_classified h, Option.some.inj hlisted⟩

end Snapshot

end ProjectLens
