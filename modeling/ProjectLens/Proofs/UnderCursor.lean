import ProjectLens.Proofs.Deepest
import ProjectLens.Proofs.Innermost
import ProjectLens.Proofs.Origins

/-! # The expression under a cursor

An expression is parsed from the text of a node, or from the value of an attribute, with offsets of its
own. What is found under a cursor still refers to the document: the cursor is in what was parsed, and
every node of the tree has a place in the node the expression was taken from.

* `Node.Stands`: where expressions stand in a node;
* `ExprTree.rangeOf_eq`: the place of a node of a tree;
* `Found.Coherent`: what is found agrees with the document;
* `Snapshot.expressionAt_coherent`: it always does. -/

namespace ProjectLens

/-- **Where an expression stands in a node**: it is all of a text, or the value of an attribute. -/
inductive Node.Stands (n : Node) : Span → Prop where
  /-- The node is a text. -/
  | text {run : String} : n.part = .text run → Stands n n.span
  /-- The node is an attribute. -/
  | value {attr : AttributePart} : n.part = .attribute attr → Stands n attr.valueSpan

/-- **What is found under a cursor agrees with the document.** The cursor is at `position` and
`offset`, and the expression was read from `span`. -/
structure Found.Coherent (found : Found) (s : Snapshot) (position : Position) (offset : Nat)
    (span : Span) : Prop where
  /-- The expression stands in a node of the document. -/
  source_mem : found.source ∈ s.model.nodes.toList
  /-- It is all of a text, or the value of an attribute. -/
  stands : found.source.Stands span
  /-- The cursor is in that text or value, or at its end. -/
  touches : span.touches offset = true
  /-- The expression starts where the text or value does. -/
  base_eq : found.base = span.start
  /-- The cursor is not before it. -/
  base_le : found.base ≤ offset
  /-- What was parsed is what is written there. -/
  result_eq : found.result = parseAs found.form (s.index.slice span)
  /-- The cursor is not after it. -/
  le_stop : offset ≤ found.base + (s.index.slice span).length
  /-- What is not a condition has a tree, with a node at the cursor. -/
  present : found.form ≠ .root → found.tree?.isSome = true ∧ found.node.isSome = true
  /-- The node at the cursor is one of the tree's. -/
  node_mem : ∀ node ∈ found.node, ∃ tree ∈ found.tree?, node ∈ tree.nodes
  /-- Every node of the tree has a place in the document, inside of the node the expression stands
  in. -/
  inside : ∀ tree ∈ found.tree?, ∀ node ∈ tree.nodes, ∃ range,
    found.rangeOf s.index node = .ok range ∧ found.source.range.containsRange range = true
  /-- The place of the node at the cursor contains the cursor. -/
  at_cursor : ∀ node ∈ found.node, ∃ range,
    found.rangeOf s.index node = .ok range ∧ range.contains position = true

/-! ## Places of expression nodes -/

/-- **The place of a node of a tree** that stands in the document is that of its characters there. -/
theorem ExprTree.rangeOf_eq {index : Index} {node : ExprNode} {base : Nat}
    (hstop : base + node.stop ≤ index.length) (hlength : index.length ≤ Position.greatest) :
    rangeOf node base index = .ok (index.spanToRange ⟨base + node.start, base + node.stop⟩) := by
  have horder : base + node.start ≤ base + node.stop := by
    rw [ExprNode.stop]
    omega
  have hplace {offset : Nat} (hoffset : offset ≤ index.length) :
      index.toPosition offset = .ok (index.positionAt offset) := if_pos hoffset
  have hadd {offset : Nat} (hoffset : base + offset ≤ index.length) :
      Position.add base offset = .ok (base + offset) := if_pos (Nat.le_trans hoffset hlength)
  have hends := index.ofEnds_positionAt ⟨base + node.start, base + node.stop⟩
  rw [Nat.max_eq_right horder] at hends
  rw [rangeOf, hadd (Nat.le_trans horder hstop), hadd hstop]
  show (do
    let start ← index.toPosition (base + node.start)
    let stop ← index.toPosition (base + node.stop)
    Range.ofEnds start stop) = _
  rw [hplace (Nat.le_trans horder hstop), hplace hstop]
  exact hends

namespace Found

variable {found : Found} {index : Index} {span : Span} {offset : Nat} {tree : ExprTree}
  {node : ExprNode}

/-- `tree ∈ found.tree? ↔ found.result = .ok tree`. -/
theorem mem_tree? : tree ∈ found.tree? ↔ found.result = .ok tree := by
  unfold tree?
  cases found.result with
  | ok other => simp [Except.toOption]
  | error complaint => simp [Except.toOption]

/-- **How an expression is read from a span** when the cursor is at an offset. -/
structure ReadFrom (found : Found) (index : Index) (span : Span) (offset : Nat) : Prop where
  /-- It starts with the span. -/
  base_eq : found.base = span.start
  /-- It is parsed from the text of the span. -/
  result_eq : found.result = parseAs found.form (index.slice span)
  /-- As a list it parses. -/
  parses : found.form ≠ .root → ∃ tree, found.result = .ok tree
  /-- Its node is looked for from the start of the span on. -/
  node_eq : found.node = found.tree?.bind fun tree => tree.deepestAt (offset - span.start)

namespace ReadFrom

variable (h : found.ReadFrom index span offset) (hspan : span.stop ≤ index.length)
  (hcursor : span.start ≤ offset ∧ offset ≤ span.stop)

include h in
/-- The node at the cursor is one of the tree's, and the cursor is in it or at its end. -/
theorem node_touches (hstart : span.start ≤ offset) (hnode : node ∈ found.node) :
    ∃ tree ∈ found.tree?, node ∈ tree.nodes ∧ span.start + node.start ≤ offset ∧
      offset ≤ span.start + node.stop := by
  rw [h.node_eq, Option.mem_def, Option.bind_eq_some_iff] at hnode
  obtain ⟨tree, htree, hdeepest⟩ := hnode
  obtain ⟨hmem, htouches⟩ := ExprTree.mem_and_touches_of_deepestAt hdeepest
  have hbetween : node.start ≤ offset - span.start ∧ offset - span.start ≤ node.stop :=
    of_decide_eq_true htouches
  exact ⟨tree, htree, hmem, by omega, by omega⟩

include h hspan hcursor in
/-- A list has a tree and a node at the cursor. -/
theorem present (hform : found.form ≠ .root) :
    found.tree?.isSome = true ∧ found.node.isSome = true := by
  obtain ⟨tree, htree⟩ := h.parses hform
  have hparse : parseAs found.form (index.slice span) = .ok tree := by rw [← h.result_eq, htree]
  have hinside : offset - span.start ≤ (index.slice span).length := by
    rw [Index.length_slice hspan]
    omega
  obtain ⟨node, hnode⟩ := exists_deepestAt hform hparse hinside
  have hsome : found.tree? = some tree := mem_tree?.mpr htree
  rw [h.node_eq, hsome, Option.bind_some, hnode]
  exact ⟨rfl, rfl⟩

include h hspan in
/-- **The nodes of the tree stand in the span**, and so do their places in the document. -/
theorem rangeOf_eq (horder : span.start ≤ span.stop) (hlength : index.length ≤ Position.greatest)
    (htree : tree ∈ found.tree?) (hnode : node ∈ tree.nodes) :
    span.start + node.stop ≤ span.stop ∧ found.rangeOf index node =
      .ok (index.spanToRange ⟨span.start + node.start, span.start + node.stop⟩) := by
  have hparse : parseAs found.form (index.slice span) = .ok tree := by
    rw [← h.result_eq]
    exact mem_tree?.mp htree
  have hwithin := parsedNode_within hparse hnode
  rw [Index.length_slice hspan] at hwithin
  have hstop : span.start + node.stop ≤ span.stop := by omega
  refine ⟨hstop, ?_⟩
  rw [rangeOf, h.base_eq]
  exact ExprTree.rangeOf_eq (Nat.le_trans hstop hspan) hlength

end ReadFrom

end Found

/-! ## Values of attributes -/

/-- `other ∈ flag.when holds ↔ holds = true ∧ other = flag`. -/
theorem Flag.mem_when {flag other : Flag} {holds : Bool} :
    other ∈ flag.when holds ↔ holds = true ∧ other = flag := by
  unfold Flag.when
  split
  · simp_all
  · simp_all

/-- The cursor is on the value of an attribute where that is said of it. -/
theorem touches_of_classify {node : Node} {attr : AttributePart} {offset : Nat}
    (hpart : node.part = .attribute attr)
    (h : (classify node offset).contains ⟨[.attribute, .value]⟩ = true) :
    attr.valueSpan.touches offset = true := by
  -- of all that is said of an attribute only its value is a value
  simp only [Flags.contains, Flags.has, List.all_cons, List.all_nil, Bool.and_true, Bool.and_eq_true,
    List.contains_iff_mem] at h
  have hvalue := h.2
  rw [classify, hpart] at hvalue
  simpa [Flag.mem_when] using hvalue

namespace Snapshot

variable {text : String} {p : Position} {spot : Spot} {found : Found}

/-- **The value of an attribute lies in it**, as a text does in itself. -/
theorem stands_inside {n : Node} {span : Span} (hn : n ∈ (ofText text).model.nodes.toList)
    (h : n.Stands span) :
    n.span.start ≤ span.start ∧ span.start ≤ span.stop ∧ span.stop ≤ n.span.stop := by
  cases h with
  | text hpart => exact ⟨Nat.le_refl _, Nat.le_of_lt ((sited_ofText text).filled hn), Nat.le_refl _⟩
  | @value attr hpart =>
    -- the node of an attribute was drawn from one, whose parts lie in order
    have hstems := Model.stemsFrom_ofDocument hn
    rw [hpart] at hstems
    generalize n.span = span at hstems
    cases hstems with
    | ofAttribute a he ha =>
      have hwritten := ((Markup.kept_readDocument (Index.ofText text)).written he).attributes a ha
      have hstart := hwritten.start_le
      have hname := hwritten.name.start_le
      have hbetween := hwritten.name_le
      have hvalue := hwritten.value.start_le
      have hstop := hwritten.le_stop
      show a.span.start ≤ a.valueSpan.start ∧ a.valueSpan.start ≤ a.valueSpan.stop ∧
        a.valueSpan.stop ≤ a.span.stop
      omega

/-! ## What is found -/

/-- **What a spot says of a position**: the position counted from one, its offset, the node that starts
last there, and what parts of that node the offset is on. -/
theorem spot_of_inspect (h : (ofText text).inspect p = .ok (some spot)) :
    p.toOneBased = .ok spot.position ∧
      (ofText text).index.toOffset spot.position = .ok spot.offset ∧
      (ofText text).model.StartsLast spot.position (some spot.node) ∧
      spot.flags = classify spot.node spot.offset := by
  -- an answer needs a position that can be counted from one, and an offset for it
  cases hp : p.toOneBased with
  | error problem =>
    have herror : (ofText text).inspect p = .error problem := by
      show (ofText text).model.inspect (ofText text).index (ofText text).model.lookup p = _
      rw [Model.inspect, hp]
      rfl
    rw [herror] at h
    cases h
  | ok q =>
    obtain ⟨found, -, hlast, hinspect⟩ := exists_at text hp
    rw [hinspect] at h
    cases hoffset : (ofText text).index.toOffset q with
    | error =>
      rw [hoffset] at h
      cases h
    | ok offset =>
      rw [hoffset] at h
      cases found with
      | none => cases h
      | some n =>
        cases h
        exact ⟨rfl, hoffset, hlast, rfl⟩

/-- The position of a spot is that of its offset, if the position asked for is no less than its basis
allows. -/
theorem position_of_inspect (h : (ofText text).inspect p = .ok (some spot))
    (hline : p.basis.least ≤ p.line) (hcolumn : p.basis.least ≤ p.column) :
    spot.offset ≤ (ofText text).index.length ∧
      spot.position = (ofText text).index.positionAt spot.offset ∧
      (ofText text).index.toOffset p = .ok spot.offset := by
  obtain ⟨hp, hoffset, -⟩ := spot_of_inspect h
  have hplace := Position.toZeroBased_toOneBased hp
  obtain ⟨hle, hposition⟩ := (sited_ofText text).lined.positionAt_of_toOffset hoffset
  rw [hplace, ← Position.eq_of_toOneBased hp hline hcolumn] at hposition
  exact ⟨hle, hposition.symm, Index.toOffset_congr hplace hoffset⟩

/-- Where the expression at a spot stands, the cursor is. -/
theorem stands_of_expressionPlace {span : Span} {wanted : Form}
    (h : expressionPlace spot = some (span, wanted))
    (hflags : spot.flags = classify spot.node spot.offset)
    (hnode : spot.node.span.touches spot.offset = true) :
    spot.node.Stands span ∧ span.touches spot.offset = true := by
  unfold expressionPlace at h
  split at h
  · next attr hpart =>
    split at h
    · next hvalue =>
      cases h
      rw [Spot.isAttributeValue, hflags] at hvalue
      exact ⟨.value hpart, touches_of_classify hpart hvalue⟩
    · cases h
  · next run hpart =>
    cases h
    exact ⟨.text hpart, hnode⟩
  · cases h

/-- **What is not read as a condition has a tree**: a list of expressions, or a plain list. -/
theorem parseLeniently_spec (wanted : Form) (text : String) :
    (parseLeniently wanted text).2 = parseAs (parseLeniently wanted text).1 text ∧
      ((parseLeniently wanted text).1 ≠ .root → ∃ tree, (parseLeniently wanted text).2 = .ok tree) := by
  unfold parseLeniently
  split
  · exact ⟨rfl, fun hform => absurd rfl hform⟩
  · split
    · next tree hlist => exact ⟨hlist.symm, fun _ => ⟨tree, rfl⟩⟩
    · exact ⟨rfl, fun _ => exists_parseAs_simpleList text⟩

/-- **What is found at a spot** is read from where expressions stand in its node. -/
theorem readFrom_of_expressionOn {s : Snapshot} (h : s.expressionOn spot = some found) :
    ∃ span wanted, expressionPlace spot = some (span, wanted) ∧ found.source = spot.node ∧
      found.ReadFrom s.index span spot.offset := by
  unfold expressionOn at h
  obtain ⟨⟨span, wanted⟩, hplace, rfl⟩ := Option.map_eq_some_iff.mp h
  obtain ⟨hresult, htree⟩ := parseLeniently_spec wanted (s.index.slice span)
  refine ⟨span, wanted, hplace, rfl, rfl, hresult, htree, ?_⟩
  simp only [Found.tree?]
  cases (parseLeniently wanted (s.index.slice span)).2 with
  | ok tree => rfl
  | error complaint => rfl

/-- What is found at a position is found at a spot. -/
theorem exists_spot {s : Snapshot} (h : s.expressionAt p = .ok (some found)) :
    ∃ spot, s.inspect p = .ok (some spot) ∧ s.expressionOn spot = some found := by
  unfold expressionAt at h
  cases hinspect : s.inspect p with
  | error problem =>
    rw [hinspect] at h
    cases h
  | ok place =>
    rw [hinspect] at h
    obtain ⟨spot, rfl, hon⟩ := Option.bind_eq_some_iff.mp (Except.ok.inj h)
    exact ⟨spot, rfl, hon⟩

/-- **The expression under a cursor agrees with the document**, in every text and at every position
that is no less than its basis allows. Lengths of texts are numbers that can be represented. -/
theorem expressionAt_coherent (hlength : text.length ≤ Position.greatest)
    (hline : p.basis.least ≤ p.line) (hcolumn : p.basis.least ≤ p.column)
    (h : (ofText text).expressionAt p = .ok (some found)) :
    ∃ position offset span, p.toOneBased = .ok position ∧
      (ofText text).index.toOffset p = .ok offset ∧
      found.Coherent (ofText text) position offset span := by
  have sited := sited_ofText text
  have hgreatest : (ofText text).index.length ≤ Position.greatest := by
    rw [← String.length_toList] at hlength
    exact hlength
  obtain ⟨spot, hinspect, hon⟩ := exists_spot h
  obtain ⟨hp, -, ⟨hmem, hcontains, -⟩, hflags⟩ := spot_of_inspect hinspect
  obtain ⟨hoffset, hposition, htoOffset⟩ := position_of_inspect hinspect hline hcolumn
  obtain ⟨span, wanted, hplace, hsource, hread⟩ := readFrom_of_expressionOn hon
  -- the cursor is on the node, and so where the expression stands
  rw [hposition, sited.contains_iff hmem hoffset] at hcontains
  obtain ⟨hstands, htouches⟩ := stands_of_expressionPlace hplace hflags hcontains
  have hcursor : span.start ≤ spot.offset ∧ spot.offset ≤ span.stop := of_decide_eq_true htouches
  obtain ⟨hstart, horder, hstop⟩ := stands_inside hmem hstands
  have hspan : span.stop ≤ (ofText text).index.length := Nat.le_trans hstop (sited.stop_le hmem)
  refine ⟨spot.position, spot.offset, span, hp, htoOffset, ?_⟩
  constructor
  case source_mem =>
    rw [hsource]
    exact hmem
  case stands =>
    rw [hsource]
    exact hstands
  case touches => exact htouches
  case base_eq => exact hread.base_eq
  case base_le =>
    rw [hread.base_eq]
    exact hcursor.1
  case result_eq => exact hread.result_eq
  case le_stop =>
    rw [hread.base_eq, Index.length_slice hspan]
    omega
  case present => exact hread.present hspan hcursor
  case node_mem =>
    intro node hnode
    obtain ⟨tree, htree, hin, -⟩ := hread.node_touches hcursor.1 hnode
    exact ⟨tree, htree, hin⟩
  case inside =>
    intro tree htree node hnode
    obtain ⟨hwithin, hrange⟩ := hread.rangeOf_eq hspan horder hgreatest htree hnode
    refine ⟨_, hrange, ?_⟩
    rw [hsource, sited.range_eq hmem]
    apply Index.containsRange_spanToRange
    · show span.start + node.start ≤ span.start + node.stop
      rw [ExprNode.stop]
      omega
    · show spot.node.span.start ≤ span.start + node.start
      omega
    · exact Nat.le_trans hwithin hstop
  case at_cursor =>
    intro node hnode
    obtain ⟨tree, htree, hin, hfrom, hto⟩ := hread.node_touches hcursor.1 hnode
    obtain ⟨hwithin, hrange⟩ := hread.rangeOf_eq hspan horder hgreatest htree hin
    refine ⟨_, hrange, ?_⟩
    rw [hposition, sited.lined.contains_spanToRange (Nat.le_trans hfrom hto)
      (Nat.le_trans hwithin hspan) hoffset]
    exact ⟨hfrom, hto⟩

/-- A value that is no list of expressions, but a plain list. -/
theorem expressionAt_coherent_value :
    ∃ found position offset span,
      (ofText "<A B=\"$(;x\"/>").expressionAt ⟨1, 9, .one⟩ = .ok (some found) ∧
        (⟨1, 9, .one⟩ : Position).toOneBased = .ok position ∧
        (ofText "<A B=\"$(;x\"/>").index.toOffset ⟨1, 9, .one⟩ = .ok offset ∧
        found.Coherent (ofText "<A B=\"$(;x\"/>") position offset span := by
  -- the nodes are sorted as they stand, and the second one is the attribute
  have hfind : (ofText "<A B=\"$(;x\"/>").lookup.find ⟨1, 9, .one⟩ = .ok (some 1) := by
    show (ofText "<A B=\"$(;x\"/>").model.lookup.find _ = _
    rw [Lookup.find_eq _ rfl, Model.lookup, Lookup.ofOneBased, List.mergeSort_of_pairwise]
    · decide +kernel
    · decide +kernel
  have hfound :
      ((ofText "<A B=\"$(;x\"/>").expressionAt ⟨1, 9, .one⟩).toOption.join.isSome = true := by
    obtain ⟨node, hnode, -, hinspect⟩ := exists_at "<A B=\"$(;x\"/>"
      (show (⟨1, 9, .one⟩ : Position).toOneBased = .ok _ from rfl)
    rw [nodeAt, hfind] at hnode
    cases hnode
    rw [expressionAt, hinspect]
    decide +kernel
  cases h : (ofText "<A B=\"$(;x\"/>").expressionAt ⟨1, 9, .one⟩ with
  | error problem =>
    rw [h] at hfound
    cases hfound
  | ok place =>
    cases place with
    | none =>
      rw [h] at hfound
      cases hfound
    | some found =>
      obtain ⟨position, offset, span, hcoherent⟩ :=
        expressionAt_coherent (by decide) (by decide) (by decide) h
      exact ⟨found, position, offset, span, rfl, hcoherent⟩

end Snapshot

end ProjectLens
