import ProjectLens.Proofs.Arena
import ProjectLens.Proofs.Scanning

/-! # Elements that are open and elements that are settled

While a document is read, the elements on the stack are open: each stands last in the one below it, and
all that came before it ends before it starts. Every other element is settled: its content stands in
order between its tags, and nothing changes it any more.

* `Element.Written`: an element says what is written in the text, at every time;
* `Element.Settled`: what holds of an element once it is closed; `Chain`: what holds of the stack;
* `Kept`: all of it together, with `limit` as the end of what was read;
* `Kept.revise`, `Kept.close`, `Kept.add`: the three things that can happen to elements keep it. -/

namespace ProjectLens.Markup

variable {index : Index} {elements elements' : Array Element} {roots : List Nat}
  {e e' : Element} {limit limit' : Nat}

/-! ## What elements say -/

/-- The characters that content covers; an element covers its span. -/
def Content.spanIn (elements : Array Element) : Content → Span
  | .element id => (elements[id]?.map Element.span).getD default
  | .text _ span | .cdata _ span | .comment _ span => span

/-- **An attribute says what is written.** -/
structure Attribute.Written (index : Index) (a : Attribute) : Prop where
  /-- It is not empty. -/
  start_lt : a.span.start < a.span.stop
  /-- Its name. -/
  name : index.Holds a.nameSpan a.name
  /-- No slash is a part of the name. -/
  slash : '/' ∉ a.name.toList
  /-- Its value. -/
  value : index.Holds a.valueSpan a.value
  /-- The name starts in the attribute. -/
  start_le : a.span.start ≤ a.nameSpan.start
  /-- The value comes after the name. -/
  name_le : a.nameSpan.stop ≤ a.valueSpan.start
  /-- The value ends in the attribute. -/
  le_stop : a.valueSpan.stop ≤ a.span.stop

/-- **Text says what is written**; for comments only what is around them counts. -/
def Content.Written (index : Index) : Content → Prop
  | .text run span | .cdata run span => index.Holds span run
  | .element _ | .comment _ _ => True

/-- Where the start tag of an element ends, or what there is of it. -/
def Element.tagStop (e : Element) : Nat := (e.startTag.map Span.stop).getD e.span.stop

/-- Where the content of an element has to end. -/
def Element.contentStop (e : Element) : Nat := (e.endTag.map Span.start).getD e.span.stop

/-- **An element says what is written.** -/
structure Element.Written (index : Index) (e : Element) : Prop where
  /-- Its name. -/
  name : index.Holds e.nameSpan e.name
  /-- No slash is a part of the name, also where a broken tag was salvaged. -/
  slash : '/' ∉ e.name.toList
  /-- The name comes after the start. -/
  start_lt : e.span.start < e.nameSpan.start
  /-- Its attributes. -/
  attributes : ∀ a ∈ e.attributes, a.Written index
  /-- The attributes stand in order between the name and the end of the tag. -/
  row : Spread e.nameSpan.stop (e.attributes.map Attribute.span) e.tagStop
  /-- What the attributes cover stands between the name and the end of the tag. -/
  attributesSpan : ∀ block ∈ e.attributesSpan,
    e.nameSpan.stop ≤ block.start ∧ block.stop ≤ e.tagStop
  /-- The start tag starts with the element and ends in it. -/
  startTag : ∀ tag ∈ e.startTag, tag.start = e.span.start ∧ tag.stop ≤ e.span.stop
  /-- The end tag comes after the start tag and ends with the element. -/
  endTag : ∀ tag ∈ e.endTag, e.startTag.isSome = true ∧ e.tagStop ≤ tag.start ∧
    tag.start < tag.stop ∧ tag.stop = e.span.stop
  /-- Its text. -/
  content : ∀ c ∈ e.content, c.Written index

namespace Element.Written

variable (h : e.Written index)
include h

/-- `e.tagStop ≤ e.span.stop`. -/
theorem tagStop_le : e.tagStop ≤ e.span.stop := by
  unfold tagStop
  cases htag : e.startTag with
  | none => exact Nat.le_refl _
  | some tag => exact (h.startTag tag htag).2

/-- `e.span.start < e.tagStop`. -/
theorem start_lt_tagStop : e.span.start < e.tagStop := by
  have := h.row.le
  have := h.start_lt
  have := h.name.start_le
  omega

/-- `e.span.start < e.span.stop`: no element is empty. -/
theorem start_lt_stop : e.span.start < e.span.stop := by
  have := h.start_lt_tagStop
  have := h.tagStop_le
  omega

/-- `e.contentStop ≤ e.span.stop`. -/
theorem contentStop_le : e.contentStop ≤ e.span.stop := by
  unfold contentStop
  cases htag : e.endTag with
  | none => exact Nat.le_refl _
  | some tag =>
    obtain ⟨-, -, hlt, hstop⟩ := h.endTag tag htag
    simp only [Option.map_some, Option.getD_some]
    omega

end Element.Written

/-- **What holds of an element once it is closed.** -/
structure Element.Settled (index : Index) (elements : Array Element) (e : Element) : Prop where
  /-- It ends in the text. -/
  stop_le : e.span.stop ≤ index.length
  /-- Its location is that of its span. -/
  range_eq : e.location.range = index.spanToRange e.span
  /-- Its content stands in order between its tags. -/
  row : Spread e.tagStop (e.content.map (Content.spanIn elements)) e.contentStop

/-- Spans of content depend on the elements in it only. -/
theorem map_spanIn_congr {content : List Content}
    (h : ∀ {j : Nat}, .element j ∈ content → elements'[j]? = elements[j]?) :
    content.map (Content.spanIn elements') = content.map (Content.spanIn elements) := by
  refine List.map_congr_left fun c hc => ?_
  cases c with
  | element j => simp only [Content.spanIn, h hc]
  | text run span => rfl
  | cdata run span => rfl
  | comment run span => rfl

/-- `j ∈ e.childElements ↔ .element j ∈ e.content`. -/
theorem mem_childElements {j : Nat} : j ∈ e.childElements ↔ .element j ∈ e.content := by
  unfold Element.childElements
  rw [List.mem_filterMap]
  constructor
  · rintro ⟨c, hc, hj⟩
    cases c with
    | element id =>
      cases hj
      exact hc
    | text run span => cases hj
    | cdata run span => cases hj
    | comment run span => cases hj
  · exact fun hc => ⟨_, hc, rfl⟩

/-! ## The stack -/

/-- What holds of an open element: it has no end tag, and it has content only once its start tag has
ended. -/
structure Element.Open (inStartTag : Bool) (e : Element) : Prop where
  /-- It has no end tag yet. -/
  endTag : e.endTag = none
  /-- Its start tag is known once it has ended. -/
  startTag : e.startTag.isSome = !inStartTag
  /-- Before that it has no content. -/
  content : inStartTag = true → e.content = []

/-- **What holds of one open element**: `tail` is the element that is open inside it, if any, and
`items` all its other content, which ends before `limit`. Elements among it have places between its own
and `bound`. -/
structure OpenAt (elements : Array Element) (tail : List Content) (bound limit : Nat)
    (frame : Frame) (below : List Frame) (e : Element) (items : List Content) : Prop where
  /-- It is an element of the array. -/
  get : elements[frame.element]? = some e
  /-- Its place comes before the bound. -/
  lt_bound : frame.element < bound
  /-- What is open inside it stands last. -/
  content_eq : e.content = items ++ tail
  /-- The elements in it that are not open. -/
  between : ∀ {j : Nat}, .element j ∈ items → frame.element < j ∧ j < bound
  /-- Its content stands in order. -/
  row : Spread e.tagStop (items.map (Content.spanIn elements)) limit
  /-- It does not reach further than what was read. -/
  stop_le : e.span.stop ≤ limit
  /-- It is open. -/
  state : e.Open frame.inStartTag
  /-- The element below it on the stack is around it. -/
  parent_eq : e.parent = below.head?.map Frame.element
  /-- Its depth is its height on the stack. -/
  depth_eq : e.location.depth = below.length

/-- **What holds of the stack**: every element on it stands last in the one below it, and the lowest one
last among the outermost elements. -/
def Chain (elements : Array Element) (roots : List Nat) :
    List Content → Nat → Nat → List Frame → Prop
  | tail, bound, limit, [] => ∃ items, roots.map Content.element = items ++ tail ∧
      (∀ {j : Nat}, .element j ∈ items → j < bound) ∧
      Spread 0 (items.map (Content.spanIn elements)) limit
  | tail, bound, limit, frame :: below => ∃ e items,
      OpenAt elements tail bound limit frame below e items ∧
      Chain elements roots [.element frame.element] frame.element e.span.start below

variable {tail : List Content} {bound : Nat} {stack below : List Frame} {frame : Frame}

/-- The stack depends only on elements whose places come before the bound. -/
theorem Chain.congr (h : Chain elements roots tail bound limit stack)
    (hsame : ∀ {i : Nat}, i < bound → elements'[i]? = elements[i]?) :
    Chain elements' roots tail bound limit stack := by
  induction stack generalizing tail bound limit with
  | nil =>
    obtain ⟨items, hroots, hbound, hrow⟩ := h
    refine ⟨items, hroots, hbound, ?_⟩
    rwa [map_spanIn_congr fun hj => hsame (hbound hj)]
  | cons frame below ih =>
    obtain ⟨e, items, hopen, hbelow⟩ := h
    refine ⟨e, items, { hopen with get := ?_, row := ?_ }, ?_⟩
    · rw [hsame hopen.lt_bound, hopen.get]
    · rw [map_spanIn_congr fun hj => hsame (hopen.between hj).2]
      exact hopen.row
    · exact ih hbelow fun hlt => hsame (Nat.lt_trans hlt hopen.lt_bound)

/-- The elements on the stack come before the bound. -/
theorem Chain.lt_bound (h : Chain elements roots tail bound limit stack) :
    ∀ id ∈ stack.map Frame.element, id < bound := by
  induction stack generalizing tail bound limit with
  | nil => intro id hid; cases hid
  | cons frame below ih =>
    obtain ⟨e, items, hopen, hbelow⟩ := h
    intro id hid
    rcases List.mem_cons.mp hid with rfl | hid
    · exact hopen.lt_bound
    · exact Nat.lt_trans (ih hbelow id hid) hopen.lt_bound

/-- **An element that is closed counts as content** of the one below it. -/
theorem Chain.absorb {id stop : Nat}
    (h : Chain elements roots [.element id] id e.span.start stack) (he : elements[id]? = some e)
    (hbound : id < bound) (hstart : e.span.start ≤ e.span.stop) (hstop : e.span.stop ≤ stop) :
    Chain elements roots [] bound stop stack := by
  -- the pending element fits behind what the row has already
  have hrow {start : Nat} {items : List Content}
      (hitems : Spread start (items.map (Content.spanIn elements)) e.span.start) :
      Spread start ((items ++ [Content.element id]).map (Content.spanIn elements)) stop := by
    rw [List.map_append]
    refine hitems.append ?_
    simp only [List.map_cons, List.map_nil, Content.spanIn, he, Option.map_some, Option.getD_some,
      spread_cons, spread_nil]
    exact ⟨Nat.le_refl _, hstart, hstop⟩
  cases stack with
  | nil =>
    obtain ⟨items, hroots, hlt, hitems⟩ := h
    refine ⟨items ++ [.element id], by rw [hroots, List.append_nil], fun {j} hj => ?_, hrow hitems⟩
    rcases List.mem_append.mp hj with hj | hj
    · exact Nat.lt_trans (hlt hj) hbound
    · cases List.mem_singleton.mp hj
      exact hbound
  | cons frame below =>
    obtain ⟨p, items, hopen, hbelow⟩ := h
    refine ⟨p, items ++ [.element id], { hopen with
      lt_bound := Nat.lt_trans hopen.lt_bound hbound
      content_eq := by rw [hopen.content_eq, List.append_nil]
      between := fun {j} hj => ?_
      row := hrow hopen.row
      stop_le := Nat.le_trans hopen.stop_le (Nat.le_trans hstart hstop) }, hbelow⟩
    rcases List.mem_append.mp hj with hj | hj
    · exact ⟨(hopen.between hj).1, Nat.lt_trans (hopen.between hj).2 hbound⟩
    · cases List.mem_singleton.mp hj
      exact ⟨hopen.lt_bound, hbound⟩

/-! ## All elements -/

/-- **What reading keeps true** of all elements, the outermost ones and the stack. -/
structure Kept (index : Index) (elements : Array Element) (roots : List Nat) (stack : List Frame)
    (limit : Nat) : Prop where
  /-- How elements refer to each other. -/
  linked : Linked elements roots
  /-- Elements say what is written. -/
  written : ∀ {i : Nat} {e : Element}, elements[i]? = some e → e.Written index
  /-- Elements that are not open are settled. -/
  settled : ∀ {i : Nat} {e : Element}, elements[i]? = some e → i ∉ stack.map Frame.element →
    e.Settled index elements
  /-- So are the elements in them. -/
  inside : ∀ {i j : Nat} {e : Element}, elements[i]? = some e → i ∉ stack.map Frame.element →
    .element j ∈ e.content → j < elements.size ∧ j ∉ stack.map Frame.element
  /-- The stack. -/
  chain : Chain elements roots [] elements.size limit stack
  /-- Every element has started. -/
  start_lt : ∀ {i : Nat} {e : Element}, elements[i]? = some e → e.span.start < limit
  /-- What was read ends in the text. -/
  limit_le : limit ≤ index.length

/-- Before anything was read there are no elements. -/
theorem kept_start (index : Index) : Kept index #[] [] [] 0 where
  linked :=
    { id_eq := fun h => nomatch h
      start_lt := fun h _ _ => nomatch h
      parent_lt := fun h _ => nomatch h
      depth_root := fun h _ => nomatch h
      depth_child := fun h _ _ => nomatch h
      attribute_depth := fun h => nomatch h
      children_eq := fun h => nomatch h
      roots_eq := rfl }
  written := fun h => nomatch h
  settled := fun h => nomatch h
  inside := fun h => nomatch h
  chain := ⟨[], rfl, fun h => (nomatch h), Nat.le_refl _⟩
  start_lt := fun h => nomatch h
  limit_le := Nat.zero_le _

/-- Reading on without anything that counts keeps all. -/
theorem Kept.mono (h : Kept index elements roots stack limit) (hle : limit ≤ limit')
    (hlength : limit' ≤ index.length) : Kept index elements roots stack limit' := by
  refine { h with chain := ?_, start_lt := ?_, limit_le := hlength }
  · cases stack with
    | nil =>
      obtain ⟨items, hroots, hlt, hrow⟩ := h.chain
      exact ⟨items, hroots, hlt, hrow.widen (Nat.le_refl _) hle⟩
    | cons frame below =>
      obtain ⟨e, items, hopen, hbelow⟩ := h.chain
      exact ⟨e, items, { hopen with
        row := hopen.row.widen (Nat.le_refl _) hle
        stop_le := Nat.le_trans hopen.stop_le hle }, hbelow⟩
  · exact fun he => Nat.lt_of_lt_of_le (h.start_lt he) hle

/-- What is said of an element that is changed. -/
structure Element.Revised (index : Index) (e e' : Element) : Prop where
  /-- It keeps what it was added with. -/
  born : e.SameBirth e'
  /-- It keeps its children. -/
  children : e'.childElements = e.childElements
  /-- Its attributes are one deeper. -/
  attributes : ∀ a ∈ e'.attributes, a.location.depth = e'.location.depth + 1
  /-- It says what is written. -/
  written : e'.Written index

variable {inStartTag : Bool}

/-- The open element that was read last. -/
theorem Kept.top (h : Kept index elements roots (frame :: below) limit) :
    ∃ e, OpenAt elements [] elements.size limit frame below e e.content ∧
      Chain elements roots [.element frame.element] frame.element e.span.start below ∧
      frame.element ∉ below.map Frame.element := by
  obtain ⟨e, items, hopen, hbelow⟩ := h.chain
  have hitems : items = e.content := by rw [hopen.content_eq, List.append_nil]
  subst hitems
  exact ⟨e, hopen, hbelow, fun hmem => Nat.lt_irrefl _ (hbelow.lt_bound _ hmem)⟩

/-- Settled elements do not notice when an open one is changed. -/
theorem Kept.settled_revise (h : Kept index elements roots (frame :: below) limit)
    (rev : Revises elements elements' frame.element e e') {i : Nat} {x : Element}
    (hx : elements'[i]? = some x) (hi : i ∉ (frame :: below).map Frame.element) :
    x.Settled index elements' ∧ ∀ {j : Nat}, .element j ∈ x.content →
      j < elements'.size ∧ j ∉ (frame :: below).map Frame.element := by
  have hne : i ≠ frame.element := fun heq => hi (by simp [heq])
  rw [rev.same hne] at hx
  have hinside : ∀ {j : Nat}, .element j ∈ x.content →
      j < elements.size ∧ j ∉ (frame :: below).map Frame.element := h.inside hx hi
  constructor
  · refine { h.settled hx hi with row := ?_ }
    rw [map_spanIn_congr fun hj => rev.same fun heq => (hinside hj).2 (by simp [heq])]
    exact (h.settled hx hi).row
  · intro j hj
    rw [rev.size_eq]
    exact hinside hj

/-- **Changing the element that was read last**, which stays open. -/
theorem Kept.revise (h : Kept index elements roots (frame :: below) limit)
    (rev : Revises elements elements' frame.element e e') (revised : e.Revised index e')
    (state : e'.Open inStartTag)
    (row : Spread e'.tagStop (e'.content.map (Content.spanIn elements)) limit')
    (hstop : e'.span.stop ≤ limit') (hle : limit ≤ limit') (hlength : limit' ≤ index.length) :
    Kept index elements' roots (⟨frame.element, inStartTag⟩ :: below) limit' := by
  -- only the element on top of the stack has changed, and it stays open
  obtain ⟨e₀, hopen, hbelow, -⟩ := h.top
  obtain rfl : e₀ = e := Option.some.inj (hopen.get.symm.trans rev.old)
  have hbetween {j : Nat} (hj : .element j ∈ e'.content) :
      frame.element < j ∧ j < elements.size := by
    rw [← mem_childElements, revised.children, mem_childElements] at hj
    exact hopen.between hj
  constructor
  case linked => exact h.linked.revise rev revised.born revised.children revised.attributes
  case written =>
    intro i x hx
    obtain ⟨x₀, hold, -, ⟨-, -, rfl⟩ | rfl⟩ := rev.exists_old revised.born hx
    · exact revised.written
    · exact h.written hold
  case settled => exact fun hx hi => (h.settled_revise rev hx hi).1
  case inside => exact fun hx hi => (h.settled_revise rev hx hi).2
  case chain =>
    refine ⟨e', e'.content, ⟨rev.new, ?_, (List.append_nil _).symm, ?_, ?_, hstop, state, ?_, ?_⟩, ?_⟩
    · rw [rev.size_eq]
      exact hopen.lt_bound
    · intro j hj
      rw [rev.size_eq]
      exact hbetween hj
    · rw [map_spanIn_congr fun hj => rev.same (Nat.ne_of_gt (hbetween hj).1)]
      exact row
    · rw [revised.born.parent_eq, hopen.parent_eq]
    · rw [revised.born.depth_eq, hopen.depth_eq]
    · rw [revised.born.start_eq]
      exact hbelow.congr fun hlt => rev.same (Nat.ne_of_lt hlt)
  case start_lt =>
    intro i x hx
    obtain ⟨x₀, hold, same, -⟩ := rev.exists_old revised.born hx
    rw [same.start_eq]
    exact Nat.lt_of_lt_of_le (h.start_lt hold) hle
  case limit_le => exact hlength

/-- **Closing the element that was read last.** -/
theorem Kept.close (h : Kept index elements roots (frame :: below) limit)
    (rev : Revises elements elements' frame.element e e') (revised : e.Revised index e')
    (range_eq : e'.location.range = index.spanToRange e'.span)
    (row : Spread e'.tagStop (e'.content.map (Content.spanIn elements)) e'.contentStop)
    (hstop : e'.span.stop ≤ limit') (hle : limit ≤ limit') (hlength : limit' ≤ index.length) :
    Kept index elements' roots below limit' := by
  -- only the element on top of the stack has changed
  obtain ⟨e₀, hopen, hbelow, hfresh⟩ := h.top
  obtain rfl : e₀ = e := Option.some.inj (hopen.get.symm.trans rev.old)
  have hbetween {j : Nat} (hj : .element j ∈ e'.content) :
      frame.element < j ∧ j < elements.size := by
    rw [← mem_childElements, revised.children, mem_childElements] at hj
    exact hopen.between hj
  have hrow : Spread e'.tagStop (e'.content.map (Content.spanIn elements')) e'.contentStop := by
    rw [map_spanIn_congr fun hj => rev.same (Nat.ne_of_gt (hbetween hj).1)]
    exact row
  -- it is settled now, and those that were stay so
  have hsettled {i : Nat} {x : Element} (hx : elements'[i]? = some x)
      (hi : i ∉ below.map Frame.element) : x.Settled index elements' ∧
        ∀ {j : Nat}, .element j ∈ x.content →
          j < elements'.size ∧ j ∉ below.map Frame.element := by
    by_cases heq : i = frame.element
    · subst heq
      obtain rfl : e' = x := Option.some.inj (rev.new.symm.trans hx)
      refine ⟨⟨Nat.le_trans hstop hlength, range_eq, hrow⟩, fun {j} hj => ?_⟩
      rw [rev.size_eq]
      refine ⟨(hbetween hj).2, fun hmem => ?_⟩
      exact Nat.lt_asymm (hbelow.lt_bound _ hmem) (hbetween hj).1
    · obtain ⟨hset, hinside⟩ := h.settled_revise rev hx (by
        simp only [List.map_cons, List.mem_cons, not_or]
        exact ⟨heq, hi⟩)
      exact ⟨hset, fun hj => ⟨(hinside hj).1, fun hmem => (hinside hj).2 (.tail _ hmem)⟩⟩
  constructor
  case linked => exact h.linked.revise rev revised.born revised.children revised.attributes
  case written =>
    intro i x hx
    obtain ⟨x₀, hold, -, ⟨-, -, rfl⟩ | rfl⟩ := rev.exists_old revised.born hx
    · exact revised.written
    · exact h.written hold
  case settled => exact fun hx hi => (hsettled hx hi).1
  case inside => exact fun hx hi => (hsettled hx hi).2
  case chain =>
    have hsame {i : Nat} (hlt : i < frame.element) : elements'[i]? = elements[i]? :=
      rev.same (Nat.ne_of_lt hlt)
    have hbelow' := hbelow.congr hsame
    rw [← revised.born.start_eq] at hbelow'
    rw [rev.size_eq]
    exact hbelow'.absorb rev.new hopen.lt_bound
      (Nat.le_of_lt revised.written.start_lt_stop) hstop
  case start_lt =>
    intro i x hx
    obtain ⟨x₀, hold, same, -⟩ := rev.exists_old revised.born hx
    rw [same.start_eq]
    exact Nat.lt_of_lt_of_le (h.start_lt hold) hle
  case limit_le => exact hlength

/-! ## Adding an element -/

/-- An element with more content. -/
def Element.withContent (e : Element) (c : Content) : Element :=
  { e with content := e.content ++ [c] }

/-- The array with one more element, which the element around it lists. -/
def withElement (elements : Array Element) (new : Element) : Array Element :=
  match new.parent with
  | none => elements.push new
  | some parent => (elements.push new).modify parent fun e => e.withContent (.element elements.size)

/-- The outermost elements with one more element. -/
def withRoot (elements : Array Element) (roots : List Nat) (new : Element) : List Nat :=
  match new.parent with
  | none => roots ++ [elements.size]
  | some _ => roots

/-- An element added to the content is the last of the child elements. -/
theorem childElements_withContent (e : Element) (id : Nat) :
    (e.withContent (.element id)).childElements = e.childElements ++ [id] := by
  simp [Element.childElements, Element.withContent]

/-- `(withElement elements new).size = elements.size + 1`. -/
theorem size_withElement {new : Element} :
    (withElement elements new).size = elements.size + 1 := by
  unfold withElement
  split <;> simp

/-- The new element stands at the number that was free. -/
theorem getElem?_withElement_size {new : Element}
    (hparent : ∀ {p : Nat}, new.parent = some p → p < elements.size) :
    (withElement elements new)[elements.size]? = some new := by
  unfold withElement
  split
  · exact Array.getElem?_push_size
  · next p hp =>
    rw [Array.getElem?_modify, if_neg (Nat.ne_of_lt (hparent hp)), Array.getElem?_push_size]

/-- At any other number only the parent has changed: it has the new element as content. -/
theorem getElem?_withElement {new : Element} {i : Nat} (hi : i ≠ elements.size) :
    (withElement elements new)[i]? =
      if new.parent = some i then elements[i]?.map fun e => e.withContent (.element elements.size)
      else elements[i]? := by
  unfold withElement
  cases hp : new.parent with
  | none => simp only [Array.getElem?_push, if_neg hi, reduceCtorEq, if_false]
  | some p => simp only [Array.getElem?_modify, Array.getElem?_push, if_neg hi, Option.some.injEq]

/-- Putting a new element into the list adds it, its parent told. -/
theorem adds_withElement {new : Element}
    (hparent : ∀ {p : Nat}, new.parent = some p → p < elements.size) :
    Adds elements (withElement elements new) new where
  size_eq := size_withElement
  new_eq := getElem?_withElement_size hparent
  old := by
    intro i x hx hi
    rw [getElem?_withElement hi] at hx
    split at hx
    · next hp =>
      obtain ⟨e, he, rfl⟩ := Option.map_eq_some_iff.mp hx
      refine ⟨e, he, ⟨rfl, rfl, rfl, rfl⟩, rfl, ?_⟩
      rw [childElements_withContent, if_pos hp]
    · next hp => exact ⟨x, hx, ⟨rfl, rfl, rfl, rfl⟩, rfl, by rw [if_neg hp, List.append_nil]⟩

/-- Elements other than the new one and the one around it stay as they are. -/
theorem getElem?_withElement_of_ne {new : Element} {i : Nat} (hi : i ≠ elements.size)
    (hparent : new.parent ≠ some i) : (withElement elements new)[i]? = elements[i]? := by
  rw [getElem?_withElement hi, if_neg hparent]

/-- A written element stays written with one more piece of content. -/
theorem Element.Written.withContent (h : e.Written index) {c : Content} (hc : c.Written index) :
    (e.withContent c).Written index :=
  { h with
    content := fun other hother => by
      rcases List.mem_append.mp hother with hother | hother
      · exact h.content other hother
      · rwa [List.mem_singleton.mp hother] }

/-- **A new element stands last** in the element that was read last. -/
theorem Chain.extend {new : Element} {start : Nat}
    (h : Chain elements roots [] elements.size limit stack)
    (outside : stack.head?.any Frame.inStartTag = false)
    (parent_eq : new.parent = stack.head?.map Frame.element) (hstart : limit ≤ start) :
    Chain (withElement elements new) (withRoot elements roots new) [.element elements.size]
      elements.size start stack := by
  cases stack with
  | nil =>
    obtain ⟨items, hroots, hlt, hrow⟩ := h
    have hparent : new.parent = none := parent_eq
    refine ⟨items, ?_, hlt, ?_⟩
    · rw [List.append_nil] at hroots
      simp only [withRoot, hparent, List.map_append, hroots, List.map_cons, List.map_nil]
    · rw [map_spanIn_congr fun hj => getElem?_withElement_of_ne (Nat.ne_of_lt (hlt hj))
        (by rw [hparent]; exact Option.some_ne_none _ |>.symm)]
      exact hrow.widen (Nat.le_refl _) hstart
  | cons frame below =>
    -- the new element is put into the content of the innermost open one
    obtain ⟨e, items, hopen, hbelow⟩ := h
    have hparent : new.parent = some frame.element := parent_eq
    have hroots : withRoot elements roots new = roots := by simp only [withRoot, hparent]
    rw [hroots]
    have hsame {j : Nat} (hj : j < elements.size) (hne : j ≠ frame.element) :
        (withElement elements new)[j]? = elements[j]? :=
      getElem?_withElement_of_ne (Nat.ne_of_lt hj)
        (by rw [hparent]; exact fun heq => hne (Option.some.inj heq).symm)
    refine ⟨e.withContent (.element elements.size), items, ?_, ?_⟩
    · constructor
      case get =>
        rw [getElem?_withElement (Nat.ne_of_lt hopen.lt_bound), if_pos hparent, hopen.get,
          Option.map_some]
      case lt_bound => exact hopen.lt_bound
      case content_eq => simp only [Element.withContent, hopen.content_eq, List.append_nil]
      case between => exact hopen.between
      case row =>
        rw [map_spanIn_congr fun hj =>
          hsame (hopen.between hj).2 (Nat.ne_of_gt (hopen.between hj).1)]
        exact hopen.row.widen (Nat.le_refl _) hstart
      case stop_le => exact Nat.le_trans hopen.stop_le hstart
      case state =>
        refine ⟨hopen.state.endTag, hopen.state.startTag, fun hinside => ?_⟩
        have houtside : frame.inStartTag = false := outside
        rw [houtside] at hinside
        cases hinside
      case parent_eq => exact hopen.parent_eq
      case depth_eq => exact hopen.depth_eq
    · exact hbelow.congr fun hlt =>
        hsame (Nat.lt_trans hlt hopen.lt_bound) (Nat.ne_of_lt hlt)

/-- **Adding an element that is open.** -/
theorem Kept.add {new : Element} (h : Kept index elements roots stack limit)
    (outside : stack.head?.any Frame.inStartTag = false)
    (id_eq : new.id = elements.size) (parent_eq : new.parent = stack.head?.map Frame.element)
    (depth_eq : new.location.depth = stack.length) (attributes : new.attributes = [])
    (content : new.content = []) (state : new.Open true) (written : new.Written index)
    (hstart : limit ≤ new.span.start) (hstop : new.span.stop ≤ limit')
    (hlength : limit' ≤ index.length) :
    Kept index (withElement elements new) (withRoot elements roots new)
      (⟨elements.size, true⟩ :: stack) limit' := by
  have hmem {p : Nat} (hp : new.parent = some p) : p ∈ stack.map Frame.element := by
    rw [parent_eq, Option.map_eq_some_iff] at hp
    obtain ⟨frame, hframe, rfl⟩ := hp
    exact List.mem_map_of_mem (List.mem_of_head? hframe)
  have hparent {p : Nat} (hp : new.parent = some p) : p < elements.size :=
    h.chain.lt_bound p (hmem hp)
  have hlt := written.start_lt_stop
  -- closed elements stay as they are
  have hsame {j : Nat} (hj : j < elements.size) (hclosed : j ∉ stack.map Frame.element) :
      (withElement elements new)[j]? = elements[j]? :=
    getElem?_withElement_of_ne (Nat.ne_of_lt hj) fun hp => hclosed (hmem hp)
  have hold {i : Nat} {x : Element} (hx : (withElement elements new)[i]? = some x)
      (hi : i ∉ (⟨elements.size, true⟩ :: stack).map Frame.element) :
      elements[i]? = some x ∧ i ∉ stack.map Frame.element := by
    simp only [List.map_cons, List.mem_cons, not_or] at hi
    rw [getElem?_withElement_of_ne hi.1 fun hp => hi.2 (hmem hp)] at hx
    exact ⟨hx, hi.2⟩
  constructor
  case linked =>
    refine h.linked.add (adds_withElement hparent) id_eq ?_ hparent ?_ ?_ attributes content ?_
    · exact fun he => Nat.lt_of_lt_of_le (h.start_lt he) hstart
    · intro hnone
      rw [parent_eq, Option.map_eq_none_iff, List.head?_eq_none_iff] at hnone
      rw [depth_eq, hnone, List.length_nil]
    · intro p x hp hx
      cases stack with
      | nil => cases parent_eq.symm.trans hp
      | cons frame below =>
        obtain ⟨e, items, hopen, -⟩ := h.chain
        cases parent_eq.symm.trans hp
        obtain rfl : e = x := Option.some.inj (hopen.get.symm.trans hx)
        rw [depth_eq, hopen.depth_eq, List.length_cons]
    · unfold withRoot
      cases new.parent <;> simp
  case written =>
    intro i x hx
    by_cases heq : i = elements.size
    · rw [heq, getElem?_withElement_size hparent] at hx
      cases hx
      exact written
    · rw [getElem?_withElement heq] at hx
      split at hx
      · obtain ⟨e, he, rfl⟩ := Option.map_eq_some_iff.mp hx
        exact (h.written he).withContent trivial
      · exact h.written hx
  case settled =>
    intro i x hx hi
    obtain ⟨hx, hi⟩ := hold hx hi
    refine { h.settled hx hi with row := ?_ }
    rw [map_spanIn_congr fun hj => hsame (h.inside hx hi hj).1 (h.inside hx hi hj).2]
    exact (h.settled hx hi).row
  case inside =>
    intro i j x hx hi hj
    obtain ⟨hx, hi⟩ := hold hx hi
    obtain ⟨hlt, hclosed⟩ := h.inside hx hi hj
    rw [size_withElement]
    refine ⟨Nat.lt_succ_of_lt hlt, ?_⟩
    simp only [List.map_cons, List.mem_cons, not_or]
    exact ⟨Nat.ne_of_lt hlt, hclosed⟩
  case chain =>
    refine ⟨new, [], ⟨getElem?_withElement_size hparent, ?_, ?_, ?_, ?_, hstop, state, parent_eq,
      depth_eq⟩, h.chain.extend outside parent_eq hstart⟩
    · rw [size_withElement]
      exact Nat.lt_succ_self _
    · rw [content]
      rfl
    · exact fun hj => nomatch hj
    · exact Nat.le_trans written.tagStop_le hstop
  case start_lt =>
    intro i x hx
    by_cases heq : i = elements.size
    · rw [heq, getElem?_withElement_size hparent] at hx
      cases hx
      omega
    · obtain ⟨e, he, born, -⟩ := (adds_withElement hparent).old hx heq
      have := h.start_lt he
      rw [born.start_eq]
      omega
  case limit_le => exact hlength

end ProjectLens.Markup
