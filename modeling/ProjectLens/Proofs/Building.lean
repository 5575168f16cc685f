import ProjectLens.Proofs.Elements
import ProjectLens.Proofs.Stages

/-! # Reading keeps elements in order

Whatever a reader does about a piece or a fault changes the element that was read last, closes it, or
adds one. So what is kept of elements is kept by every turn of reading, and holds of the document.

* `Element.located`, `Element.endedAt`, `Element.withAttribute`, `Element.withStartTag`,
  `Element.withEndTag`: the changes, and what is written after each of them;
* `Reader.kept_closeUnclosed`, `Reader.kept_closeAll`: closing elements that nothing closes;
* `Reader.Sound.take`: one more piece; `Reader.Sound.recovered`: what is done about a fault;
* `Stage.Sound`, `Stage.Sound.next`: what every turn keeps;
* `kept_readDocument`: what holds at the end. -/

namespace ProjectLens.Markup

variable {index : Index} {elements : Array Element} {roots : List Nat}
  {stack below : List Frame} {frame : Frame} {limit stop : Nat} {r : Reader} {e : Element}
  {span : Span}

/-! ## Changes to an element -/

namespace Element

/-- An element whose location is that of its span. -/
def located (index : Index) (e : Element) : Element :=
  { e with location := { e.location with range := index.spanToRange e.span } }

/-- An element that ends at an offset, and not before its start. -/
def endedAt (stop : Nat) (e : Element) : Element :=
  { e with span := ⟨e.span.start, max stop e.span.start⟩ }

/-- An element with one more attribute in its start tag. -/
def withAttribute (a : Attribute) (e : Element) : Element :=
  { e with
    attributesSpan := some (match e.attributesSpan with
      | some block => ⟨block.start, a.span.stop⟩
      | none => a.span)
    span := ⟨e.span.start, a.span.stop⟩
    attributes := e.attributes ++ [a] }

/-- An element whose start tag ends at an offset. -/
def withStartTag (selfClosing : Bool) (stop : Nat) (e : Element) : Element :=
  { e with
    startTag := some ⟨e.span.start, stop⟩
    span := ⟨e.span.start, stop⟩
    selfClosing := e.selfClosing || selfClosing }

/-- An element with an end tag. -/
def withEndTag (tag : Span) (e : Element) : Element :=
  { e with endTag := some tag, span := ⟨e.span.start, tag.stop⟩ }

/-- Before its start tag has ended, the tag of an element reaches as far as the element does. -/
theorem tagStop_of_none (h : e.startTag = none) : e.tagStop = e.span.stop := by
  rw [tagStop, h]
  rfl

/-- An element that ends later has no shorter start tag. -/
theorem tagStop_le_endedAt (hstop : e.span.stop ≤ stop) : e.tagStop ≤ (e.endedAt stop).tagStop := by
  cases htag : e.startTag with
  | none =>
    rw [tagStop_of_none htag, tagStop_of_none (e := e.endedAt stop) htag]
    exact Nat.le_trans hstop (Nat.le_max_left _ _)
  | some tag =>
    rw [tagStop, tagStop, htag, show (e.endedAt stop).startTag = some tag from htag]
    exact Nat.le_refl _

/-- Without an end tag, its content reaches as far as the element does. -/
theorem contentStop_of_none (h : e.endTag = none) : e.contentStop = e.span.stop := by
  rw [contentStop, h]
  rfl

namespace Written

/-- Setting the place of a written element keeps it written. -/
theorem located (h : e.Written index) : (e.located index).Written index := { h with }

/-- An element without an end tag may be ended later. -/
theorem endedAt (h : e.Written index) (hend : e.endTag = none) (hstop : e.span.stop ≤ stop) :
    (e.endedAt stop).Written index where
  name := h.name
  slash := h.slash
  start_lt := h.start_lt
  attributes := h.attributes
  row := h.row.widen (Nat.le_refl _) (tagStop_le_endedAt hstop)
  attributesSpan := fun block hblock => by
    obtain ⟨hname, hle⟩ := h.attributesSpan block hblock
    exact ⟨hname, Nat.le_trans hle (tagStop_le_endedAt hstop)⟩
  startTag := fun tag htag => by
    obtain ⟨hstart, hle⟩ := h.startTag tag htag
    exact ⟨hstart, Nat.le_trans hle (Nat.le_trans hstop (Nat.le_max_left _ _))⟩
  endTag := fun tag htag => by cases hend.symm.trans htag
  content := h.content

/-- An attribute behind everything so far may be added while the start tag is open. -/
theorem withAttribute {a : Attribute} (h : e.Written index) (htag : e.startTag = none)
    (hend : e.endTag = none) (ha : a.Written index) (hstart : e.span.stop ≤ a.span.start) :
    (e.withAttribute a).Written index where
  name := h.name
  slash := h.slash
  start_lt := h.start_lt
  attributes := fun other hother => by
    rcases List.mem_append.mp hother with hother | hother
    · exact h.attributes other hother
    · rwa [List.mem_singleton.mp hother]
  row := by
    have hrow := h.row
    rw [tagStop_of_none htag] at hrow
    rw [tagStop_of_none (e := e.withAttribute a) htag]
    show Spread _ ((e.attributes ++ [a]).map Attribute.span) a.span.stop
    rw [List.map_append]
    exact (hrow.widen (Nat.le_refl _) hstart).append
      ⟨Nat.le_refl _, Nat.le_of_lt ha.start_lt, Nat.le_refl _⟩
  attributesSpan := fun block hblock => by
    have hname := h.row.le
    rw [tagStop_of_none htag] at hname
    rw [tagStop_of_none (e := e.withAttribute a) htag]
    -- the attribute ends what is covered, and starts it if it is the first one
    cases hblock
    cases hbefore : e.attributesSpan with
    | none => exact ⟨Nat.le_trans hname hstart, Nat.le_refl _⟩
    | some before => exact ⟨(h.attributesSpan before hbefore).1, Nat.le_refl _⟩
  startTag := fun tag ht => by cases htag.symm.trans ht
  endTag := fun tag ht => by cases hend.symm.trans ht
  content := h.content

/-- The start tag may be ended once, at or behind everything so far. -/
theorem withStartTag (selfClosing : Bool) (h : e.Written index) (htag : e.startTag = none)
    (hend : e.endTag = none) (hstop : e.span.stop ≤ stop) :
    (e.withStartTag selfClosing stop).Written index where
  name := h.name
  slash := h.slash
  start_lt := h.start_lt
  attributes := h.attributes
  row := by
    have hrow := h.row
    rw [tagStop_of_none htag] at hrow
    exact hrow.widen (Nat.le_refl _) hstop
  attributesSpan := fun block hblock => by
    obtain ⟨hname, hle⟩ := h.attributesSpan block hblock
    rw [tagStop_of_none htag] at hle
    exact ⟨hname, Nat.le_trans hle hstop⟩
  startTag := fun tag ht => by
    cases ht
    exact ⟨rfl, Nat.le_refl _⟩
  endTag := fun tag ht => by cases hend.symm.trans ht
  content := h.content

/-- The end tag may be put behind everything so far, once the start tag has ended. -/
theorem withEndTag {tag : Span} (h : e.Written index) (hopen : e.startTag.isSome = true)
    (hstart : e.span.stop ≤ tag.start) (hstop : tag.start < tag.stop) :
    (e.withEndTag tag).Written index := by
  obtain ⟨opening, htag⟩ := Option.isSome_iff_exists.mp hopen
  -- the end tag comes behind all that was written of the element before
  have htagStop : (e.withEndTag tag).tagStop = e.tagStop := by
    rw [tagStop, tagStop, htag, show (e.withEndTag tag).startTag = some opening from htag]
    rfl
  have hle := h.tagStop_le
  exact
    { name := h.name
      slash := h.slash
      start_lt := h.start_lt
      attributes := h.attributes
      row := by rw [htagStop]; exact h.row
      attributesSpan := by rw [htagStop]; exact h.attributesSpan
      startTag := fun other ht => by
        obtain ⟨hs, hother⟩ := h.startTag other ht
        refine ⟨hs, ?_⟩
        show other.stop ≤ tag.stop
        omega
      endTag := fun other ht => by
        cases ht
        rw [htagStop]
        exact ⟨hopen, by omega, hstop, rfl⟩
      content := h.content }

end Written

/-- An open element has content only once its start tag has ended. -/
theorem Open.content_eq_nil {inStartTag : Bool} (h : e.Open inStartTag)
    (hnone : e.startTag = none) : e.content = [] := by
  have hstate := h.startTag
  rw [hnone] at hstate
  exact h.content (by simpa using hstate.symm)

/-- An element whose start tag is open has none recorded. -/
theorem Open.startTag_eq_none (h : e.Open true) : e.startTag = none := by
  simpa using h.startTag

end Element

/-! ## Closing elements -/

/-- All elements around one that is open have had their start tags. -/
theorem Chain.outside {tail : List Content} {bound : Nat}
    (h : Chain elements roots tail bound limit stack) (filled : tail ≠ []) :
    ∀ frame ∈ stack, frame.inStartTag = false := by
  induction stack generalizing tail bound limit with
  | nil => intro frame hframe; cases hframe
  | cons first below ih =>
    obtain ⟨e, items, hopen, hbelow⟩ := h
    intro frame hframe
    rcases List.mem_cons.mp hframe with rfl | hframe
    · cases hinside : frame.inStartTag with
      | false => rfl
      | true =>
        have hcontent := hopen.state.content hinside
        rw [hopen.content_eq] at hcontent
        exact absurd (List.append_eq_nil_iff.mp hcontent).2 filled
    · exact ih hbelow (List.cons_ne_nil _ _) frame hframe

/-- Below the element that was read last no start tag is being read. -/
theorem Kept.outside_below (h : Kept index elements roots (frame :: below) limit) :
    ∀ frame ∈ below, frame.inStartTag = false := by
  obtain ⟨e, -, hbelow, -⟩ := h.top
  exact hbelow.outside (List.cons_ne_nil _ _)

/-- Where no open element is in its start tag, the innermost one is not. -/
theorem any_inStartTag_of_outside (h : ∀ frame ∈ stack, frame.inStartTag = false) :
    stack.head?.any Frame.inStartTag = false := by
  cases stack with
  | nil => rfl
  | cons frame below => exact h frame (.head _)

namespace Reader

/-- Closing an element that nothing closes changes its span first, and its location after it. -/
theorem revises_closeUnclosed {id : Nat} (he : r.elements[id]? = some e) :
    Revises r.elements (r.closeUnclosed index id stop).elements id e
      ((e.endedAt stop).located index) :=
  (revises_modify (f := Element.endedAt stop) he).trans
    (revises_modify (f := Element.located index) (revises_modify he).new)

/-- **Closing the element that was read last, at an offset.** -/
theorem kept_closeUnclosed (h : Kept index r.elements roots (frame :: below) limit)
    (hle : limit ≤ stop) (hlength : stop ≤ index.length) :
    Kept index (r.closeUnclosed index frame.element stop).elements roots below stop := by
  obtain ⟨e, hopen, -, -⟩ := h.top
  have hstart := h.start_lt hopen.get
  have hmax : max stop e.span.start = stop := by omega
  -- it ends where it was found unclosed, and so does its content
  have hwritten := (h.written hopen.get).endedAt hopen.state.endTag
    (Nat.le_trans hopen.stop_le hle)
  have hcontent : (e.endedAt stop).contentStop = stop := by
    rw [Element.contentStop_of_none (e := e.endedAt stop) hopen.state.endTag]
    exact hmax
  refine h.close (revises_closeUnclosed hopen.get) ⟨⟨rfl, rfl, rfl, rfl⟩, rfl,
    fun a ha => h.linked.attribute_depth hopen.get a ha, hwritten.located⟩ rfl ?_
    (Nat.le_of_eq hmax) hle hlength
  show Spread (e.endedAt stop).tagStop (e.content.map (Content.spanIn r.elements))
    (e.endedAt stop).contentStop
  rw [hcontent]
  cases htag : e.startTag with
  | none =>
    rw [hopen.state.content_eq_nil htag, Element.tagStop_of_none (e := e.endedAt stop) htag]
    exact Nat.le_of_eq hmax
  | some tag =>
    have hrow := hopen.row
    rw [Element.tagStop, htag] at hrow
    rw [Element.tagStop, show (e.endedAt stop).startTag = some tag from htag]
    exact hrow.widen (Nat.le_refl _) hle

/-- **Closing all elements above some others, at an offset.** -/
theorem kept_closeAll {frames : List Frame}
    (h : Kept index r.elements roots (frames ++ below) limit) (hle : limit ≤ stop)
    (hlength : stop ≤ index.length) :
    Kept index (frames.foldl (fun r frame => r.closeUnclosed index frame.element stop) r).elements
      roots below stop := by
  induction frames generalizing r limit with
  | nil => exact h.mono hle hlength
  | cons frame frames ih =>
    exact ih (r := r.closeUnclosed index frame.element stop) (kept_closeUnclosed h hle hlength)
      (Nat.le_refl _)

/-- Closing what is left open adds no root. -/
theorem roots_closeAll {frames : List Frame} :
    (frames.foldl (fun r frame => r.closeUnclosed index frame.element stop) r).roots =
      r.roots := by
  induction frames generalizing r with
  | nil => rfl
  | cons frame frames ih => exact ih (r := r.closeUnclosed index frame.element stop)

/-- **Closing the element that was read last with an end tag.** -/
theorem kept_endTag {id : Nat}
    (h : Kept index r.elements r.roots (⟨id, false⟩ :: below) span.start)
    (hlt : span.start < span.stop) (hstop : span.stop ≤ index.length) :
    Kept index ((r.elements.modify id (Element.withEndTag span)).modify id
      (Element.located index)) r.roots below span.stop := by
  obtain ⟨e, hopen, -, -⟩ := h.top
  have hopened : e.startTag.isSome = true := hopen.state.startTag
  have rev : Revises r.elements _ id e ((e.withEndTag span).located index) :=
    (revises_modify hopen.get).trans (revises_modify (f := Element.located index)
      (revises_modify (f := Element.withEndTag span) hopen.get).new)
  have hwritten := (h.written hopen.get).withEndTag hopened hopen.stop_le hlt
  refine h.close rev ⟨⟨rfl, rfl, rfl, rfl⟩, rfl,
    fun a ha => h.linked.attribute_depth hopen.get a ha, hwritten.located⟩ rfl ?_
    (Nat.le_refl _) (Nat.le_of_lt hlt) hstop
  obtain ⟨opening, htag⟩ := Option.isSome_iff_exists.mp hopened
  have hrow := hopen.row
  rw [Element.tagStop, htag] at hrow
  rw [Element.tagStop, show ((e.withEndTag span).located index).startTag = some opening from htag]
  exact hrow

/-! ## Adding elements -/

/-- The element that a reader adds. -/
def added (r : Reader) (index : Index) (name qualifier : String) (span nameSpan : Span) : Element :=
  { id := r.elements.size, name, qualifier, span, nameSpan
    parent := r.stack.head?.map Frame.element
    startTag := none
    attributesSpan := none
    endTag := none
    selfClosing := false
    attributes := []
    content := []
    location := ⟨index.spanToRange span, r.stack.length, name⟩ }

/-- A new element is put behind the others, and its parent learns of it. -/
theorem elements_newElement (name qualifier : String) (span nameSpan : Span) :
    (r.newElement index name qualifier span nameSpan).elements =
      withElement r.elements (r.added index name qualifier span nameSpan) := by
  unfold newElement withElement added
  cases r.stack.head?.map Frame.element <;> rfl

/-- A new element without a parent becomes a root. -/
theorem roots_newElement (name qualifier : String) (span nameSpan : Span) :
    (r.newElement index name qualifier span nameSpan).roots =
      withRoot r.elements r.roots (r.added index name qualifier span nameSpan) := by
  unfold newElement withRoot added
  cases r.stack.head?.map Frame.element <;> rfl

/-- A new element is not on the stack yet. -/
theorem stack_newElement (index : Index) (name qualifier : String) (span nameSpan : Span) :
    (r.newElement index name qualifier span nameSpan).stack = r.stack := by
  unfold newElement
  cases r.stack.head?.map Frame.element <;> rfl

/-- A new element reports nothing. -/
theorem diagnostics_newElement (name qualifier : String) (span nameSpan : Span) :
    (r.newElement index name qualifier span nameSpan).diagnostics = r.diagnostics := by
  unfold newElement
  cases r.stack.head?.map Frame.element <;> rfl

/-- **A span of something that is read next**: it comes after all that was read, and is not empty. -/
structure Follows (index : Index) (limit : Nat) (span : Span) : Prop where
  /-- It comes later. -/
  start_le : limit ≤ span.start
  /-- It is not empty. -/
  start_lt : span.start < span.stop
  /-- It ends in the text. -/
  stop_le : span.stop ≤ index.length

/-- `Follows index limit span → limit ≤ span.stop`. -/
theorem Follows.le_stop (h : Follows index limit span) : limit ≤ span.stop :=
  Nat.le_trans h.start_le (Nat.le_of_lt h.start_lt)

/-- **Adding an element** whose name is written in it. -/
theorem kept_newElement (h : Kept index r.elements r.roots r.stack limit)
    (outside : r.inStartTag = false) (hspan : Follows index limit span)
    {name : String} (qualifier : String) {nameSpan : Span} (hname : index.Holds nameSpan name)
    (hslash : '/' ∉ name.toList) (hstart : span.start < nameSpan.start)
    (hstop : nameSpan.stop ≤ span.stop) :
    Kept index (r.newElement index name qualifier span nameSpan).elements
      (r.newElement index name qualifier span nameSpan).roots
      (⟨r.elements.size, true⟩ :: r.stack) span.stop := by
  rw [elements_newElement, roots_newElement]
  -- the new element is its start tag's opening so far, with nothing recorded but its name
  refine h.add outside rfl rfl rfl rfl rfl ⟨rfl, rfl, fun _ => rfl⟩ ?_ hspan.start_le
    (Nat.le_refl _) hspan.stop_le
  exact
    { name := hname
      slash := hslash
      start_lt := hstart
      attributes := fun a ha => nomatch ha
      row := hstop
      attributesSpan := fun block hblock => nomatch hblock
      startTag := fun tag ht => nomatch ht
      endTag := fun tag ht => nomatch ht
      content := fun c hc => nomatch hc }

/-! ## Pieces -/

/-- An attribute as it is added to an element whose start tag is being read. -/
theorem addAttribute_eq {id : Nat} (hstack : r.stack = ⟨id, true⟩ :: below) (name : QName)
    (value : String) (valueSpan span : Span) :
    r.addAttribute index name value valueSpan span =
      (r.say index .trace span ("captured attribute " ++ name.text)).update id
        (Element.withAttribute ⟨name.text, value, span, name.span, valueSpan,
          ⟨index.spanToRange span, below.length + 1, name.text⟩⟩) := by
  unfold addAttribute
  simp only [hstack]
  rfl

/-- The end of a start tag as it is noted in the element. -/
theorem endStartTag_eq {id : Nat} {inside : Bool} (hstack : r.stack = ⟨id, inside⟩ :: below)
    (selfClosing : Bool) (span : Span) :
    r.endStartTag index selfClosing span =
      if selfClosing then
        { r.update id (Element.withStartTag selfClosing span.stop) with
          stack := below }.finishElement index id
      else
        { r.update id (Element.withStartTag selfClosing span.stop) with
          stack := ⟨id, false⟩ :: below } := by
  unfold endStartTag
  simp only [hstack]
  rfl

/-- **What an end tag can do**: it matches no open element, or it closes the innermost one of its name
after all those inside it. -/
theorem closeElement_cases (r : Reader) (index : Index) (name : QName) (span : Span) :
    r.closeElement index name span = r.say index .warning span
        ("closing tag </" ++ name.text ++ "> does not match any open element") ∨
      ∃ (others below : List Frame) (id : Nat) (inside : Bool) (closed : Reader),
        r.stack = others ++ ⟨id, inside⟩ :: below ∧
        closed = others.foldl (fun r frame => r.closeUnclosed index frame.element span.start) r ∧
        r.closeElement index name span =
          { closed.update id (Element.withEndTag span) with stack := below }.finishElement index id := by
  unfold closeElement
  simp only
  split
  · exact .inl rfl
  · next id inside below hdrop =>
    have hsplit := List.takeWhile_append_dropWhile (l := r.stack)
      (p := fun frame => decide (r.nameOf frame.element ≠ name.text))
    rw [hdrop] at hsplit
    exact .inr ⟨_, below, id, inside, _, hsplit.symm, rfl, rfl⟩

/-- **What holds of a reader** that has read up to `limit`; `inside` says whether it is in a start
tag. -/
structure Sound (index : Index) (r : Reader) (limit : Nat) (inside : Bool) : Prop where
  /-- All is kept. -/
  kept : Kept index r.elements r.roots r.stack limit
  /-- Whether a start tag is being read. -/
  inside : r.inStartTag = inside

namespace Sound

/-- Outside of start tags no element on the stack is in its start tag. -/
theorem outside (h : Sound index r limit false) : ∀ frame ∈ r.stack, frame.inStartTag = false := by
  obtain ⟨hkept, hinside⟩ := h
  unfold inStartTag at hinside
  cases hstack : r.stack with
  | nil => intro frame hframe; cases hframe
  | cons first below =>
    rw [hstack] at hkept hinside
    intro frame hframe
    rcases List.mem_cons.mp hframe with rfl | hframe
    · exact hinside
    · exact hkept.outside_below frame hframe

/-- The element whose start tag is being read. -/
theorem exists_top (h : Sound index r limit true) : ∃ id below e, r.stack = ⟨id, true⟩ :: below ∧
    Kept index r.elements r.roots (⟨id, true⟩ :: below) limit ∧
    OpenAt r.elements [] r.elements.size limit ⟨id, true⟩ below e e.content := by
  obtain ⟨id, below, hstack⟩ := inStartTag_eq_true h.inside
  have hkept := h.kept
  rw [hstack] at hkept
  obtain ⟨e, hopen, -, -⟩ := hkept.top
  exact ⟨id, below, e, hstack, hkept, hopen⟩

/-- A sound reader stays sound for a piece further on. -/
theorem mono {inside : Bool} (h : Sound index r limit inside) (hspan : Follows index limit span) :
    Sound index r span.stop inside :=
  ⟨h.kept.mono hspan.le_stop hspan.stop_le, h.inside⟩

/-- Saying something changes nothing else. -/
theorem say {inside : Bool} (h : Sound index r limit inside) (severity : Severity) (span : Span)
    (message : String) : Sound index (r.say index severity span message) limit inside :=
  ⟨h.kept, h.inside⟩

/-- Opening an element keeps a reader sound and leaves it inside the start tag. -/
theorem openElement (h : Sound index r limit false) (hspan : Follows index limit span)
    {name : QName} (hstands : (Event.tagStart name span).Stands index) :
    Sound index (r.openElement index name span) span.stop true := by
  refine ⟨?_, rfl⟩
  obtain ⟨hname, hslash, hstart, hstop⟩ := hstands
  have hadded := kept_newElement h.kept h.inside hspan (String.ofList name.qualifier)
    hname hslash hstart (Nat.le_of_eq hstop)
  have hstack : (r.openElement index name span).stack = ⟨r.elements.size, true⟩ :: r.stack := by
    unfold Reader.openElement
    simp only [Reader.say, stack_newElement]
  rw [hstack]
  exact hadded

/-- Adding an attribute keeps a reader sound, still inside the start tag. -/
theorem addAttribute (h : Sound index r limit true) (hspan : Follows index limit span)
    {name : QName} {value : String} {valueSpan : Span}
    (hstands : (Event.attribute name value valueSpan span).Stands index) :
    Sound index (r.addAttribute index name value valueSpan span) span.stop true := by
  obtain ⟨id, below, e, hstack, hkept, hopen⟩ := h.exists_top
  obtain ⟨hname, hslash, hvalue, hstart, hbetween, hstop⟩ := hstands
  let a : Attribute := ⟨name.text, value, span, name.span, valueSpan,
    ⟨index.spanToRange span, below.length + 1, name.text⟩⟩
  have htag := hopen.state.startTag_eq_none
  have hwritten := (hkept.written hopen.get).withAttribute (a := a) htag hopen.state.endTag
    ⟨hspan.start_lt, hname, hslash, hvalue, hstart, hbetween, hstop⟩
    (Nat.le_trans hopen.stop_le hspan.start_le)
  rw [addAttribute_eq hstack]
  refine ⟨?_, h.inside⟩
  show Kept index _ _ r.stack _
  rw [hstack]
  -- the element stays open, with one attribute more and still no content
  refine hkept.revise (revises_modify hopen.get) ⟨⟨rfl, rfl, rfl, rfl⟩, rfl, ?_, hwritten⟩
    ⟨hopen.state.endTag, hopen.state.startTag, hopen.state.content⟩ ?_ (Nat.le_refl _)
    hspan.le_stop hspan.stop_le
  · intro other hother
    rcases List.mem_append.mp hother with hother | hother
    · exact hkept.linked.attribute_depth hopen.get other hother
    · rw [List.mem_singleton.mp hother]
      exact congrArg (· + 1) hopen.depth_eq.symm
  · show Spread _ (e.content.map _) _
    rw [hopen.state.content_eq_nil htag, Element.tagStop_of_none (e := e.withAttribute a) htag]
    exact Nat.le_refl _

/-- Ending the start tag keeps a reader sound and leaves it outside, closed at once or open. -/
theorem endStartTag (h : Sound index r limit true) (hspan : Follows index limit span)
    (selfClosing : Bool) : Sound index (r.endStartTag index selfClosing span) span.stop false := by
  obtain ⟨id, below, e, hstack, hkept, hopen⟩ := h.exists_top
  have htag := hopen.state.startTag_eq_none
  have hcontent := hopen.state.content_eq_nil htag
  -- the start tag is the last thing written of it, and nothing is in it yet
  have hwritten := (hkept.written hopen.get).withStartTag selfClosing htag
    hopen.state.endTag (Nat.le_trans hopen.stop_le hspan.le_stop)
  have hattributes : ∀ a ∈ (e.withStartTag selfClosing span.stop).attributes,
      a.location.depth = (e.withStartTag selfClosing span.stop).location.depth + 1 :=
    fun a ha => hkept.linked.attribute_depth hopen.get a ha
  have hrow : Spread span.stop (e.content.map (Content.spanIn r.elements)) span.stop := by
    rw [hcontent]
    exact Nat.le_refl _
  rw [endStartTag_eq hstack]
  split
  · -- the element ends with its start tag
    have rev : Revises r.elements
        ((r.elements.modify id (Element.withStartTag selfClosing span.stop)).modify id
          (Element.located index)) id e ((e.withStartTag selfClosing span.stop).located index) :=
      (revises_modify hopen.get).trans (revises_modify (revises_modify hopen.get).new)
    refine ⟨hkept.close rev ⟨⟨rfl, rfl, rfl, rfl⟩, rfl, hattributes, hwritten.located⟩ rfl ?_
      (Nat.le_refl _) hspan.le_stop hspan.stop_le, ?_⟩
    · rw [Element.contentStop_of_none
        (e := (e.withStartTag selfClosing span.stop).located index) hopen.state.endTag]
      exact hrow
    · exact any_inStartTag_of_outside hkept.outside_below
  · -- or it stays open for its content
    exact ⟨hkept.revise (revises_modify hopen.get) ⟨⟨rfl, rfl, rfl, rfl⟩, rfl, hattributes, hwritten⟩
      ⟨hopen.state.endTag, rfl, nofun⟩ hrow (Nat.le_refl _) hspan.le_stop hspan.stop_le, rfl⟩

/-- **An end tag** closes the innermost element of its name, and all inside it. -/
theorem closeElement (h : Sound index r limit false) (hspan : Follows index limit span)
    (name : QName) : Sound index (r.closeElement index name span) span.stop false := by
  rcases closeElement_cases r index name span with
    heq | ⟨others, below, id, inside, closed, hstack, hclosed, heq⟩
  · rw [heq]
    exact (h.mono hspan).say _ _ _
  · obtain rfl : inside = false := h.outside ⟨id, inside⟩ (by rw [hstack]; simp)
    have hkept := h.kept
    rw [hstack] at hkept
    have hinner := kept_closeAll hkept hspan.start_le
      (Nat.le_trans (Nat.le_of_lt hspan.start_lt) hspan.stop_le)
    have hroots : closed.roots = r.roots := by
      rw [hclosed]
      exact roots_closeAll
    rw [← hclosed, ← hroots] at hinner
    rw [heq]
    exact ⟨kept_endTag hinner hspan.start_lt hspan.stop_le,
      any_inStartTag_of_outside hinner.outside_below⟩

/-- **Content** goes to the element that was read last. -/
theorem keep (h : Sound index r limit false) (hspan : Follows index limit span) {c : Content}
    (hc : c.Written index) (hid : ∀ id, c ≠ .element id)
    (hstart : limit ≤ (c.spanIn r.elements).start)
    (horder : (c.spanIn r.elements).start ≤ (c.spanIn r.elements).stop)
    (hstop : (c.spanIn r.elements).stop ≤ span.stop) :
    Sound index (r.keep c) span.stop false := by
  unfold Reader.keep
  split
  · next id below hstack =>
    have hkept := h.kept
    rw [hstack] at hkept
    obtain ⟨e, hopen, -, -⟩ := hkept.top
    -- a piece that is no element adds no child
    have hchildren : (e.withContent c).childElements = e.childElements := by
      unfold Element.childElements Element.withContent
      rw [List.filterMap_append]
      cases c with
      | element id => exact absurd rfl (hid id)
      | text run span => simp
      | cdata run span => simp
      | comment run span => simp
    refine ⟨?_, h.inside⟩
    show Kept index _ _ r.stack _
    rw [hstack]
    refine hkept.revise (revises_modify (f := fun e => e.withContent c) hopen.get)
      ⟨⟨rfl, rfl, rfl, rfl⟩, hchildren, fun a ha => hkept.linked.attribute_depth hopen.get a ha,
        (hkept.written hopen.get).withContent hc⟩
      ⟨hopen.state.endTag, hopen.state.startTag, fun h => absurd h Bool.false_ne_true⟩ ?_
      (Nat.le_trans hopen.stop_le hspan.le_stop) hspan.le_stop hspan.stop_le
    show Spread e.tagStop ((e.content ++ [c]).map _) _
    rw [List.map_append]
    exact (hopen.row.widen (Nat.le_refl _) hstart).append ⟨Nat.le_refl _, horder, hstop⟩
  · exact h.mono hspan

/-- **Taking one more piece.** -/
theorem take {event : Event} (h : Sound index r limit event.withinTag)
    (hspan : Follows index limit event.span) (hstands : event.Stands index) :
    Sound index (r.take index event) event.span.stop event.leavesTag := by
  have hlt := hspan.start_lt
  match event with
  | .tagStart name span => exact h.openElement hspan hstands
  | .attribute name value valueSpan span => exact h.addAttribute hspan hstands
  | .tagEnd selfClosing span => exact h.endStartTag hspan selfClosing
  | .endTag name span => exact h.closeElement hspan name
  | .text run span =>
    exact h.keep hspan hstands nofun hspan.start_le (Nat.le_of_lt hlt) (Nat.le_refl _)
  | .cdata run runSpan span =>
    obtain ⟨hholds, hstart, hstop⟩ := hstands
    exact h.keep hspan hholds nofun (Nat.le_trans hspan.start_le hstart) hholds.start_le hstop
  | .comment run span =>
    exact h.keep hspan trivial nofun hspan.start_le (Nat.le_of_lt hlt) (Nat.le_refl _)
  | .skipped span => exact (h.mono hspan).say _ _ _

/-! ## Faults -/

/-- What could not be read follows all that was read. -/
theorem follows_junkSpan {junk : Nat} (faultAt : Nat) (hjunk : limit ≤ junk)
    (hlt : junk < index.length) :
    Follows index limit (junkSpan index junk faultAt) := by
  unfold junkSpan
  cases hresume : resumeAfter index junk faultAt with
  | none => exact ⟨hjunk, hlt, Nat.le_refl _⟩
  | some resume =>
    obtain ⟨hstart, hstop⟩ := nextTag?_bounds hresume
    refine ⟨hjunk, ?_, Nat.le_of_lt hstop⟩
    show junk < resume
    omega

/-- The name of a tag that is salvaged stands right after its start. -/
theorem holds_salvaged (hspan : Follows index limit span) {name : List Char}
    (h : name <+: index.sliceChars ⟨span.start + 1, span.stop⟩) :
    index.Holds ⟨span.start + 1, span.start + 1 + name.length⟩ (String.ofList name) ∧
      span.start + 1 + name.length ≤ span.stop := by
  have hlt := hspan.start_lt
  have hstop := hspan.stop_le
  have hlength := h.length_le
  simp only [Index.sliceChars, List.length_take] at hlength
  obtain ⟨rest, hrest⟩ := h.trans (List.take_prefix _ _)
  refine ⟨⟨Nat.le_add_right _ _, ?_, ?_⟩, ?_⟩
  · show span.start + 1 + name.length ≤ index.length
    omega
  · simp only [Index.slice, Index.sliceChars, Nat.add_sub_cancel_left]
    rw [← hrest, List.take_left]
  · omega

/-- **Salvaging a tag** adds an element that is closed at once. -/
theorem salvage (h : Sound index r limit false) (hspan : Follows index limit span) :
    Sound index (r.salvage index span) span.stop false := by
  unfold Reader.salvage
  simp only
  generalize hname : (index.sliceChars ⟨span.start + 1, span.stop⟩).takeWhile isSalvageable = name
  generalize String.ofList (if name.contains ':' then name.takeWhile (· ≠ ':') else []) = qualifier
  obtain ⟨hholds, hstop⟩ := holds_salvaged hspan
    (show name <+: _ by rw [← hname]; exact List.takeWhile_prefix _)
  have hslash : '/' ∉ (String.ofList name).toList := by
    rw [String.toList_ofList, ← hname]
    exact fun hmem => absurd (List.all_eq_true.mp List.all_takeWhile _ hmem) (by decide)
  have hkept := kept_newElement h.kept h.inside hspan qualifier hholds hslash
    (Nat.lt_succ_self _) hstop
  have hstack := stack_newElement (r := r) index (String.ofList name) qualifier span
    ⟨span.start + 1, span.start + 1 + name.length⟩
  generalize r.newElement index (String.ofList name) qualifier span
    ⟨span.start + 1, span.start + 1 + name.length⟩ = added at hkept hstack ⊢
  -- the element is opened and closed in one step, with nothing in it
  obtain ⟨e, hopen, -, -⟩ := hkept.top
  have hnone := hopen.state.startTag_eq_none
  refine ⟨?_, ?_⟩
  · show Kept index (added.elements.modify r.elements.size (Element.located index)) added.roots
      added.stack span.stop
    rw [hstack]
    refine hkept.close (revises_modify hopen.get) ⟨⟨rfl, rfl, rfl, rfl⟩, rfl,
      fun a ha => hkept.linked.attribute_depth hopen.get a ha,
      (hkept.written hopen.get).located⟩ rfl ?_ hopen.stop_le (Nat.le_refl _) hspan.stop_le
    show Spread e.tagStop (e.content.map _) e.contentStop
    rw [hopen.state.content_eq_nil hnone, Element.tagStop_of_none hnone,
      Element.contentStop_of_none hopen.state.endTag]
    exact Nat.le_refl _
  · show added.stack.head?.any Frame.inStartTag = false
    rw [hstack]
    exact h.inside

/-- **What is done about a fault** keeps all, up to where reading goes on. -/
theorem recovered {junk faultAt : Nat} {retried inside : Bool} {message : String} {after : Reader}
    {resume : Option Nat} (h : Sound index r limit inside)
    (hcases : Recovered index r junk faultAt retried message after resume)
    (hjunk : limit ≤ junk) (hlt : junk < index.length) :
    Sound index after (resume.getD index.length) false := by
  have hspan := follows_junkSpan faultAt hjunk hlt
  -- one case for each way recovery can go, the first of which leaves the reader alone
  cases hcases with
  | retry head outside first =>
    rw [h.inside] at outside
    subst outside
    exact ⟨h.kept.mono hjunk (Nat.le_of_lt hlt), h.inside⟩
  | broken stack =>
    have hkept := h.kept
    rw [stack] at hkept
    exact ⟨kept_closeUnclosed hkept hspan.le_stop hspan.stop_le,
      any_inStartTag_of_outside hkept.outside_below⟩
  | salvaged head outside =>
    rw [h.inside] at outside
    subst outside
    exact (h.say _ _ _).salvage hspan
  | skipped outside =>
    rw [h.inside] at outside
    subst outside
    exact ((h.say _ _ _).mono hspan).say _ _ _

/-- **At the end** all elements are closed. -/
theorem finish {inside : Bool} (h : Sound index r limit inside) :
    Kept index (r.finish index).elements (r.finish index).roots [] index.length := by
  have hkept := h.kept
  rw [← List.append_nil r.stack] at hkept
  have hroots : (r.finish index).roots = r.roots := roots_closeAll
  rw [hroots]
  exact kept_closeAll hkept h.kept.limit_le (Nat.le_refl _)

end Sound

end Reader

/-! ## All of reading -/

/-- **What every turn of reading keeps**: all that holds of the reader, which is in a start tag just when
the scanner is. -/
def Stage.Sound (index : Index) (stage : Stage) : Prop :=
  stage.reader.Sound index stage.progress.lastGood (stage.scanner.phase = .tag)

/-- Reading starts sound. -/
theorem Stage.sound_start (index : Index) : (Stage.start index).Sound index :=
  ⟨kept_start index, rfl⟩

namespace Stage.Sound

variable {stage later : Stage}

/-- What is done about a fault keeps all. -/
theorem recovered (h : stage.Sound index) (hs : stage.Standing index) {fault : Fault}
    (found : stage.scanner.next = .fault fault) {after : Reader} {resume : Option Nat}
    (recovered : stage.recover index fault = (after, resume)) :
    after.Sound index (resume.getD index.length) false := by
  obtain ⟨junk, hcases, hjunk, hlt⟩ := hs.exists_recovered found recovered
  exact Reader.Sound.recovered h hcases hjunk hlt

/-- **One turn of reading keeps all.** -/
theorem next (h : stage.Sound index) (hs : stage.Standing index)
    (hnext : stage.Next index later) : later.Sound index := by
  cases hnext with
  | event found =>
    obtain ⟨hstart, hlt, hstop, hin, hstands⟩ := hs.lt_stop found
    have hsound := Scanner.next_sound hs.inText
    rw [found] at hsound
    obtain ⟨-, hwithin, hleaves⟩ := hsound
    unfold Stage.Sound at h ⊢
    rw [← hwithin] at h
    simp only [hleaves, Bool.decide_eq_true]
    exact h.take ⟨hstart, hlt, by rw [hstop]; exact hin.offset_le⟩ hstands
  | restart found recovered => exact h.recovered hs found recovered

/-- At the end all elements are closed. -/
theorem ends (h : stage.Sound index) (hs : stage.Standing index) {r : Reader}
    (hends : stage.Ends index r) : Kept index r.elements r.roots [] index.length := by
  cases hends with
  | done found => exact Reader.Sound.finish h
  | stop found recovered => exact (h.recovered hs found recovered).finish

end Stage.Sound

/-- **What is kept holds of every document**, whatever its text. -/
theorem kept_readDocument (index : Index) :
    Kept index (readDocument index).1.elements (readDocument index).1.roots [] index.length :=
  Stage.read_induction (Q := fun r => Kept index r.elements r.roots [] index.length)
    (Stage.sound_start index) (fun hs h hnext => h.next hs hnext)
    (fun hs h hends => h.ends hs hends)

end ProjectLens.Markup
