import Mathlib.Logic.ExistsUnique
import ProjectLens.Proofs.Building
import ProjectLens.Proofs.Places

/-! # What is reported about elements

An element leaves the stack by its own start tag, by an end tag, because another end tag or the end of
the text leaves nothing to close it, or because its start tag is broken; a tag that cannot be read
becomes an element that never was on the stack. On each of these ways just what has to be reported is
reported: a closed element is passed over in silence, an element that nothing closes is named once, and
a salvaged one has its error.

* `reportsAt`: what is reported at an offset; `notClosed`: the warning about an element;
* `Element.Settles`: how an element ends, with all that is reported where it starts;
* `Reported`: what reading keeps true; `Reported.revise`, `Reported.close`, `Reported.add`: changes to
  elements, with whatever is said about them;
* `Reader.reported_take`, `Reader.reported_recovered`: one more piece, and what is done about a fault;
* `Fate`, `readDocument_accounted`: what holds of every document. -/

namespace ProjectLens

/-- Whether a diagnostic is placed at an offset. -/
def Diagnostic.isAt (index : Index) (offset : Nat) (d : Diagnostic) : Bool :=
  d.range.map Range.start = some (index.positionAt offset)

/-- A diagnostic about a span is placed at its start. -/
theorem Diagnostic.isAt_start (index : Index) (severity : Severity) (origin : Origin)
    (message : String) (span : Span) :
    (⟨severity, origin, message, some (index.spanToRange span)⟩ : Diagnostic).isAt index span.start =
      true := by
  rw [isAt, decide_eq_true_eq]
  rfl

/-- A diagnostic is placed at one offset only. -/
theorem Diagnostic.isAt_eq_false {index : Index} (lined : index.Lined) {d : Diagnostic} {a b : Nat}
    (h : d.isAt index a = true) (ha : a ≤ index.length) (hb : b ≤ index.length) (hne : a ≠ b) :
    d.isAt index b = false := by
  rw [isAt, decide_eq_true_eq] at h
  rw [isAt, decide_eq_false_iff_not, h, Option.some.injEq]
  exact fun heq => hne (lined.positionAt_inj ha hb heq)

namespace Markup

variable {index : Index} {elements elements' : Array Element} {roots : List Nat}
  {stack stack' below : List Frame} {frame : Frame} {limit limit' stop offset : Nat} {r : Reader}
  {e e' : Element} {span : Span} {diagnostics diagnostics' : Array Diagnostic} {d : Diagnostic}

/-! ## Reports at an offset -/

/-- **What is reported at an offset**: the warnings and errors that are placed there. Traces do not
count. -/
def reportsAt (index : Index) (diagnostics : Array Diagnostic) (offset : Nat) : List Diagnostic :=
  diagnostics.toList.filter fun d => !d.isTrace && d.isAt index offset

/-- The warning about an element that nothing closes. -/
def notClosed (index : Index) (e : Element) : Diagnostic :=
  ⟨.warning, .reader, "element <" ++ e.name ++ "> is not closed",
    some (index.spanToRange (Span.emptyAt e.span.start))⟩

/-- The reports at an offset are the stored ones that are there and no traces. -/
theorem mem_reportsAt : d ∈ reportsAt index diagnostics offset ↔
    d ∈ diagnostics.toList ∧ d.isTrace = false ∧ d.isAt index offset = true := by
  rw [reportsAt, List.mem_filter, Bool.and_eq_true, Bool.not_eq_true']

/-- A further report is put behind those at its own offset and changes those at no other. -/
theorem reportsAt_push : reportsAt index (diagnostics.push d) offset =
    reportsAt index diagnostics offset ++
      if d.isTrace = false ∧ d.isAt index offset = true then [d] else [] := by
  unfold reportsAt
  rw [Array.toList_push, List.filter_append, List.filter_cons, List.filter_nil]
  simp only [Bool.and_eq_true, Bool.not_eq_true']

/-- A trace changes the reports at no offset. -/
theorem reportsAt_push_trace (hd : d.isTrace = true) :
    reportsAt index (diagnostics.push d) offset = reportsAt index diagnostics offset := by
  rw [reportsAt_push, if_neg (by simp [hd]), List.append_nil]

/-- A report changes nothing at other offsets. -/
theorem reportsAt_push_other (lined : index.Lined) {place : Nat} (hd : d.isAt index place = true)
    (hplace : place ≤ index.length) (hoffset : offset ≤ index.length) (hne : place ≠ offset) :
    reportsAt index (diagnostics.push d) offset = reportsAt index diagnostics offset := by
  have hfalse := Diagnostic.isAt_eq_false lined hd hplace hoffset hne
  rw [reportsAt_push, if_neg (by simp [hfalse]), List.append_nil]

/-! ## How elements end -/

/-- **How an element ends**, with all that is reported where it starts. -/
inductive Element.Settles (index : Index) (reports : List Diagnostic) (e : Element) : Prop where
  /-- Its start tag closes it; nothing stands in it. -/
  | selfClosing (closes : e.selfClosing = true) (endTag : e.endTag = none) (content : e.content = [])
      (silent : reports = []) : Settles index reports e
  /-- An end tag closes it. -/
  | ended (closes : e.selfClosing = false) (endTag : e.endTag.isSome = true)
      (silent : reports = []) : Settles index reports e
  /-- Nothing closes it, which is said once. -/
  | unclosed (closes : e.selfClosing = false) (endTag : e.endTag = none)
      (told : reports = [notClosed index e]) : Settles index reports e
  /-- It is salvaged from a tag that could not be read. -/
  | salvaged {d : Diagnostic} (closes : e.selfClosing = false) (startTag : e.startTag = none)
      (endTag : e.endTag = none) (attributes : e.attributes = []) (content : e.content = [])
      (told : reports = [d]) (isError : d.severity = .error)
      (placed : d.range = some (index.spanToRange (Span.emptyAt e.span.start))) :
      Settles index reports e

/-- Every report is about something that was read, which ends at `limit`. -/
def Early (index : Index) (diagnostics : Array Diagnostic) (limit : Nat) : Prop :=
  ∀ d ∈ diagnostics.toList, d.isTrace = false → ∃ offset < limit, d.isAt index offset = true

namespace Early

/-- What is early for a limit is early for a later one. -/
theorem mono (h : Early index diagnostics limit) (hle : limit ≤ limit') :
    Early index diagnostics limit' := by
  intro d hd htrace
  obtain ⟨offset, hlt, hat⟩ := h d hd htrace
  exact ⟨offset, Nat.lt_of_lt_of_le hlt hle, hat⟩

/-- A report before the limit keeps all early. -/
theorem report (h : Early index diagnostics limit) (hd : d.isAt index offset = true)
    (hlt : offset < limit) : Early index (diagnostics.push d) limit := by
  intro other hother htrace
  rw [Array.toList_push, List.mem_append, List.mem_singleton] at hother
  rcases hother with hother | rfl
  · exact h other hother htrace
  · exact ⟨offset, hlt, hd⟩

/-- So does a trace, wherever it is. -/
theorem trace (h : Early index diagnostics limit) (hd : d.isTrace = true) :
    Early index (diagnostics.push d) limit := by
  intro other hother htrace
  rw [Array.toList_push, List.mem_append, List.mem_singleton] at hother
  rcases hother with hother | rfl
  · exact h other hother htrace
  · rw [hd] at htrace
    cases htrace

end Early

/-- **What reading keeps true** of elements, the stack and what was said, up to `limit`. -/
structure Reported (index : Index) (elements : Array Element) (stack : List Frame)
    (diagnostics : Array Diagnostic) (limit : Nat) : Prop where
  /-- Every report is about something that was read. -/
  early : Early index diagnostics limit
  /-- Nothing is reported about an element as long as it is open. -/
  silent : ∀ {i : Nat} {e : Element}, elements[i]? = some e → i ∈ stack.map Frame.element →
    e.selfClosing = false ∧ reportsAt index diagnostics e.span.start = []
  /-- All other elements have ended. -/
  settles : ∀ {i : Nat} {e : Element}, elements[i]? = some e → i ∉ stack.map Frame.element →
    e.Settles index (reportsAt index diagnostics e.span.start)

namespace Reported

/-- Before anything was read nothing was said. -/
theorem start (index : Index) : Reported index #[] [] #[] 0 where
  early := fun _ hd => nomatch hd
  silent := fun h => nomatch h
  settles := fun h => nomatch h

/-- Nothing is reported yet about what comes next. -/
theorem reportsAt_eq_nil (h : Reported index elements stack diagnostics limit)
    (lined : index.Lined) (hle : limit ≤ offset)
    (hoffset : offset ≤ index.length) : reportsAt index diagnostics offset = [] := by
  rw [List.eq_nil_iff_forall_not_mem]
  intro d hd
  obtain ⟨hmem, htrace, hat⟩ := mem_reportsAt.mp hd
  obtain ⟨place, hlt, hplace⟩ := h.early d hmem htrace
  rw [Diagnostic.isAt_eq_false lined hplace (by omega) hoffset (by omega)] at hat
  cases hat

/-- What is said may be said differently, as long as the reports about elements stay. -/
theorem congr (h : Reported index elements stack diagnostics limit)
    (early : Early index diagnostics' limit')
    (same : ∀ {i : Nat} {e : Element}, elements[i]? = some e →
      reportsAt index diagnostics' e.span.start = reportsAt index diagnostics e.span.start) :
    Reported index elements stack diagnostics' limit' where
  early := early
  silent := fun he hi => by
    rw [same he]
    exact h.silent he hi
  settles := fun he hi => by
    rw [same he]
    exact h.settles he hi

/-- A reader's reports stay as they should be for a later limit. -/
theorem mono (h : Reported index elements stack diagnostics limit) (hle : limit ≤ limit') :
    Reported index elements stack diagnostics limit' :=
  h.congr (h.early.mono hle) fun _ => rfl

/-- Traces do not count. -/
theorem trace (h : Reported index elements stack diagnostics limit) (hd : d.isTrace = true) :
    Reported index elements stack (diagnostics.push d) limit :=
  h.congr (h.early.trace hd) fun _ => reportsAt_push_trace hd

/-- **A report about what is read next** is about none of the elements. -/
theorem report (h : Reported index elements stack diagnostics limit) (lined : index.Lined)
    (starts : ∀ {i : Nat} {e : Element}, elements[i]? = some e → e.span.start < limit)
    (hd : d.isAt index offset = true) (hle : limit ≤ offset) (hlt : offset < limit')
    (hlength : limit' ≤ index.length) :
    Reported index elements stack (diagnostics.push d) limit' := by
  refine h.congr ((h.early.mono (by omega)).report hd hlt) fun he => ?_
  have := starts he
  exact reportsAt_push_other lined hd (by omega) (by omega) (by omega)

/-- **Changing an element that stays open.** -/
theorem revise (h : Reported index elements stack diagnostics limit)
    (rev : Revises elements elements' frame.element e e')
    (hopen : frame.element ∈ stack.map Frame.element)
    (hstack : stack'.map Frame.element = stack.map Frame.element)
    (start_eq : e'.span.start = e.span.start) (selfClosing_eq : e'.selfClosing = e.selfClosing) :
    Reported index elements' stack' diagnostics limit where
  early := h.early
  silent := fun {i x} hx hi => by
    rw [hstack] at hi
    -- what an open element has to be silent about is kept by the change
    by_cases heq : i = frame.element
    · subst heq
      obtain rfl : e' = x := Option.some.inj (rev.new.symm.trans hx)
      rw [start_eq, selfClosing_eq]
      exact h.silent rev.old hi
    · rw [rev.same heq] at hx
      exact h.silent hx hi
  settles := fun {i x} hx hi => by
    rw [hstack] at hi
    have hne : i ≠ frame.element := fun heq => hi (heq ▸ hopen)
    rw [rev.same hne] at hx
    exact h.settles hx hi

/-- **Closing an element**, with all that is said about it. -/
theorem close (h : Reported index elements (frame :: below) diagnostics limit)
    (rev : Revises elements elements' frame.element e e')
    (fresh : frame.element ∉ below.map Frame.element)
    (early : Early index diagnostics' limit')
    (others : ∀ {i : Nat} {x : Element}, elements[i]? = some x → i ≠ frame.element →
      reportsAt index diagnostics' x.span.start = reportsAt index diagnostics x.span.start)
    (settles : e'.Settles index (reportsAt index diagnostics' e'.span.start)) :
    Reported index elements' below diagnostics' limit' where
  early := early
  silent := fun {i x} hx hi => by
    have hne : i ≠ frame.element := fun heq => fresh (heq ▸ hi)
    rw [rev.same hne] at hx
    rw [others hx hne]
    exact h.silent hx (.tail _ hi)
  settles := fun {i x} hx hi => by
    -- the closed element gets its fate now, the others keep theirs
    by_cases heq : i = frame.element
    · subst heq
      obtain rfl : e' = x := Option.some.inj (rev.new.symm.trans hx)
      exact settles
    · rw [rev.same heq] at hx
      rw [others hx heq]
      refine h.settles hx fun hmem => ?_
      rcases List.mem_cons.mp hmem with rfl | hmem
      · exact heq rfl
      · exact hi hmem

/-- **Adding an element that is open**, about which nothing is reported yet. -/
theorem add {new : Element} {inStartTag : Bool}
    (h : Reported index elements stack diagnostics limit)
    (hparent : ∀ {p : Nat}, new.parent = some p → p < elements.size ∧ p ∈ stack.map Frame.element)
    (fresh : reportsAt index diagnostics new.span.start = []) (closes : new.selfClosing = false) :
    Reported index (withElement elements new) (⟨elements.size, inStartTag⟩ :: stack) diagnostics
      limit where
  early := h.early
  silent := fun {i x} hx hi => by
    -- at the start of the new element nothing has been reported
    by_cases heq : i = elements.size
    · rw [heq, getElem?_withElement_size fun hp => (hparent hp).1] at hx
      cases hx
      exact ⟨closes, fresh⟩
    · have hmem : i ∈ stack.map Frame.element := (List.mem_cons.mp hi).resolve_left heq
      rw [getElem?_withElement heq] at hx
      split at hx
      · -- the element around it only gets more content
        obtain ⟨e, he, rfl⟩ := Option.map_eq_some_iff.mp hx
        have hsilent := h.silent he hmem
        exact hsilent
      · exact h.silent hx hmem
  settles := fun {i x} hx hi => by
    simp only [List.map_cons, List.mem_cons, not_or] at hi
    rw [getElem?_withElement_of_ne hi.1 fun hp => hi.2 (hparent hp).2] at hx
    exact h.settles hx hi.2

end Reported

/-! ## Closing elements -/

namespace Reader

/-- Closing an element that nothing closes reports that once. -/
theorem diagnostics_closeUnclosed {id : Nat} (index : Index) (stop : Nat)
    (he : r.elements[id]? = some e) : ∃ d,
    d.isTrace = true ∧ (r.closeUnclosed index id stop).diagnostics =
      (r.diagnostics.push (notClosed index e)).push d := by
  refine ⟨⟨.trace, .reader, "closed element #" ++ toString id,
    some (index.spanToRange (e.endedAt stop).span)⟩, rfl, ?_⟩
  unfold closeUnclosed finishElement say
  simp only [spanOf, nameOf, update, Array.getElem?_modify, if_true, he, Option.map_some,
    Option.getD_some]
  rfl

/-- **Closing the element that was read last, at an offset.** -/
theorem reported_closeUnclosed (lined : index.Lined)
    (hk : Kept index r.elements roots (frame :: below) limit)
    (h : Reported index r.elements (frame :: below) r.diagnostics limit) (hle : limit ≤ stop)
    (hlength : stop ≤ index.length) :
    Reported index (r.closeUnclosed index frame.element stop).elements below
      (r.closeUnclosed index frame.element stop).diagnostics stop := by
  obtain ⟨e, hopen, -, hfresh⟩ := hk.top
  obtain ⟨d, hd, hdiagnostics⟩ := diagnostics_closeUnclosed index stop hopen.get
  obtain ⟨hcloses, hsilent⟩ := h.silent hopen.get (.head _)
  have hstart := hk.start_lt hopen.get
  have hat : (notClosed index e).isAt index e.span.start = true := Diagnostic.isAt_start ..
  rw [hdiagnostics]
  refine h.close (revises_closeUnclosed hopen.get) hfresh
    (((h.early.mono hle).report hat (by omega)).trace hd) ?_ (.unclosed hcloses hopen.state.endTag ?_)
  · intro i x hx hne
    -- no two elements start together
    have hxstart := hk.start_lt hx
    have happart : e.span.start ≠ x.span.start := by
      rcases Nat.lt_or_gt_of_ne hne with hlt | hlt
      · exact Nat.ne_of_gt (hk.linked.start_lt hx hopen.get hlt)
      · exact Nat.ne_of_lt (hk.linked.start_lt hopen.get hx hlt)
    rw [reportsAt_push_trace hd,
      reportsAt_push_other lined hat (by omega) (by omega) happart]
  · show reportsAt index _ e.span.start = [notClosed index e]
    rw [reportsAt_push_trace hd, reportsAt_push, hsilent, if_pos ⟨rfl, hat⟩, List.nil_append]

/-- **Closing all elements above some others, at an offset.** -/
theorem reported_closeAll (lined : index.Lined) {frames : List Frame}
    (hk : Kept index r.elements roots (frames ++ below) limit)
    (h : Reported index r.elements (frames ++ below) r.diagnostics limit) (hle : limit ≤ stop)
    (hlength : stop ≤ index.length) :
    Reported index
      (frames.foldl (fun r frame => r.closeUnclosed index frame.element stop) r).elements below
      (frames.foldl (fun r frame => r.closeUnclosed index frame.element stop) r).diagnostics
      stop := by
  induction frames generalizing r limit with
  | nil => exact h.mono hle
  | cons frame frames ih =>
    exact ih (r := r.closeUnclosed index frame.element stop) (kept_closeUnclosed hk hle hlength)
      (reported_closeUnclosed lined hk h hle hlength) (Nat.le_refl _)

/-! ## Pieces -/

/-- **Adding an element** about which nothing is reported yet. -/
theorem reported_newElement {inside : Bool} (lined : index.Lined) (hs : r.Sound index limit inside)
    (h : Reported index r.elements r.stack r.diagnostics limit) (hspan : Follows index limit span)
    (name qualifier : String) (nameSpan : Span) :
    Reported index (r.newElement index name qualifier span nameSpan).elements
      (⟨r.elements.size, true⟩ :: r.stack) r.diagnostics limit := by
  have hlt := hspan.start_lt
  have hstop := hspan.stop_le
  rw [elements_newElement]
  refine h.add (fun {p} hp => ?_) (h.reportsAt_eq_nil lined hspan.start_le ?_) rfl
  · -- the element around it is the one that was read last
    obtain ⟨frame, hframe, rfl⟩ := Option.map_eq_some_iff.mp hp
    have hmem := List.mem_map_of_mem (f := Frame.element) (List.mem_of_head? hframe)
    exact ⟨hs.kept.chain.lt_bound _ hmem, hmem⟩
  · show span.start ≤ index.length
    omega

/-- Opening an element reports nothing but traces and opens one more. -/
theorem reported_openElement (lined : index.Lined) (hs : r.Sound index limit false)
    (h : Reported index r.elements r.stack r.diagnostics limit) (hspan : Follows index limit span)
    (name : QName) :
    Reported index (r.openElement index name span).elements (r.openElement index name span).stack
      (r.openElement index name span).diagnostics span.stop := by
  have hadded := reported_newElement lined hs h hspan name.text (String.ofList name.qualifier)
    name.span
  unfold openElement
  simp only [say, stack_newElement, diagnostics_newElement]
  exact (hadded.trace rfl).mono hspan.le_stop

/-- Adding an attribute reports nothing but traces. -/
theorem reported_addAttribute (hs : r.Sound index limit true)
    (h : Reported index r.elements r.stack r.diagnostics limit) (hspan : Follows index limit span)
    (name : QName) (value : String) (valueSpan : Span) :
    Reported index (r.addAttribute index name value valueSpan span).elements
      (r.addAttribute index name value valueSpan span).stack
      (r.addAttribute index name value valueSpan span).diagnostics span.stop := by
  obtain ⟨id, below, e, hstack, -, hopen⟩ := hs.exists_top
  rw [addAttribute_eq hstack]
  have hmem : id ∈ r.stack.map Frame.element := by
    rw [hstack]
    exact .head _
  exact ((h.revise (revises_modify hopen.get) hmem rfl rfl rfl).trace rfl).mono hspan.le_stop

/-- Ending a start tag reports nothing but traces, the element closed at once or left open. -/
theorem reported_endStartTag (hs : r.Sound index limit true)
    (h : Reported index r.elements r.stack r.diagnostics limit) (hspan : Follows index limit span)
    (selfClosing : Bool) :
    Reported index (r.endStartTag index selfClosing span).elements
      (r.endStartTag index selfClosing span).stack
      (r.endStartTag index selfClosing span).diagnostics span.stop := by
  obtain ⟨id, below, e, hstack, hkept, hopen⟩ := hs.exists_top
  rw [hstack] at h
  obtain ⟨e', hopen', -, hfresh⟩ := hkept.top
  obtain ⟨hcloses, hsilent⟩ := h.silent hopen.get (.head _)
  rw [endStartTag_eq hstack]
  cases selfClosing with
  | true =>
    have rev : Revises r.elements
        ((r.elements.modify id (Element.withStartTag true span.stop)).modify id
          (Element.located index)) id e ((e.withStartTag true span.stop).located index) :=
      (revises_modify hopen.get).trans (revises_modify (revises_modify hopen.get).new)
    -- closed at once, it has nothing to report
    have hclosed := h.close rev hfresh h.early (fun _ _ => rfl)
      (.selfClosing (Bool.or_true _) hopen.state.endTag (hopen.state.content rfl) hsilent)
    exact (hclosed.trace rfl).mono hspan.le_stop
  | false =>
    -- left open, its fate comes later
    have hrevised : Reported index (r.elements.modify id (Element.withStartTag false span.stop))
        (⟨id, false⟩ :: below) r.diagnostics limit :=
      h.revise (revises_modify hopen.get) (.head _) rfl rfl (Bool.or_false _)
    exact hrevised.mono hspan.le_stop

/-- **An end tag** closes the innermost element of its name; those inside it are reported. -/
theorem reported_closeElement (lined : index.Lined) (hs : r.Sound index limit false)
    (h : Reported index r.elements r.stack r.diagnostics limit) (hspan : Follows index limit span)
    (name : QName) :
    Reported index (r.closeElement index name span).elements (r.closeElement index name span).stack
      (r.closeElement index name span).diagnostics span.stop := by
  have hlt := hspan.start_lt
  rcases closeElement_cases r index name span with
    heq | ⟨others, below, id, inside, closed, hstack, hclosed, heq⟩
  · -- the tag itself is reported
    rw [heq]
    exact h.report lined hs.kept.start_lt (Diagnostic.isAt_start ..) hspan.start_le hlt hspan.stop_le
  · have hkept := hs.kept
    rw [hstack] at hkept h
    have hlength : span.start ≤ index.length := Nat.le_trans (Nat.le_of_lt hlt) hspan.stop_le
    -- those above it on the stack are closed first, each with its report
    have hinner := kept_closeAll hkept hspan.start_le hlength
    have hreported := reported_closeAll lined hkept h hspan.start_le hlength
    rw [← hclosed] at hinner hreported
    obtain ⟨e, hopen, -, hfresh⟩ := hinner.top
    obtain ⟨hcloses, hsilent⟩ := hreported.silent hopen.get (.head _)
    have rev : Revises closed.elements
        ((closed.elements.modify id (Element.withEndTag span)).modify id (Element.located index)) id
        e ((e.withEndTag span).located index) :=
      (revises_modify hopen.get).trans (revises_modify (revises_modify hopen.get).new)
    have hended := hreported.close rev hfresh hreported.early (fun _ _ => rfl)
      (.ended hcloses rfl hsilent)
    rw [heq]
    exact (hended.trace rfl).mono (Nat.le_of_lt hlt)

/-- Keeping a piece of content reports nothing. -/
theorem reported_keep (hs : r.Sound index limit false)
    (h : Reported index r.elements r.stack r.diagnostics limit) (hle : limit ≤ limit')
    (c : Content) :
    Reported index (r.keep c).elements (r.keep c).stack (r.keep c).diagnostics limit' := by
  unfold keep
  split
  · next id below hstack =>
    have hkept := hs.kept
    rw [hstack] at hkept
    obtain ⟨e, hopen, -, -⟩ := hkept.top
    have hmem : id ∈ r.stack.map Frame.element := by
      rw [hstack]
      exact .head _
    have hrevised := h.revise (revises_modify (f := fun e => e.withContent c) hopen.get) hmem rfl rfl
      rfl
    exact hrevised.mono hle
  · exact h.mono hle

/-- **Taking one more piece.** -/
theorem reported_take (lined : index.Lined) {event : Event}
    (hs : r.Sound index limit event.withinTag)
    (h : Reported index r.elements r.stack r.diagnostics limit)
    (hspan : Follows index limit event.span) :
    Reported index (r.take index event).elements (r.take index event).stack
      (r.take index event).diagnostics event.span.stop := by
  match event with
  | .tagStart name span => exact reported_openElement lined hs h hspan name
  | .attribute name value valueSpan span =>
    exact reported_addAttribute hs h hspan name value valueSpan
  | .tagEnd selfClosing span => exact reported_endStartTag hs h hspan selfClosing
  | .endTag name span => exact reported_closeElement lined hs h hspan name
  | .text run span => exact reported_keep hs h hspan.le_stop _
  | .cdata run runSpan span => exact reported_keep hs h hspan.le_stop _
  | .comment run span => exact reported_keep hs h hspan.le_stop _
  | .skipped span => exact (h.trace rfl).mono hspan.le_stop

/-! ## Faults -/

/-- **Salvaging a tag**: the error is placed where the element starts. -/
theorem reported_salvage (lined : index.Lined) (hs : r.Sound index limit false)
    (h : Reported index r.elements r.stack r.diagnostics limit) (hspan : Follows index limit span)
    (message : String) :
    Reported index
      ((r.say index .error (Span.emptyAt span.start) message).salvage index span).elements
      ((r.say index .error (Span.emptyAt span.start) message).salvage index span).stack
      ((r.say index .error (Span.emptyAt span.start) message).salvage index span).diagnostics
      span.stop := by
  unfold salvage
  simp only
  generalize (index.sliceChars ⟨span.start + 1, span.stop⟩).takeWhile isSalvageable = name
  generalize String.ofList (if name.contains ':' then name.takeWhile (· ≠ ':') else []) = qualifier
  have hstart := hspan.start_le
  have hlt := hspan.start_lt
  have hstop := hspan.stop_le
  have hadded := reported_newElement lined hs h hspan (String.ofList name) qualifier
    ⟨span.start + 1, span.start + 1 + name.length⟩
  simp only [say, finishElement, update, stack_newElement, diagnostics_newElement]
  rw [elements_newElement] at hadded ⊢
  let new := r.added index (String.ofList name) qualifier span
    ⟨span.start + 1, span.start + 1 + name.length⟩
  let d : Diagnostic := ⟨.error, .reader, message, some (index.spanToRange (Span.emptyAt span.start))⟩
  have hat : d.isAt index span.start = true := Diagnostic.isAt_start ..
  have hfresh : r.elements.size ∉ r.stack.map Frame.element :=
    fun hmem => Nat.lt_irrefl _ (hs.kept.chain.lt_bound _ hmem)
  have hparent {p : Nat} (hp : new.parent = some p) : p < r.elements.size := by
    obtain ⟨frame, hframe, rfl⟩ := Option.map_eq_some_iff.mp hp
    exact hs.kept.chain.lt_bound _ (List.mem_map_of_mem (List.mem_of_head? hframe))
  -- the element is added while nothing is reported about it, and closed together with its error
  have hclosed : Reported index
      ((withElement r.elements new).modify r.elements.size (Element.located index)) r.stack
      (r.diagnostics.push d) span.stop := by
    refine hadded.close (revises_modify (getElem?_withElement_size hparent)) hfresh
      ((h.early.mono hspan.le_stop).report hat hlt) (fun {i x} hx hne => ?_)
      (.salvaged (d := d) rfl rfl rfl rfl rfl ?_ rfl rfl)
    · obtain ⟨x₀, hx₀, born, -⟩ := (adds_withElement hparent).old hx hne
      have hbefore := hs.kept.start_lt hx₀
      rw [born.start_eq]
      exact reportsAt_push_other lined hat (by omega) (by omega) (by omega)
    · show reportsAt index (r.diagnostics.push d) span.start = [d]
      rw [reportsAt_push, if_pos ⟨rfl, hat⟩, h.reportsAt_eq_nil lined hstart (by omega),
        List.nil_append]
  exact (hclosed.trace rfl).trace rfl

/-- **What is done about a fault.** -/
theorem reported_recovered (lined : index.Lined) {junk faultAt : Nat} {retried inside : Bool}
    {message : String} {after : Reader} {resume : Option Nat} (hs : r.Sound index limit inside)
    (h : Reported index r.elements r.stack r.diagnostics limit)
    (hcases : Recovered index r junk faultAt retried message after resume)
    (hjunk : limit ≤ junk) (hlt : junk < index.length) :
    Reported index after.elements after.stack after.diagnostics (resume.getD index.length) := by
  have hspan := Sound.follows_junkSpan faultAt hjunk hlt
  -- the error is placed where the fault starts
  have hreport : Reported index r.elements r.stack
      (r.say index .error (Span.emptyAt junk) message).diagnostics
      (junkSpan index junk faultAt).stop :=
    h.report lined hs.kept.start_lt (Diagnostic.isAt_start ..) hjunk hspan.start_lt hspan.stop_le
  cases hcases with
  | retry head outside first => exact h.mono hjunk
  | @broken id below stack =>
    have hkept := hs.kept
    rw [stack] at hkept hreport
    exact reported_closeUnclosed
      (r := { r.say index .error (Span.emptyAt junk) message with stack := below }) lined
      (hkept.mono hspan.le_stop hspan.stop_le) hreport (Nat.le_refl _) hspan.stop_le
  | salvaged head outside =>
    rw [hs.inside] at outside
    subst outside
    exact reported_salvage lined hs h hspan message
  | skipped outside => exact hreport.trace rfl

/-- **At the end** all elements have ended. -/
theorem reported_finish (lined : index.Lined) {inside : Bool} (hs : r.Sound index limit inside)
    (h : Reported index r.elements r.stack r.diagnostics limit) :
    Reported index (r.finish index).elements [] (r.finish index).diagnostics index.length := by
  have hkept := hs.kept
  rw [← List.append_nil r.stack] at hkept h
  exact reported_closeAll lined hkept h hs.kept.limit_le (Nat.le_refl _)

end Reader

/-! ## All of reading -/

/-- **What every turn of reading keeps** of what is said. -/
def Stage.Reported (index : Index) (stage : Stage) : Prop :=
  stage.Sound index ∧ Markup.Reported index stage.reader.elements stage.reader.stack
    stage.reader.diagnostics stage.progress.lastGood

namespace Stage.Reported

variable {stage later : Stage}

/-- What is done about a fault. -/
theorem recovered (lined : index.Lined) (h : stage.Reported index) (hs : stage.Standing index)
    {fault : Fault} (found : stage.scanner.next = .fault fault) {after : Reader}
    {resume : Option Nat} (recovered : stage.recover index fault = (after, resume)) :
    Markup.Reported index after.elements after.stack after.diagnostics
      (resume.getD index.length) := by
  obtain ⟨junk, hcases, hjunk, hlt⟩ := hs.exists_recovered found recovered
  exact Reader.reported_recovered lined h.1 h.2 hcases hjunk hlt

/-- **One turn of reading** reports just what it has to. -/
theorem next (lined : index.Lined) (h : stage.Reported index) (hs : stage.Standing index)
    (hnext : stage.Next index later) : later.Reported index := by
  refine ⟨h.1.next hs hnext, ?_⟩
  cases hnext with
  | event found =>
    obtain ⟨hstart, hlt, hstop, hin, -⟩ := hs.lt_stop found
    have hsound := Scanner.next_sound hs.inText
    rw [found] at hsound
    obtain ⟨hs', h'⟩ := h
    unfold Stage.Sound at hs'
    rw [← hsound.2.1] at hs'
    exact Reader.reported_take lined hs' h' ⟨hstart, hlt, by rw [hstop]; exact hin.offset_le⟩
  | restart found recovered => exact h.recovered lined hs found recovered

/-- At the end all elements have ended. -/
theorem ends (lined : index.Lined) (h : stage.Reported index) (hs : stage.Standing index)
    {r : Reader} (hends : stage.Ends index r) :
    Markup.Reported index r.elements [] r.diagnostics index.length := by
  cases hends with
  | done found => exact Reader.reported_finish lined h.1 h.2
  | stop found recovered =>
    exact Reader.reported_finish lined (h.1.recovered hs found recovered)
      (h.recovered lined hs found recovered)

end Stage.Reported

/-- **How the elements of every document end**, with all that is reported about them. -/
theorem reported_readDocument {index : Index} (lined : index.Lined) :
    ∃ diagnostics : Array Diagnostic, (readDocument index).2 = diagnostics.toList ∧
      Reported index (readDocument index).1.elements [] diagnostics index.length :=
  ⟨_, rfl, Stage.read_induction (P := Stage.Reported index)
    (Q := fun r => Reported index r.elements [] r.diagnostics index.length)
    ⟨Stage.sound_start index, Reported.start index⟩ (fun hs h hnext => h.next lined hs hnext)
    (fun hs h hends => h.ends lined hs hends)⟩

/-! ## Documents -/

/-- **The fates of elements.** -/
inductive Fate where
  /-- The start tag closes the element. -/
  | selfClosing
  /-- An end tag closes the element. -/
  | ended
  /-- Nothing closes the element. -/
  | unclosed
  /-- The element is what is left of a tag that could not be read. -/
  | salvaged
  deriving DecidableEq, Repr

/-- What a fate shows in the document and in what was said: an element that nothing closes is named in
one warning where it starts, and one that was salvaged has neither tags, attributes nor content, but an
error there. -/
def Fate.Holds (index : Index) (diagnostics : List Diagnostic) (e : Element) : Fate → Prop
  | .selfClosing => e.selfClosing = true
  | .ended => e.endTag.isSome = true
  | .unclosed => diagnostics.count (notClosed index e) = 1
  | .salvaged => e.startTag = none ∧ e.attributes = [] ∧ e.content = [] ∧
      ∃ d ∈ diagnostics, d.severity = .error ∧
        d.range = some (index.spanToRange (Span.emptyAt e.span.start))

/-- **The elements of a document are accounted for** by what was said. -/
structure Document.Accounted (index : Index) (document : Document) (diagnostics : List Diagnostic) :
    Prop where
  /-- Every element has one fate. -/
  fate : ∀ {i : Nat} {e : Element}, document.get? i = some e →
    ∃! fate : Fate, fate.Holds index diagnostics e
  /-- Nothing is reported where a closed element starts. -/
  silent : ∀ {i : Nat} {e : Element}, document.get? i = some e → e.isClosed = true →
    ∀ d ∈ diagnostics, d.isTrace = false → d.isAt index e.span.start = false
  /-- Where nothing is reported all elements are closed. -/
  closed : (∀ d ∈ diagnostics, d.isTrace = true) → ∀ {i : Nat} {e : Element},
    document.get? i = some e → e.isClosed = true

namespace Element.Settles

variable {reports : List Diagnostic}

/-- An element nothing is reported of was closed. -/
theorem isClosed_of_nil (h : e.Settles index []) : e.isClosed = true := by
  rw [isClosed, Bool.or_eq_true]
  cases h with
  | selfClosing closes => exact .inl closes
  | ended _ endTag => exact .inr endTag
  | unclosed _ _ told => cases told
  | salvaged _ _ _ _ _ told => cases told

/-- Of an element that was closed nothing is reported. -/
theorem eq_nil_of_isClosed (h : e.Settles index reports) (hclosed : e.isClosed = true) :
    reports = [] := by
  cases h with
  | selfClosing _ _ _ silent => exact silent
  | ended _ _ silent => exact silent
  | unclosed closes endTag =>
    rw [isClosed, closes, endTag] at hclosed
    cases hclosed
  | salvaged closes _ endTag =>
    rw [isClosed, closes, endTag] at hclosed
    cases hclosed

end Element.Settles

/-- **An element has one fate**, which is known from the reports where it starts. -/
theorem Element.Settles.existsUnique_fate
    (h : e.Settles index (reportsAt index diagnostics e.span.start)) :
    ∃! fate : Fate, fate.Holds index diagnostics.toList e := by
  have hat : (notClosed index e).isAt index e.span.start = true := Diagnostic.isAt_start ..
  -- the warning about the element and an error where it starts are among these reports
  have hwarned : Fate.unclosed.Holds index diagnostics.toList e ↔
      (reportsAt index diagnostics e.span.start).count (notClosed index e) = 1 := by
    rw [reportsAt, List.count_filter (by rw [hat]; rfl)]
    exact Iff.rfl
  have hfailed : Fate.salvaged.Holds index diagnostics.toList e →
      ∃ d ∈ reportsAt index diagnostics e.span.start, d.severity = .error := by
    rintro ⟨-, -, -, d, hd, hseverity, hplace⟩
    refine ⟨d, mem_reportsAt.mpr ⟨hd, ?_, ?_⟩, hseverity⟩
    · rw [Diagnostic.isTrace, hseverity]
      rfl
    · rw [Diagnostic.isAt, hplace, decide_eq_true_eq]
      rfl
  cases h with
  | selfClosing closes endTag content silent =>
    rw [silent] at hwarned hfailed
    refine ⟨.selfClosing, closes, fun fate hfate => ?_⟩
    cases fate with
    | selfClosing => rfl
    | ended => simp [Fate.Holds, endTag] at hfate
    | unclosed => cases hwarned.mp hfate
    | salvaged =>
      obtain ⟨d, hd, -⟩ := hfailed hfate
      cases hd
  | ended closes endTag silent =>
    rw [silent] at hwarned hfailed
    refine ⟨.ended, endTag, fun fate hfate => ?_⟩
    cases fate with
    | selfClosing => simp [Fate.Holds, closes] at hfate
    | ended => rfl
    | unclosed => cases hwarned.mp hfate
    | salvaged =>
      obtain ⟨d, hd, -⟩ := hfailed hfate
      cases hd
  | unclosed closes endTag told =>
    have hcount : Fate.unclosed.Holds index diagnostics.toList e := by
      rw [hwarned, told, List.count_singleton_self]
    rw [told] at hfailed
    refine ⟨.unclosed, hcount, fun fate hfate => ?_⟩
    cases fate with
    | selfClosing => simp [Fate.Holds, closes] at hfate
    | ended => simp [Fate.Holds, endTag] at hfate
    | unclosed => rfl
    | salvaged =>
      obtain ⟨d, hd, hseverity⟩ := hfailed hfate
      cases List.mem_singleton.mp hd
      cases hseverity
  | @salvaged d closes startTag endTag attributes content told isError placed =>
    have hd : d ∈ diagnostics.toList := (mem_reportsAt.mp (told ▸ List.mem_singleton_self d)).1
    rw [told] at hwarned
    refine ⟨.salvaged, ⟨startTag, attributes, content, d, hd, isError, placed⟩, fun fate hfate => ?_⟩
    cases fate with
    | selfClosing => simp [Fate.Holds, closes] at hfate
    | ended => simp [Fate.Holds, endTag] at hfate
    | unclosed =>
      -- the one report is an error and no warning
      have hpos : 0 < [d].count (notClosed index e) := by
        rw [hwarned.mp hfate]
        exact Nat.one_pos
      cases List.mem_singleton.mp (List.count_pos_iff.mp hpos)
      cases isError
    | salvaged => rfl

/-- **Every document is accounted for**, however broken its text is. -/
theorem readDocument_accounted (text : String) :
    (readDocument (Index.ofText text)).1.Accounted (Index.ofText text)
      (readDocument (Index.ofText text)).2 := by
  obtain ⟨diagnostics, hdiagnostics, h⟩ := reported_readDocument (Index.lined_ofText text)
  rw [hdiagnostics]
  constructor
  case fate =>
    intro i e he
    exact (h.settles he List.not_mem_nil).existsUnique_fate
  case silent =>
    intro i e he hclosed d hd htrace
    have hnil := (h.settles he List.not_mem_nil).eq_nil_of_isClosed hclosed
    refine Bool.eq_false_iff.mpr fun hat => ?_
    have hmem := mem_reportsAt.mpr ⟨hd, htrace, hat⟩
    rw [hnil] at hmem
    cases hmem
  case closed =>
    intro htraces i e he
    have hsettles := h.settles he List.not_mem_nil
    have hnil : reportsAt (Index.ofText text) diagnostics e.span.start = [] := by
      rw [List.eq_nil_iff_forall_not_mem]
      intro d hd
      obtain ⟨hmem, htrace, -⟩ := mem_reportsAt.mp hd
      rw [htraces d hmem] at htrace
      cases htrace
    rw [hnil] at hsettles
    exact hsettles.isClosed_of_nil

end Markup

end ProjectLens
