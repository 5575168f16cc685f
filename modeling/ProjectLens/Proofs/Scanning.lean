import ProjectLens.Proofs.Cursors

/-! # What a scanner finds

Every piece that a scanner finds stands in the text: it starts at or after the scanner's place, is not
empty, ends where scanning goes on, and the names, values and texts it carries are what its spans
hold. A fault is always at a character of the text, never at its end.

* `Index.Holds`: a span of the text and what it holds;
* `Event.Stands`: the spans of a piece hold what it carries; `Taken`: a piece was read between two
  cursors;
* `Step.Sound` and `Scanner.next_sound`: all that can be said about the next step of a scanner. -/

namespace ProjectLens

/-- **A span holds a text**: it lies in the text of the index and has just these characters. -/
structure Index.Holds (index : Index) (span : Span) (text : String) : Prop where
  /-- The span is the right way round. -/
  start_le : span.start ≤ span.stop
  /-- The span ends in the text. -/
  stop_le : span.stop ≤ index.length
  /-- The characters of the span. -/
  slice_eq : index.slice span = text

namespace Markup

variable {index : Index} {c d : Cursor}

/-! ## Places in a text -/

/-- A cursor that stands in the text of an index. -/
def Cursor.In (index : Index) (c : Cursor) : Prop := (⟨0, index.chars⟩ : Cursor).Reaches c

/-- `c.In index → c.Reaches d → d.In index`: a cursor of the text only ever leads to cursors of the
text. -/
theorem Cursor.In.step (hc : c.In index) (h : c.Reaches d) : d.In index := hc.trans h

/-- What is before a cursor and what is left make up the text. -/
theorem Cursor.In.length_eq (hc : c.In index) : c.offset + c.rest.length = index.length := by
  obtain ⟨front, hfront⟩ := hc
  have := hfront.length_eq
  rw [Nat.zero_add] at this
  exact this.symm

/-- `c.rest = index.chars.drop c.offset`: what is ahead of a cursor is the text from its offset
on. -/
theorem Cursor.In.rest_eq (hc : c.In index) : c.rest = index.chars.drop c.offset := by
  obtain ⟨front, hfront⟩ := hc
  have hchars : index.chars = front ++ c.rest := hfront.rest_eq
  have hoffset := hfront.offset_eq
  rw [Nat.zero_add] at hoffset
  rw [hchars, hoffset, List.drop_left]

/-- `c.offset ≤ index.length`: a cursor stands within the text. -/
theorem Cursor.In.offset_le (hc : c.In index) : c.offset ≤ index.length := by
  have := hc.length_eq
  omega

/-- `c.rest ≠ [] → c.offset < index.length`: with a character ahead, the cursor stands before the
end. -/
theorem Cursor.In.offset_lt (hc : c.In index) (h : c.rest ≠ []) : c.offset < index.length := by
  have := hc.length_eq
  have := List.length_pos_iff.mpr h
  omega

/-- **The text between two cursors is what was taken between them.** -/
theorem Cursor.In.holds {taken : List Char} (hc : c.In index) (h : c.Leads taken d) :
    index.Holds ⟨c.offset, d.offset⟩ (String.ofList taken) where
  start_le := h.le
  stop_le := (hc.step h.reaches).offset_le
  slice_eq := by
    have hlength : d.offset - c.offset = taken.length := by
      have := h.offset_eq
      omega
    unfold Index.slice Index.sliceChars
    rw [hlength, ← hc.rest_eq, h.rest_eq, List.take_left]

/-! ## Pieces -/

/-- **The spans of a piece hold what it carries**, in the order in which it is written, and no slash is
taken for a part of a name. -/
def Event.Stands (index : Index) : Event → Prop
  | .tagStart name span =>
    index.Holds name.span name.text ∧ '/' ∉ name.text.toList ∧ span.start < name.span.start ∧
      name.span.stop = span.stop
  | .attribute name value valueSpan span =>
    index.Holds name.span name.text ∧ '/' ∉ name.text.toList ∧ index.Holds valueSpan value ∧
      span.start ≤ name.span.start ∧ name.span.stop ≤ valueSpan.start ∧
      valueSpan.stop ≤ span.stop
  | .text run span => index.Holds span run
  | .cdata run runSpan span =>
    index.Holds runSpan run ∧ span.start ≤ runSpan.start ∧ runSpan.stop ≤ span.stop
  | .tagEnd _ _ | .endTag _ _ | .comment _ _ | .skipped _ => True

/-- Whether a piece belongs to a start tag that began before it. -/
def Event.withinTag : Event → Bool
  | .attribute _ _ _ _ | .tagEnd _ _ => true
  | _ => false

/-- Whether a start tag goes on after a piece. -/
def Event.leavesTag : Event → Bool
  | .tagStart _ _ | .attribute _ _ _ _ => true
  | _ => false

/-- **A piece was read between two cursors.** -/
structure Taken (index : Index) (c : Cursor) (event : Event) (d : Cursor) : Prop where
  /-- Reading went on. -/
  reaches : c.Reaches d
  /-- The piece covers what was read. -/
  span_eq : event.span = ⟨c.offset, d.offset⟩
  /-- Something was read. -/
  filled : c.offset < d.offset
  /-- The piece carries what stands in the text. -/
  stands : event.Stands index

/-- **A piece outside of start tags was read.** -/
structure TakenBetween (index : Index) (c : Cursor) (event : Event) (d : Cursor) : Prop
    extends Taken index c event d where
  /-- No start tag was being read. -/
  withinTag : event.withinTag = false
  /-- None has been started. -/
  leavesTag : event.leavesTag = false

/-- The place after the opening of a piece. -/
theorem advance_reaches {count : Nat} (h : count ≤ c.rest.length) : c.Reaches (c.advance count) :=
  (Cursor.advance_leads h).reaches

/-- A name that was read stands where it says, up to where reading goes on. -/
theorem qualifiedName_holds {name : QName} (hc : c.In index)
    (h : c.qualifiedName = .ok (name, d)) :
    index.Holds name.span name.text ∧ '/' ∉ name.text.toList ∧ c.offset ≤ name.span.start ∧
      name.span.stop = d.offset ∧ c.offset < d.offset ∧ c.Reaches d := by
  obtain ⟨front, hleads, hfilled, hspan, hchars⟩ := Cursor.qualifiedName_leads h
  have hlt := hleads.lt (List.append_ne_nil_of_right_ne_nil front hfilled)
  -- what the name leaves out in front is read first
  have hfront : c.Leads front ⟨c.offset + front.length, name.text.toList ++ d.rest⟩ :=
    ⟨by rw [hleads.rest_eq, List.append_assoc], rfl⟩
  have htext : Cursor.Leads ⟨c.offset + front.length, name.text.toList ++ d.rest⟩
      name.text.toList d :=
    ⟨rfl, by rw [hleads.offset_eq, List.length_append, Nat.add_assoc]⟩
  have hholds := (hc.step hfront.reaches).holds htext
  rw [String.ofList_toList, ← hspan] at hholds
  refine ⟨hholds, fun hslash => ?_, ?_, by rw [hspan], hlt, hleads.reaches⟩
  · exact absurd (hchars _ hslash) (by decide)
  · rw [hspan]
    exact Nat.le_add_right _ _

/-- A start tag's opening covers the text from the cursor to where it ends, and leads into the
tag. -/
theorem tagStart_taken {event : Event} (hc : c.In index) (room : 1 ≤ c.rest.length)
    (h : tagStart c = .ok (event, d)) :
    Taken index c event d ∧ event.withinTag = false ∧ event.leavesTag = true := by
  obtain ⟨⟨name, after⟩, hname, h⟩ := bind_eq_ok.mp h
  cases h
  have hinside := advance_reaches room
  obtain ⟨hholds, hslash, hstart, hstop, hlt, hreaches⟩ :=
    qualifiedName_holds (hc.step hinside) hname
  have hoffset : (c.advance 1).offset = c.offset + 1 := rfl
  exact ⟨⟨hinside.trans hreaches, rfl, by omega, hholds, hslash,
    by simp only [Cursor.spanTo]; omega, hstop⟩, rfl, rfl⟩

/-- An end tag `</name >` covers the text from the cursor to where it ends. -/
theorem endTag_taken {event : Event} (hc : c.In index) (room : 2 ≤ c.rest.length)
    (h : endTag c = .ok (event, d)) : TakenBetween index c event d := by
  obtain ⟨⟨name, after⟩, hname, h⟩ := bind_eq_ok.mp h
  obtain ⟨closed, hclosed, h⟩ := bind_eq_ok.mp h
  cases h
  have hinside := advance_reaches room
  obtain ⟨-, -, -, -, hlt, hreaches⟩ := qualifiedName_holds (hc.step hinside) hname
  have hcloses := after.skipSpaces_reaches.trans (Cursor.expect_leads hclosed).reaches
  have hle := hcloses.le
  have hle' := hinside.le
  exact ⟨⟨hinside.trans (hreaches.trans hcloses), rfl, by omega, trivial⟩, rfl, rfl⟩

/-- An attribute covers text after the cursor, the blanks before its name left out, and stays in the
tag. -/
theorem tagAttribute_taken {event : Event} (hc : c.In index)
    (h : tagAttribute c = .ok (event, d)) :
    Taken index c event d ∧ event.withinTag = true ∧ event.leavesTag = true := by
  obtain ⟨⟨name, after⟩, hname, h⟩ := bind_eq_ok.mp h
  obtain ⟨opened, hopened, h⟩ := bind_eq_ok.mp h
  obtain ⟨⟨mark, inside⟩, hquote, h⟩ := bind_eq_ok.mp h
  obtain ⟨⟨value, behind⟩, hvalue, h⟩ := bind_eq_ok.mp h
  obtain ⟨closed, hclosed, h⟩ := bind_eq_ok.mp h
  cases h
  obtain ⟨hholds, hslash, hstart, hstop, hlt, hreaches⟩ := qualifiedName_holds hc hname
  -- name, equals sign, quote, value and quote, one after the other
  have hopens := (Cursor.equalsSign_reaches hopened).trans (Cursor.quote_leads hquote).reaches
  have hrun := Cursor.chars_leads hvalue
  have hcloses := Cursor.expect_leads hclosed
  have hle := hopens.le
  have hle' := hrun.le
  have hle'' := hcloses.le
  refine ⟨⟨hreaches.trans (hopens.trans (hrun.reaches.trans hcloses.reaches)), rfl, by omega,
    hholds, hslash, (hc.step (hreaches.trans hopens)).holds hrun, hstart, ?_, hle''⟩, rfl, rfl⟩
  rw [hstop]
  exact hle

/-- What goes on a start tag may have spaces before it. -/
theorem tagRest_taken {event : Event} (hc : c.In index) (h : tagRest c = .ok (event, d)) :
    ∃ start, c.Reaches start ∧ Taken index start event d ∧ event.withinTag = true := by
  refine ⟨c.skipSpaces, c.skipSpaces_reaches, ?_⟩
  unfold tagRest at h
  simp only at h
  split at h
  · next rest hrest =>
    obtain ⟨after, hafter, h⟩ := bind_eq_ok.mp h
    cases h
    have hroom : 1 ≤ c.skipSpaces.rest.length := by
      rw [hrest]
      simp
    have hinside := advance_reaches hroom
    -- `/>` is two characters
    have hcloses := Cursor.expect_leads hafter
    have hle := hinside.le
    have hlt := hcloses.lt (List.cons_ne_nil _ _)
    exact ⟨⟨hinside.trans hcloses.reaches, rfl, by omega, trivial⟩, rfl⟩
  · next rest hrest =>
    cases h
    have hroom : 1 ≤ c.skipSpaces.rest.length := by
      rw [hrest]
      simp
    have hinside := advance_reaches hroom
    exact ⟨⟨hinside, rfl, Nat.lt_succ_self _, trivial⟩, rfl⟩
  · split at h
    · obtain ⟨htaken, hwithin, -⟩ := tagAttribute_taken (hc.step c.skipSpaces_reaches) h
      exact ⟨htaken, hwithin⟩
    · obtain ⟨found, -, h⟩ := bind_eq_ok.mp h
      cases h

/-- A piece that is left out was read if its opening was, and then reading went on. -/
theorem skipped_taken {count : Nat} (room : count ≤ c.rest.length) (hcount : 0 < count)
    (h : (c.advance count).Reaches d) : TakenBetween index c (.skipped (c.spanTo d)) d := by
  have hle := h.le
  have hoffset : (c.advance count).offset = c.offset + count := rfl
  exact ⟨⟨(advance_reaches room).trans h, rfl, by omega, trivial⟩, rfl, rfl⟩

/-- A comment `<!-- … -->` covers the text from the cursor to where it ends. -/
theorem comment_taken {event : Event} (room : 4 ≤ c.rest.length)
    (h : comment c = .ok (event, d)) : TakenBetween index c event d := by
  obtain ⟨⟨run, after⟩, htext, h⟩ := bind_eq_ok.mp h
  dsimp only at h
  split at h
  · cases h
  split at h
  · cases h
  cases h
  have hreaches := Cursor.charsThrough_reaches htext
  have hle := hreaches.le
  have hoffset : (c.advance 4).offset = c.offset + 4 := rfl
  exact ⟨⟨(advance_reaches room).trans hreaches, rfl, by omega, trivial⟩, rfl, rfl⟩

/-- A section `<![CDATA[ … ]]>` covers the text from the cursor to where it ends. -/
theorem cdata_taken {event : Event} (hc : c.In index) (room : 9 ≤ c.rest.length)
    (h : cdata c = .ok (event, d)) : TakenBetween index c event d := by
  obtain ⟨⟨text, after⟩, htext, h⟩ := bind_eq_ok.mp h
  cases h
  obtain ⟨middle, hleads, hreaches⟩ := Cursor.charsThrough_leads htext
  have hinside := advance_reaches room
  have hle := hreaches.le
  have hle' := hleads.le
  have hoffset : (c.advance 9).offset = c.offset + 9 := rfl
  have hholds := (hc.step hinside).holds hleads
  rw [hleads.offset_eq] at hholds
  exact ⟨⟨hinside.trans (hleads.reaches.trans hreaches), rfl, by omega, hholds,
    hinside.le, by rw [← hleads.offset_eq]; exact hle⟩, rfl, rfl⟩

/-- A run of text, which starts with no `<`, covers at least one character. -/
theorem plainText_taken {event : Event} {first : Char} {rest : List Char} (hc : c.In index)
    (hrest : c.rest = first :: rest) (hfirst : first ≠ '<')
    (h : plainText c = .ok (event, d)) : TakenBetween index c event d := by
  obtain ⟨⟨run, after⟩, htext, h⟩ := bind_eq_ok.mp h
  dsimp only at h
  split at h
  · cases h
  cases h
  have hleads := Cursor.chars_leads htext
  have hfilled := Cursor.chars_ne_nil hrest (by simpa using hfirst) htext
  exact ⟨⟨hleads.reaches, rfl, hleads.lt hfilled, hc.holds hleads⟩, rfl, rfl⟩

/-- A processing instruction `<? … ?>` covers the text from the cursor to where it ends. -/
theorem instruction_taken {event : Event} (room : 2 ≤ c.rest.length)
    (h : instruction c = .ok (event, d)) : TakenBetween index c event d := by
  obtain ⟨⟨name, after⟩, hname, h⟩ := bind_eq_ok.mp h
  obtain ⟨⟨text, closed⟩, htext, h⟩ := bind_eq_ok.mp h
  cases h
  exact skipped_taken room (by decide) ((Cursor.name_leads hname).reaches.trans
    (after.skipSpaces_reaches.trans (Cursor.charsThrough_reaches htext)))

namespace Declaration

/-- `gap c = .ok d → c.Reaches d`: the blanks a declaration asks for are read forward. -/
theorem gap_reaches (h : gap c = .ok d) : c.Reaches d := by
  unfold gap at h
  split at h
  · cases h
    exact c.skipSpaces_reaches
  split at h
  · cases h
    exact Cursor.Reaches.refl c
  split at h
  · cases h
    exact Cursor.Reaches.refl c
  · cases h

/-- `version c = .ok d → c.Reaches d`: so is the version of a declaration. -/
theorem version_reaches (h : version c = .ok d) : c.Reaches d := by
  obtain ⟨after, hafter, h⟩ := bind_eq_ok.mp h
  obtain ⟨opened, hopened, h⟩ := bind_eq_ok.mp h
  obtain ⟨⟨mark, inside⟩, hquote, h⟩ := bind_eq_ok.mp h
  obtain ⟨number, hnumber, h⟩ := bind_eq_ok.mp h
  exact c.skipSpaces_reaches.trans ((Cursor.expectText_leads hafter).reaches.trans
    ((Cursor.equalsSign_reaches hopened).trans ((Cursor.quote_leads hquote).reaches.trans
      ((Cursor.expectText_leads hnumber).reaches.trans
        ((number.takeWhile_leads _).reaches.trans (Cursor.expect_leads h).reaches)))))

/-- `encoding c = .ok d → c.Reaches d`: and its encoding, there or not. -/
theorem encoding_reaches (h : encoding c = .ok d) : c.Reaches d := by
  unfold encoding at h
  split at h
  · next hstart =>
    obtain ⟨opened, hopened, h⟩ := bind_eq_ok.mp h
    obtain ⟨⟨mark, inside⟩, hquote, h⟩ := bind_eq_ok.mp h
    obtain ⟨after, hafter, h⟩ := bind_eq_ok.mp h
    exact (advance_reaches (Cursor.length_le_of_startsWith hstart)).trans
      ((Cursor.equalsSign_reaches hopened).trans ((Cursor.quote_leads hquote).reaches.trans
        ((inside.takeWhile_leads _).reaches.trans ((Cursor.expect_leads hafter).reaches.trans
          (gap_reaches h)))))
  · cases h
    exact Cursor.Reaches.refl c

/-- `standalone c = .ok d → c.Reaches d`: and its `standalone`, there or not. -/
theorem standalone_reaches (h : standalone c = .ok d) : c.Reaches d := by
  unfold standalone at h
  split at h
  · next hstart =>
    obtain ⟨opened, hopened, h⟩ := bind_eq_ok.mp h
    obtain ⟨⟨mark, inside⟩, hquote, h⟩ := bind_eq_ok.mp h
    obtain ⟨⟨value, after⟩, hvalue, h⟩ := bind_eq_ok.mp h
    dsimp only at h
    split at h
    · exact (advance_reaches (Cursor.length_le_of_startsWith hstart)).trans
        ((Cursor.equalsSign_reaches hopened).trans ((Cursor.quote_leads hquote).reaches.trans
          ((Cursor.name_leads hvalue).reaches.trans (Cursor.expect_leads h).reaches)))
    · cases h
  · cases h
    exact Cursor.Reaches.refl c

end Declaration

/-- A declaration `<?xml … ?>` covers the text from the cursor to where it ends. -/
theorem declaration_taken {event : Event} (room : 6 ≤ c.rest.length)
    (h : declaration c = .ok (event, d)) : TakenBetween index c event d := by
  obtain ⟨after, hversion, h⟩ := bind_eq_ok.mp h
  obtain ⟨gap, hgap, h⟩ := bind_eq_ok.mp h
  obtain ⟨named, hnamed, h⟩ := bind_eq_ok.mp h
  obtain ⟨alone, halone, h⟩ := bind_eq_ok.mp h
  obtain ⟨closed, hclosed, h⟩ := bind_eq_ok.mp h
  cases h
  exact skipped_taken room (by decide) ((Declaration.version_reaches hversion).trans
    ((Declaration.gap_reaches hgap).trans ((Declaration.encoding_reaches hnamed).trans
      ((Declaration.standalone_reaches halone).trans
        (alone.skipSpaces_reaches.trans (Cursor.expectText_leads hclosed).reaches)))))

/-- `c.Reaches (found.getD c)`: where an external name is found it is read forward, else the cursor
stays. -/
theorem externalId_reaches {found : Option Cursor} (h : externalId c = .ok found) :
    c.Reaches (found.getD c) := by
  unfold externalId at h
  split at h
  · next hstart =>
    obtain ⟨inside, hinside, h⟩ := bind_eq_ok.mp h
    obtain ⟨after, hafter, h⟩ := bind_eq_ok.mp h
    cases h
    exact (advance_reaches (Cursor.length_le_of_startsWith hstart)).trans
      ((Cursor.spaces_reaches hinside).trans (Cursor.literal_reaches hafter))
  split at h
  · next hstart =>
    obtain ⟨inside, hinside, h⟩ := bind_eq_ok.mp h
    obtain ⟨after, hafter, h⟩ := bind_eq_ok.mp h
    -- a public name comes with a second literal
    obtain ⟨next, hnext, h⟩ := bind_eq_ok.mp h
    obtain ⟨last, hlast, h⟩ := bind_eq_ok.mp h
    cases h
    exact (advance_reaches (Cursor.length_le_of_startsWith hstart)).trans
      ((Cursor.spaces_reaches hinside).trans ((Cursor.literal_reaches hafter).trans
        ((Cursor.spaces_reaches hnext).trans (Cursor.literal_reaches hlast))))
  · cases h
    exact Cursor.Reaches.refl c

/-- A document type, with declarations to follow or without, covers the text from the cursor on. -/
theorem doctype_taken (index : Index) {event : Event} {declarations : Bool}
    (room : 9 ≤ c.rest.length) (h : doctype c = .ok (declarations, event, d)) :
    TakenBetween index c event d := by
  obtain ⟨inside, hinside, h⟩ := bind_eq_ok.mp h
  obtain ⟨⟨name, after⟩, hname, h⟩ := bind_eq_ok.mp h
  obtain ⟨found, hfound, h⟩ := bind_eq_ok.mp h
  obtain ⟨mark, hmark, h⟩ := bind_eq_ok.mp h
  split at h
  · cases h
    exact skipped_taken room (by decide) ((Cursor.spaces_reaches hinside).trans
      ((Cursor.name_leads hname).reaches.trans (after.skipSpaces_reaches.trans
        ((externalId_reaches hfound).trans ((Cursor.skipSpaces_reaches _).trans
          (Cursor.advance_one_leads hmark).reaches)))))
  · cases h

/-- `entityDefinition general c = .ok d → c.Reaches d`: an entity's value or external name is read
forward. -/
theorem entityDefinition_reaches {general : Bool} (h : entityDefinition general c = .ok d) :
    c.Reaches d := by
  obtain ⟨found, -, h⟩ := bind_eq_ok.mp h
  split at h
  · exact Cursor.literal_reaches h
  split at h
  · obtain ⟨reference, hreference, h⟩ := bind_eq_ok.mp h
    -- an external name, and for general entities the name of a format
    have hreaches := externalId_reaches hreference
    split at h
    · cases h
    · next after =>
      simp only at h
      split at h
      · next hformat =>
        obtain ⟨inside, hinside, h⟩ := bind_eq_ok.mp h
        have hstart := (Bool.and_eq_true_iff.mp hformat).2
        exact hreaches.trans (after.skipSpaces_reaches.trans
          ((advance_reaches (Cursor.length_le_of_startsWith hstart)).trans
            ((Cursor.spaces_reaches hinside).trans (Cursor.skipName_reaches h))))
      · cases h
        exact hreaches
  · cases h

/-- An entity from its name on. -/
theorem entityNamed_taken {event : Event} {general : Bool} {start : Cursor}
    (room : 8 ≤ c.rest.length) (hstart : (c.advance 8).Reaches start)
    (h : (do
      let (_, after) ← start.name
      let after ← entityDefinition general (← after.spaces)
      let closed ← after.skipSpaces.expect '>'
      return (.skipped (c.spanTo closed), closed) : Piece) = .ok (event, d)) :
    TakenBetween index c event d := by
  obtain ⟨⟨name, third⟩, hname, h⟩ := bind_eq_ok.mp h
  obtain ⟨gap, hgap, h⟩ := bind_eq_ok.mp h
  obtain ⟨after, hafter, h⟩ := bind_eq_ok.mp h
  obtain ⟨closed, hclosed, h⟩ := bind_eq_ok.mp h
  cases h
  exact skipped_taken room (by decide) (hstart.trans
    ((Cursor.name_leads hname).reaches.trans ((Cursor.spaces_reaches hgap).trans
      ((entityDefinition_reaches hafter).trans (after.skipSpaces_reaches.trans
        (Cursor.expect_leads hclosed).reaches)))))

/-- An entity declaration `<!ENTITY … >` covers the text from the cursor to where it ends. -/
theorem entity_taken {event : Event} (room : 8 ≤ c.rest.length)
    (h : entity c = .ok (event, d)) : TakenBetween index c event d := by
  obtain ⟨first, hfirst, h⟩ := bind_eq_ok.mp h
  have hreaches := Cursor.spaces_reaches hfirst
  dsimp only at h
  split at h
  · exact entityNamed_taken room hreaches h
  · next hparameter =>
    obtain ⟨second, hsecond, h⟩ := bind_eq_ok.mp h
    have hmark : first.startsWith "%" = true := by simpa using hparameter
    exact entityNamed_taken room (hreaches.trans
      ((advance_reaches (Cursor.length_le_of_startsWith hmark)).trans
        (Cursor.spaces_reaches hsecond))) h

/-- The end `]>` of a document type's declarations covers the text from the cursor to where it
ends. -/
theorem doctypeEnd_taken {event : Event} (room : 1 ≤ c.rest.length)
    (h : doctypeEnd c = .ok (event, d)) : TakenBetween index c event d := by
  obtain ⟨closed, hclosed, h⟩ := bind_eq_ok.mp h
  cases h
  exact skipped_taken room (by decide)
    ((Cursor.skipSpaces_reaches _).trans (Cursor.expect_leads hclosed).reaches)

/-! ## Steps -/

/-- **What a step from a cursor may be**: a piece that stands in the text at or after the cursor, or a
fault at a character. `inside` says whether a start tag is being read. -/
def Step.Sound (index : Index) (c : Cursor) (inside : Bool) : Step → Prop
  | .done => True
  | .event piece next =>
    (∃ start, c.Reaches start ∧ Taken index start piece next.cursor) ∧
      piece.withinTag = inside ∧ (next.phase = .tag ↔ piece.leavesTag = true)
  | .fault found => c.offset ≤ found.offset ∧ found.offset < index.length

/-- What may follow after some more characters may follow. -/
theorem Step.Sound.after {step : Step} {inside : Bool} (h : step.Sound index d inside)
    (hreaches : c.Reaches d) : step.Sound index c inside := by
  cases step with
  | done => trivial
  | event event next =>
    obtain ⟨⟨start, hstart, htaken⟩, hphase⟩ := h
    exact ⟨⟨start, hreaches.trans hstart, htaken⟩, hphase⟩
  | fault fault => exact ⟨Nat.le_trans hreaches.le h.1, h.2⟩

namespace Scanner

variable {s : Scanner}

/-- With `count` characters of room, `0 < count`, something is ahead. -/
theorem rest_ne_nil_of_room {count : Nat} (h : count ≤ c.rest.length) (hcount : 0 < count) :
    c.rest ≠ [] :=
  List.ne_nil_of_length_pos (Nat.lt_of_lt_of_le hcount h)

/-- The step that finds no token fails where it stands, with something still ahead, so it is
sound. -/
theorem unknown_sound (hc : s.cursor.In index) (h : s.cursor.rest ≠ []) {inside : Bool} :
    s.unknown.Sound index s.cursor inside :=
  ⟨Nat.le_refl _, hc.offset_lt h⟩

/-- Reading a piece is sound if the piece is. -/
theorem read_sound {construct : Construct} {piece : Cursor → Piece} {phase : Phase}
    (hc : s.cursor.In index) (h : s.cursor.rest ≠ []) (hphase : phase ≠ .tag)
    (hpiece : ∀ {event after}, piece s.cursor = .ok (event, after) →
      TakenBetween index s.cursor event after) :
    (s.read construct piece phase).Sound index s.cursor false := by
  unfold read
  split
  · next event after hread =>
    have htaken := hpiece hread
    refine ⟨⟨s.cursor, Cursor.Reaches.refl _, htaken.toTaken⟩, htaken.withinTag, ?_⟩
    rw [htaken.leavesTag]
    exact ⟨fun heq => absurd heq hphase, fun heq => nomatch heq⟩
  · exact ⟨Nat.le_refl _, hc.offset_lt h⟩

/-- The step that reads an instruction or a declaration at `<?` is sound outside of a tag. -/
theorem instruction_sound (hc : s.cursor.In index) (hphase : s.phase ≠ .tag)
    (h : s.cursor.startsWith "<?" = true) : s.instruction.Sound index s.cursor false := by
  have room := Cursor.length_le_of_startsWith h
  have hrest := rest_ne_nil_of_room room (by decide)
  unfold instruction
  split
  · exact unknown_sound hc hrest
  · exact read_sound hc hrest hphase (instruction_taken room)

/-- The start of a tag leads into it. -/
theorem tagStart_sound (hc : s.cursor.In index) (room : 1 ≤ s.cursor.rest.length) :
    (s.read .element tagStart .tag).Sound index s.cursor false := by
  unfold read
  split
  · next event after hread =>
    obtain ⟨htaken, hwithin, hleaves⟩ := tagStart_taken hc room hread
    exact ⟨⟨s.cursor, Cursor.Reaches.refl _, htaken⟩, hwithin, by simp [hleaves]⟩
  · exact ⟨Nat.le_refl _, hc.offset_lt (rest_ne_nil_of_room room (by decide))⟩

/-- The step that reads a comment at `<!--` is sound and leaves no tag open. -/
theorem comment_sound {phase : Phase} (hc : s.cursor.In index) (hphase : phase ≠ .tag)
    (h : s.cursor.startsWith "<!--" = true) :
    (s.read .comment comment phase).Sound index s.cursor false := by
  have room := Cursor.length_le_of_startsWith h
  exact read_sound hc (rest_ne_nil_of_room room (by decide)) hphase (comment_taken room)

/-- `¬ c.atEnd → c.rest ≠ []`: before the end something is ahead. -/
theorem rest_ne_nil_of_not_atEnd (h : ¬ c.atEnd = true) : c.rest ≠ [] := by
  simpa [Cursor.atEnd] using h

/-- A step before the first element is sound: one case for each opening it knows. -/
theorem beforeElement_sound (hc : s.cursor.In index) :
    s.beforeElement.Sound index s.cursor false := by
  refine Step.Sound.after ?_ s.cursor.skipSpaces_reaches
  have hc : s.skipSpaces.cursor.In index := hc.step s.cursor.skipSpaces_reaches
  unfold beforeElement
  simp only
  split
  · trivial
  next hend =>
  have hrest := rest_ne_nil_of_not_atEnd hend
  split
  · next h => exact comment_sound hc (by decide) h
  split
  · next h => exact instruction_sound (s := { s.skipSpaces with phase := .beforeElement }) hc nofun h
  split
  · exact unknown_sound hc hrest
  split
  · next h => exact tagStart_sound hc (Cursor.length_le_of_startsWith h)
  · exact unknown_sound hc hrest

/-- A step of the prolog is sound: a document type, or what else may stand before the first
element. -/
theorem prolog_sound (hc : s.cursor.In index) : s.prolog.Sound index s.cursor false := by
  refine Step.Sound.after ?_ s.cursor.skipSpaces_reaches
  have hc : s.skipSpaces.cursor.In index := hc.step s.cursor.skipSpaces_reaches
  unfold prolog
  simp only
  split
  · next h =>
    have room := Cursor.length_le_of_startsWith h
    split
    · next declarations event after hread =>
      have htaken := doctype_taken index room hread
      refine ⟨⟨_, Cursor.Reaches.refl _, htaken.toTaken⟩, htaken.withinTag, ?_⟩
      rw [htaken.leavesTag]
      cases declarations <;> simp
    · exact ⟨Nat.le_refl _, hc.offset_lt (rest_ne_nil_of_room room (by decide))⟩
  split
  · next h => exact comment_sound (s := { s.skipSpaces with phase := .prolog }) hc (by decide) h
  split
  · next h => exact instruction_sound (s := { s.skipSpaces with phase := .prolog }) hc nofun h
  · exact beforeElement_sound (s := { s.skipSpaces with phase := .prolog }) hc

/-- A step inside a document type's declarations is sound. -/
theorem declarations_sound (hc : s.cursor.In index) (hphase : s.phase ≠ .tag) :
    s.declarations.Sound index s.cursor false := by
  fun_induction declarations s with
  | case1 => trivial
  | case2 s here hend h =>
    have hc : here.cursor.In index := hc.step s.cursor.skipSpaces_reaches
    have room := Cursor.length_le_of_startsWith h
    refine Step.Sound.after ?_ s.cursor.skipSpaces_reaches
    exact read_sound hc (rest_ne_nil_of_not_atEnd hend) nofun (entity_taken room)
  | case3 s here hend _ h =>
    have hc : here.cursor.In index := hc.step s.cursor.skipSpaces_reaches
    refine Step.Sound.after ?_ s.cursor.skipSpaces_reaches
    exact comment_sound hc nofun h
  | case4 s here hend _ _ h =>
    have hc : here.cursor.In index := hc.step s.cursor.skipSpaces_reaches
    exact (instruction_sound hc hphase h).after s.cursor.skipSpaces_reaches
  | case5 s here hend _ _ _ h =>
    have hc : here.cursor.In index := hc.step s.cursor.skipSpaces_reaches
    have room := Cursor.length_le_of_startsWith h
    refine Step.Sound.after ?_ s.cursor.skipSpaces_reaches
    exact read_sound hc (rest_ne_nil_of_not_atEnd hend) nofun (doctypeEnd_taken room)
  | case7 s here hend _ _ _ _ _ after hafter _ ih =>
    -- a declaration that is left out leads on to the next one
    have hreaches : s.cursor.Reaches after := s.cursor.skipSpaces_reaches.trans
      ((here.cursor.takeWhile_leads _).reaches.trans (Cursor.expect_leads hafter).reaches)
    exact (ih (hc.step hreaches) hphase).after hreaches
  | case6 s here hend | case8 s here hend | case9 s here hend =>
    have hc : here.cursor.In index := hc.step s.cursor.skipSpaces_reaches
    exact (unknown_sound hc (rest_ne_nil_of_not_atEnd hend)).after s.cursor.skipSpaces_reaches

/-- `s.phaseAt depth ≠ .tag`: what follows a tag, at any depth, is not the inside of one. -/
theorem phaseAt_ne_tag (s : Scanner) (depth : Nat) : s.phaseAt depth ≠ .tag := by
  unfold phaseAt
  split <;> decide

/-- A step within an element's content is sound. -/
theorem inContent_sound (hc : s.cursor.In index) (hphase : s.phase ≠ .tag) :
    s.inContent.Sound index s.cursor false := by
  unfold inContent
  split
  · trivial
  · next hrest =>
    have hfilled : s.cursor.rest ≠ [] := by simp [hrest]
    split
    · next h => exact comment_sound hc (by decide) h
    split
    · next h =>
      have room := Cursor.length_le_of_startsWith h
      exact read_sound hc hfilled (by decide) (cdata_taken hc room)
    · exact unknown_sound hc hfilled
  · next hrest => exact instruction_sound hc hphase (by simp [Cursor.startsWith, hrest])
  · next hrest =>
    exact read_sound (s := { s with depth := s.depth - 1 }) hc (by simp [hrest])
      (s.phaseAt_ne_tag _) (endTag_taken hc (by simp [hrest]))
  · next hrest => exact unknown_sound hc (by simp [hrest])
  · next hrest => exact tagStart_sound hc (by simp [hrest])
  · next hnil _ _ _ _ hother =>
    obtain ⟨first, rest, hrest⟩ := List.exists_cons_of_ne_nil hnil
    -- no case before was for text, so the first character is no `<`
    have hfirst : first ≠ '<' := fun heq => hother rest (by rw [hrest, heq])
    exact read_sound hc hnil nofun (plainText_taken hc hrest hfirst)

/-- A step inside a tag is sound: an attribute stays in it, `>` and `/>` leave it. -/
theorem inTag_sound (hc : s.cursor.In index) (hphase : s.phase = .tag) :
    s.inTag.Sound index s.cursor true := by
  unfold inTag
  split
  · trivial
  next hend =>
  split
  · exact ⟨Nat.le_refl _, hc.offset_lt (rest_ne_nil_of_not_atEnd hend)⟩
  · next selfClosing span after hread =>
    obtain ⟨start, hstart, htaken, hwithin⟩ := tagRest_taken hc hread
    exact ⟨⟨start, hstart, htaken⟩, hwithin, by simp [phaseAt_ne_tag, Event.leavesTag]⟩
  · next event after hother hread =>
    obtain ⟨start, hstart, htaken, hwithin⟩ := tagRest_taken hc hread
    refine ⟨⟨start, hstart, htaken⟩, hwithin, ?_⟩
    match event with
    | .attribute _ _ _ _ => simp [hphase, Event.leavesTag]
    | .tagEnd selfClosing span => exact absurd rfl (hother selfClosing span)
    | .tagStart _ _ | .endTag _ _ | .text _ _ | .cdata _ _ _ | .comment _ _ | .skipped _ =>
      cases hwithin

/-- A step after the last element is sound. -/
theorem epilog_sound (hc : s.cursor.In index) (hphase : s.phase ≠ .tag) :
    s.epilog.Sound index s.cursor false := by
  refine Step.Sound.after ?_ s.cursor.skipSpaces_reaches
  have hc : s.skipSpaces.cursor.In index := hc.step s.cursor.skipSpaces_reaches
  unfold epilog
  simp only
  split
  · trivial
  next hend =>
  split
  · next h => exact comment_sound hc (by decide) h
  split
  · next h => exact instruction_sound (s := s.skipSpaces) hc hphase h
  · exact unknown_sound hc (rest_ne_nil_of_not_atEnd hend)

/-- **The next step of a scanner that stands in a text is sound.** -/
theorem next_sound (hc : s.cursor.In index) :
    s.next.Sound index s.cursor (s.phase = .tag) := by
  unfold next
  cases hphase : s.phase with
  | opening =>
    simp only
    split
    · next h =>
      have room := Cursor.length_le_of_startsWith h
      exact read_sound hc (rest_ne_nil_of_room room (by decide)) (by decide)
        (declaration_taken room)
    · exact prolog_sound hc
  | prolog => exact prolog_sound hc
  | doctype => exact declarations_sound hc (by simp [hphase])
  | beforeElement => exact beforeElement_sound hc
  | content => exact inContent_sound hc (by simp [hphase])
  | tag => exact inTag_sound hc hphase
  | epilog => exact epilog_sound hc (by simp [hphase])

end Scanner

end Markup

end ProjectLens
