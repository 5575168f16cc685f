import ProjectLens.Proofs.Stages

/-! # Trees and how they are written

A tree of elements and texts is written as markup in one way. Every piece of what is written is read
back whole, whatever comes after it.

* `Name`, `Value`, `Run`: what may be written, with the proof that it may;
* `Tree`, `Tree.render`: trees, and the markup they are written as; `Tree.Valid`: when that can be read
  as the same tree;
* `tagStart_name`, `tagRest_attribute`, `plainText_run`, `endTag_name`: the pieces are read back;
* `Scanner.next_name`, `Scanner.next_attribute`, `Scanner.next_run`, `Scanner.next_endTag` and so on:
  a scanner finds them where they are written. -/

namespace ProjectLens.Markup

/-! ## What is written -/

/-- **A name without a colon.** -/
structure NamePart where
  /-- Its characters. -/
  chars : List Char
  /-- It starts as names do. -/
  starts : chars.head?.any startsName = true
  /-- It goes on as names do, without a colon. -/
  continues : ∀ c ∈ chars, continuesName c = true ∧ c ≠ ':'

/-- **A name**: one part, or two parts with a colon between them. -/
structure Name where
  /-- The part before the colon. -/
  qualifier : Option NamePart
  /-- The part after the colon, or the only one. -/
  base : NamePart

/-- **The value of an attribute**, which is written between quotation marks. -/
structure Value where
  /-- Its characters. -/
  chars : List Char
  /-- They may stand in a document, and neither end the value nor start a tag. -/
  allowed : ∀ c ∈ chars, isChar c = true ∧ c ≠ '<' ∧ c ≠ '\x22'

/-- **A run of text** between tags. -/
structure Run where
  /-- Its characters. -/
  chars : List Char
  /-- There are some. -/
  filled : chars ≠ []
  /-- They may stand in a document, and do not start a tag. -/
  allowed : ∀ c ∈ chars, isChar c = true ∧ c ≠ '<'
  /-- They do not end a character data section. -/
  unended : ¬ "]]>".toList <:+: chars

/-- **A tree** of elements and texts. -/
inductive Tree where
  /-- Text. -/
  | text (run : Run)
  /-- An element, which may close itself when nothing is inside it. -/
  | element (name : Name) (attributes : List (Name × Value)) (selfClosing : Bool)
      (content : List Tree)

namespace Name

/-- The part before the colon; empty when there is none. -/
def qualifierChars (name : Name) : List Char := (name.qualifier.map NamePart.chars).getD []

/-- The name as it is written. -/
def chars (name : Name) : List Char :=
  match name.qualifier with
  | none => name.base.chars
  | some qualifier => qualifier.chars ++ ':' :: name.base.chars

end Name

/-- An attribute as it is written, with a space before it. -/
def renderAttribute (a : Name × Value) : List Char :=
  ' ' :: (a.1.chars ++ '=' :: '\x22' :: (a.2.chars ++ ['\x22']))

namespace Tree

mutual

/-- **A tree as it is written.** -/
def render : Tree → List Char
  | .text run => run.chars
  | .element name attributes selfClosing content =>
    '<' :: (name.chars ++ (attributes.flatMap renderAttribute ++
      if selfClosing then ['/', '>']
      else '>' :: (renderAll content ++ '<' :: '/' :: (name.chars ++ ['>']))))

/-- Trees as they are written one after another. -/
def renderAll : List Tree → List Char
  | [] => []
  | tree :: rest => tree.render ++ renderAll rest

end

/-- Whether a tree is text. -/
def isText : Tree → Bool
  | .text _ => true
  | .element _ _ _ _ => false

mutual

/-- **A tree that is read back as it is written**: what closes itself has nothing inside it, and texts do
not stand next to each other. -/
def Valid : Tree → Prop
  | .text _ => True
  | .element _ _ selfClosing content => (selfClosing = true → content = []) ∧ ValidAll content

/-- Trees that are read back as they are written one after another. -/
def ValidAll : List Tree → Prop
  | [] => True
  | tree :: rest =>
    tree.Valid ∧ (tree.isText = true → rest.head?.any isText = false) ∧ ValidAll rest

end

end Tree

/-! ## Names -/

/-- What comes next does not go on with a name. -/
def EndsName (tail : List Char) : Prop := tail.head?.any continuesName = false

/-- What a name is read as, when it stands at an offset. -/
def Name.readAt (name : Name) (offset : Nat) : QName :=
  ⟨name.qualifierChars, name.base.chars, ⟨offset, offset + name.chars.length⟩⟩

variable {name : Name} {offset : Nat} {tail : List Char}

namespace NamePart

/-- `part.chars ≠ []`. -/
theorem ne_nil (part : NamePart) : part.chars ≠ [] := by
  intro h
  have := part.starts
  rw [h] at this
  cases this

/-- `':' ∉ part.chars`. -/
theorem colon_notMem (part : NamePart) : ':' ∉ part.chars := fun h => (part.continues _ h).2 rfl

/-- A part of a name starts as a name may. -/
theorem startsWell (part : NamePart) : Cursor.startsWell part.chars = true := by
  obtain ⟨first, rest, hchars⟩ := List.exists_cons_of_ne_nil part.ne_nil
  have hstarts := part.starts
  unfold Cursor.startsWell
  rw [hchars] at hstarts ⊢
  exact hstarts

end NamePart

namespace Name

/-- All characters of a name are those a name goes on with. -/
theorem continues (name : Name) : ∀ c ∈ name.chars, continuesName c = true := by
  intro c hc
  unfold chars at hc
  split at hc
  · exact (name.base.continues c hc).1
  · next qualifier hqualifier =>
    rcases List.mem_append.mp hc with hc | hc
    · exact (qualifier.continues c hc).1
    · rcases List.mem_cons.mp hc with rfl | hc
      · decide
      · exact (name.base.continues c hc).1

/-- A name starts as names do. -/
theorem exists_first (name : Name) :
    ∃ first rest, name.chars = first :: rest ∧ startsName first = true := by
  have hpart (part : NamePart) (more : List Char) :
      ∃ first rest, part.chars ++ more = first :: rest ∧ startsName first = true := by
    obtain ⟨first, rest, hchars⟩ := List.exists_cons_of_ne_nil part.ne_nil
    have hstarts := part.starts
    rw [hchars] at hstarts ⊢
    exact ⟨first, rest ++ more, rfl, hstarts⟩
  unfold chars
  split
  · simpa using hpart name.base []
  · next qualifier hqualifier => exact hpart qualifier _

/-- `(name.readAt offset).text = String.ofList name.chars`. -/
theorem text_readAt (name : Name) (offset : Nat) :
    (name.readAt offset).text = String.ofList name.chars := by
  unfold QName.text readAt qualifierChars chars
  cases hqualifier : name.qualifier with
  | none => rfl
  | some qualifier =>
    simp only [Option.map_some, Option.getD_some]
    rw [if_neg (by simpa using qualifier.ne_nil)]

/-- A name is parted at its colon, if it has one. -/
theorem parted_chars (name : Name) (offset : Nat) :
    Cursor.parted offset name.chars = some (name.readAt offset) := by
  have hbase := name.base.startsWell
  have hfilled := name.base.ne_nil
  have hcolon := name.base.colon_notMem
  unfold Cursor.parted readAt qualifierChars chars
  cases hqualifier : name.qualifier with
  | none =>
    have hall : ∀ c ∈ name.base.chars, decide (c ≠ ':') = true := fun c hc => by
      simpa using ne_of_mem_of_not_mem hc hcolon
    have hends : ([] : List Char).head?.any (fun c => decide (c ≠ ':')) = false := rfl
    have htake := takeWhile_run hall hends
    have hdrop := dropWhile_run hall hends
    rw [List.append_nil] at htake hdrop
    simp only [htake, hdrop]
    simp [hbase, hfilled]
  | some qualifier =>
    simp only [takeWhile_ne_append qualifier.colon_notMem, dropWhile_ne_append qualifier.colon_notMem]
    simp [hbase, hfilled, hcolon, qualifier.startsWell, qualifier.ne_nil]

/-- **A name is read back**, up to what does not go on with it. -/
theorem qualifiedName_eq (name : Name) (offset : Nat) (h : EndsName tail) :
    Cursor.qualifiedName ⟨offset, name.chars ++ tail⟩ =
      .ok (name.readAt offset, ⟨offset + name.chars.length, tail⟩) := by
  unfold Cursor.qualifiedName
  rw [Cursor.takeWhile_eq _ _ _ offset name.continues h]
  simp only [name.parted_chars offset]

end Name

/-! ## Pieces -/

/-- Characters of names do not separate. -/
theorem isSpace_eq_false {c : Char} (h : continuesName c = true) : isSpace c = false := by
  refine Bool.eq_false_iff.mpr fun hspace => ?_
  simp only [isSpace, decide_eq_true_eq] at hspace
  rcases hspace with rfl | rfl | rfl | rfl <;> exact absurd h (by decide)

/-- A character that starts no name is not the first one of a name. -/
theorem ne_of_startsName {first c : Char} (h : startsName first = true)
    (hc : startsName c = false) : first ≠ c := by
  rintro rfl
  rw [h] at hc
  cases hc

/-- Nothing is skipped where no space comes next. -/
theorem skipSpaces_cons {c : Char} (h : isSpace c = false) :
    Cursor.skipSpaces ⟨offset, c :: tail⟩ = ⟨offset, c :: tail⟩ :=
  congrArg Prod.snd (Cursor.takeWhile_eq isSpace [] (c :: tail) offset (fun _ hc => nomatch hc) h)

/-- One space is skipped before anything else. -/
theorem skipSpaces_space {c : Char} (h : isSpace c = false) :
    Cursor.skipSpaces ⟨offset, ' ' :: c :: tail⟩ = ⟨offset + 1, c :: tail⟩ :=
  congrArg Prod.snd (Cursor.takeWhile_eq isSpace [' '] (c :: tail) offset (by simp [isSpace]) h)

/-- A character that is wanted and next is read. -/
theorem expect_cons (c : Char) : Cursor.expect ⟨offset, c :: tail⟩ c = .ok ⟨offset + 1, tail⟩ :=
  bind_eq_ok.mpr ⟨c, rfl, if_pos rfl⟩

/-- A character no name goes on with ends a name. -/
theorem endsName_cons {c : Char} (h : continuesName c = false) : EndsName (c :: tail) := h

/-- **The start of a tag is read back.** -/
theorem tagStart_name (name : Name) (offset : Nat) (h : EndsName tail) :
    ∃ span, tagStart ⟨offset, '<' :: (name.chars ++ tail)⟩ =
      .ok (.tagStart (name.readAt (offset + 1)) span, ⟨offset + 1 + name.chars.length, tail⟩) :=
  ⟨_, bind_eq_ok.mpr ⟨_, name.qualifiedName_eq (offset + 1) h, rfl⟩⟩

/-- **An end tag is read back.** -/
theorem endTag_name (name : Name) (offset : Nat) (tail : List Char) :
    ∃ span, endTag ⟨offset, '<' :: '/' :: (name.chars ++ '>' :: tail)⟩ =
      .ok (.endTag (name.readAt (offset + 2)) span,
        ⟨offset + 2 + name.chars.length + 1, tail⟩) := by
  have hends : EndsName ('>' :: tail) := endsName_cons (by decide)
  have hname := name.qualifiedName_eq (offset + 2) hends
  refine ⟨_, bind_eq_ok.mpr ⟨_, hname, bind_eq_ok.mpr ⟨_, ?_, rfl⟩⟩⟩
  rw [skipSpaces_cons (by decide)]
  exact expect_cons '>'

/-- The end of a start tag is read back. -/
theorem tagRest_end (offset : Nat) (tail : List Char) :
    ∃ span, tagRest ⟨offset, '>' :: tail⟩ = .ok (.tagEnd false span, ⟨offset + 1, tail⟩) := by
  unfold tagRest
  rw [skipSpaces_cons (by decide)]
  exact ⟨_, rfl⟩

/-- The end of a start tag that closes itself is read back. -/
theorem tagRest_close (offset : Nat) (tail : List Char) :
    ∃ span, tagRest ⟨offset, '/' :: '>' :: tail⟩ =
      .ok (.tagEnd true span, ⟨offset + 2, tail⟩) := by
  unfold tagRest
  rw [skipSpaces_cons (by decide)]
  exact ⟨_, rfl⟩

/-- **A value is read back**, up to its closing mark. -/
theorem chars_value (value : Value) (offset : Nat) (tail : List Char) :
    Cursor.chars ⟨offset, value.chars ++ '\x22' :: tail⟩
        (fun rest => rest.head?.any fun c => decide (c = '\x22' ∨ c = '<')) =
      .ok (value.chars, ⟨offset + value.chars.length, '\x22' :: tail⟩) := by
  refine bind_eq_ok.mpr
    ⟨_, Cursor.charsBefore_of_stop _ value.chars ('\x22' :: tail) offset ?_ ?_, rfl⟩
  · rintro front c back hsplit
    obtain ⟨hchar, htag, hmark⟩ := value.allowed c (by rw [hsplit]; simp)
    exact ⟨hchar, by simp [htag, hmark]⟩
  · rintro c back hsplit
    cases hsplit
    exact ⟨by decide, by simp⟩

/-- **An attribute is read back**, its name first. -/
theorem tagAttribute_eq (name : Name) (value : Value) (offset : Nat) (tail : List Char) :
    ∃ valueSpan span after,
      tagAttribute ⟨offset, name.chars ++ '=' :: '\x22' :: (value.chars ++ '\x22' :: tail)⟩ =
        .ok (.attribute (name.readAt offset) (String.ofList value.chars) valueSpan span,
          ⟨after, tail⟩) := by
  have hends : EndsName ('=' :: '\x22' :: (value.chars ++ '\x22' :: tail)) :=
    endsName_cons (by decide)
  have hname := name.qualifiedName_eq offset hends
  have hequals (at' : Nat) (rest : List Char) :
      Cursor.equalsSign ⟨at', '=' :: '\x22' :: rest⟩ = .ok ⟨at' + 1, '\x22' :: rest⟩ := by
    refine bind_eq_ok.mpr ⟨_, by rw [skipSpaces_cons (by decide)]; exact expect_cons '=', ?_⟩
    rw [skipSpaces_cons (by decide)]
    rfl
  refine ⟨_, _, _, bind_eq_ok.mpr ⟨_, hname, bind_eq_ok.mpr ⟨_, hequals _ _,
    bind_eq_ok.mpr ⟨('\x22', ⟨_, _⟩), rfl, bind_eq_ok.mpr ⟨_, chars_value value _ tail,
      bind_eq_ok.mpr ⟨_, expect_cons '\x22', rfl⟩⟩⟩⟩⟩⟩

/-- **An attribute is read back**, with the space before it. -/
theorem tagRest_attribute (a : Name × Value) (offset : Nat) (tail : List Char) :
    ∃ valueSpan span after, tagRest ⟨offset, renderAttribute a ++ tail⟩ =
      .ok (.attribute (a.1.readAt (offset + 1)) (String.ofList a.2.chars) valueSpan span,
        ⟨after, tail⟩) := by
  obtain ⟨name, value⟩ := a
  obtain ⟨first, rest, hname, hfirst⟩ := name.exists_first
  have hcontinues : continuesName first = true := name.continues first (by rw [hname]; simp)
  obtain ⟨valueSpan, span, after, hread⟩ := tagAttribute_eq name value (offset + 1) tail
  refine ⟨valueSpan, span, after, ?_⟩
  unfold tagRest renderAttribute
  simp only [List.cons_append, List.append_assoc, List.nil_append]
  rw [hname, List.cons_append] at hread ⊢
  rw [skipSpaces_space (isSpace_eq_false hcontinues)]
  -- no name starts as the end of a tag does
  split
  · next hrest => exact absurd (List.cons.inj hrest).1 (ne_of_startsName hfirst (by decide))
  · next hrest => exact absurd (List.cons.inj hrest).1 (ne_of_startsName hfirst (by decide))
  · exact hread

/-- Text without the end of a character data section holds none. -/
theorem holdsSectionEnd_eq_false {chars : List Char} (h : ¬ "]]>".toList <:+: chars) :
    holdsSectionEnd chars = false := by
  induction chars with
  | nil => rfl
  | cons c rest ih =>
    rw [holdsSectionEnd, Bool.or_eq_false_iff]
    constructor
    · refine Bool.eq_false_iff.mpr fun hprefix => h ?_
      exact (List.isPrefixOf_iff_prefix.mp hprefix).isInfix
    · exact ih fun hrest => h (hrest.trans (List.suffix_cons c rest).isInfix)

/-- **A run of text is read back**, up to the next tag. -/
theorem plainText_run (run : Run) (offset : Nat) (tail : List Char) :
    ∃ span, plainText ⟨offset, run.chars ++ '<' :: tail⟩ =
      .ok (.text (String.ofList run.chars) span,
        ⟨offset + run.chars.length, '<' :: tail⟩) := by
  have hrun := Cursor.charsBefore_of_stop (fun rest => decide (rest.head? = some '<'))
    run.chars ('<' :: tail) offset
    (by
      rintro front c back hsplit
      obtain ⟨hchar, htag⟩ := run.allowed c (by rw [hsplit]; simp)
      exact ⟨hchar, by simp [htag]⟩)
    (by
      rintro c back hsplit
      cases hsplit
      exact ⟨by decide, by simp⟩)
  exact ⟨_, bind_eq_ok.mpr ⟨_, bind_eq_ok.mpr ⟨_, hrun, rfl⟩,
    if_neg (by simp [holdsSectionEnd_eq_false run.unended])⟩⟩

/-! ## Steps -/

/-- The part of a document that follows an element with some elements around it. -/
def Phase.after (depth : Nat) : Phase := if depth = 0 then .epilog else .content

namespace Scanner

variable {depth : Nat}

/-- A piece that is read gives the next step. -/
theorem read_eq {s : Scanner} {construct : Construct} {piece : Cursor → Piece} {phase : Phase}
    {event : Event} {cursor : Cursor} (h : piece s.cursor = .ok (event, cursor)) :
    s.read construct piece phase = .event event { s with phase := phase, cursor := cursor } := by
  unfold read
  rw [h]

/-- What starts with a name is none of the constructs that start with another character. -/
theorem startsWith_eq_false {first : Char} (second : Char) {text : String} {more others : List Char}
    (hfirst : startsName first = true) (hsecond : startsName second = false)
    (htext : text.toList = '<' :: second :: others) :
    Cursor.startsWith ⟨offset, '<' :: first :: more⟩ text = false := by
  unfold Cursor.startsWith
  rw [htext]
  simp [List.isPrefixOf, (ne_of_startsName hfirst hsecond).symm]

/-- Before the outermost element a tag is read. -/
theorem next_opening {first : Char} {more : List Char} (hfirst : startsName first = true) :
    next ⟨.opening, depth, false, ⟨offset, '<' :: first :: more⟩⟩ =
      read ⟨.prolog, depth, false, ⟨offset, '<' :: first :: more⟩⟩ .element tagStart .tag := by
  have hskip : Cursor.skipSpaces ⟨offset, '<' :: first :: more⟩ =
      ⟨offset, '<' :: first :: more⟩ := skipSpaces_cons (by decide)
  have hdeclaration : Cursor.startsWith ⟨offset, '<' :: first :: more⟩ "<?xml " = false :=
    startsWith_eq_false '?' hfirst (by decide) rfl
  have hdoctype : Cursor.startsWith ⟨offset, '<' :: first :: more⟩ "<!DOCTYPE" = false :=
    startsWith_eq_false '!' hfirst (by decide) rfl
  have hcomment : Cursor.startsWith ⟨offset, '<' :: first :: more⟩ "<!--" = false :=
    startsWith_eq_false '!' hfirst (by decide) rfl
  have hinstruction : Cursor.startsWith ⟨offset, '<' :: first :: more⟩ "<?" = false :=
    startsWith_eq_false '?' hfirst (by decide) rfl
  have hother : Cursor.startsWith ⟨offset, '<' :: first :: more⟩ "<!" = false :=
    startsWith_eq_false '!' hfirst (by decide) rfl
  have htag : Cursor.startsWith ⟨offset, '<' :: first :: more⟩ "<" = true := rfl
  have hmore : Cursor.atEnd ⟨offset, '<' :: first :: more⟩ = false := rfl
  simp only [next, prolog, beforeElement, Scanner.skipSpaces, hskip, hdeclaration, hdoctype, hcomment,
    hinstruction, hother, htag, hmore, Bool.false_eq_true, if_false, if_true]

/-- Inside an element a tag is read. -/
theorem next_tag {first : Char} {more : List Char} (hfirst : startsName first = true) :
    next ⟨.content, depth, false, ⟨offset, '<' :: first :: more⟩⟩ =
      read ⟨.content, depth, false, ⟨offset, '<' :: first :: more⟩⟩ .element tagStart .tag := by
  have hne {c : Char} (hc : startsName c = false) : first ≠ c := ne_of_startsName hfirst hc
  unfold next inContent
  simp only
  split
  · next heq => cases heq
  · next heq => exact absurd (List.cons.inj (List.cons.inj heq).2).1 (hne (by decide))
  · next heq => exact absurd (List.cons.inj (List.cons.inj heq).2).1 (hne (by decide))
  · next heq => exact absurd (List.cons.inj (List.cons.inj heq).2).1 (hne (by decide))
  · next heq => cases (List.cons.inj heq).2
  · rfl
  · next hnone => exact absurd rfl (hnone _)

/-- Inside an element anything but markup is text. -/
theorem next_text {first : Char} {more : List Char} (hfirst : first ≠ '<') :
    next ⟨.content, depth, false, ⟨offset, first :: more⟩⟩ =
      read ⟨.content, depth, false, ⟨offset, first :: more⟩⟩ .text plainText .content := by
  unfold next inContent
  simp only
  split
  · next heq => cases heq
  · next heq => exact absurd (List.cons.inj heq).1 hfirst
  · next heq => exact absurd (List.cons.inj heq).1 hfirst
  · next heq => exact absurd (List.cons.inj heq).1 hfirst
  · next heq => exact absurd (List.cons.inj heq).1 hfirst
  · next heq => exact absurd (List.cons.inj heq).1 hfirst
  · rfl

/-- Where the start of a tag is read, it is found. -/
theorem next_name {phase phase' : Phase}
    (hnext : ∀ {first : Char} {more : List Char}, startsName first = true →
      next ⟨phase, depth, false, ⟨offset, '<' :: first :: more⟩⟩ =
        read ⟨phase', depth, false, ⟨offset, '<' :: first :: more⟩⟩ .element tagStart .tag)
    (name : Name) (h : EndsName tail) :
    ∃ span after, next ⟨phase, depth, false, ⟨offset, '<' :: (name.chars ++ tail)⟩⟩ =
      .event (.tagStart (name.readAt (offset + 1)) span) ⟨.tag, depth, false, ⟨after, tail⟩⟩ := by
  obtain ⟨first, rest, hname, hfirst⟩ := name.exists_first
  obtain ⟨span, hread⟩ := tagStart_name name offset h
  refine ⟨span, offset + 1 + name.chars.length, ?_⟩
  rw [hname, List.cons_append] at hread ⊢
  rw [hnext hfirst, read_eq hread]

/-- **An attribute** is found. -/
theorem next_attribute (a : Name × Value) (offset : Nat) (tail : List Char) :
    ∃ valueSpan span after, next ⟨.tag, depth, false, ⟨offset, renderAttribute a ++ tail⟩⟩ =
      .event (.attribute (a.1.readAt (offset + 1)) (String.ofList a.2.chars) valueSpan span)
        ⟨.tag, depth, false, ⟨after, tail⟩⟩ := by
  obtain ⟨valueSpan, span, after, hread⟩ := tagRest_attribute a offset tail
  refine ⟨valueSpan, span, after, ?_⟩
  have hmore : Cursor.atEnd ⟨offset, renderAttribute a ++ tail⟩ = false := rfl
  simp only [next, inTag, hmore, hread, Bool.false_eq_true, if_false]

/-- **The end of a start tag** is found. -/
theorem next_tagEnd (depth offset : Nat) (tail : List Char) :
    ∃ span after, next ⟨.tag, depth, false, ⟨offset, '>' :: tail⟩⟩ =
      .event (.tagEnd false span) ⟨.content, depth + 1, false, ⟨after, tail⟩⟩ := by
  obtain ⟨span, hread⟩ := tagRest_end offset tail
  refine ⟨span, offset + 1, ?_⟩
  have hmore : Cursor.atEnd ⟨offset, '>' :: tail⟩ = false := rfl
  simp [next, inTag, hmore, hread, phaseAt]

/-- **The end of a tag that closes itself** is found. -/
theorem next_tagClose (depth offset : Nat) (tail : List Char) :
    ∃ span after, next ⟨.tag, depth, false, ⟨offset, '/' :: '>' :: tail⟩⟩ =
      .event (.tagEnd true span) ⟨Phase.after depth, depth, false, ⟨after, tail⟩⟩ := by
  obtain ⟨span, hread⟩ := tagRest_close offset tail
  refine ⟨span, offset + 2, ?_⟩
  have hmore : Cursor.atEnd ⟨offset, '/' :: '>' :: tail⟩ = false := rfl
  simp [next, inTag, hmore, hread, phaseAt, Phase.after]

/-- **A run of text** is found. -/
theorem next_run (run : Run) (depth offset : Nat) (tail : List Char) :
    ∃ span after, next ⟨.content, depth, false, ⟨offset, run.chars ++ '<' :: tail⟩⟩ =
      .event (.text (String.ofList run.chars) span)
        ⟨.content, depth, false, ⟨after, '<' :: tail⟩⟩ := by
  obtain ⟨first, rest, hrun⟩ := List.exists_cons_of_ne_nil run.filled
  obtain ⟨span, hread⟩ := plainText_run run offset tail
  refine ⟨span, offset + run.chars.length, ?_⟩
  have hfirst : first ≠ '<' := (run.allowed first (by rw [hrun]; simp)).2
  rw [hrun, List.cons_append] at hread ⊢
  rw [next_text hfirst, read_eq hread]

/-- **An end tag** is found. -/
theorem next_endTag (name : Name) (depth offset : Nat) (tail : List Char) :
    ∃ span after,
      next ⟨.content, depth + 1, false, ⟨offset, '<' :: '/' :: (name.chars ++ '>' :: tail)⟩⟩ =
        .event (.endTag (name.readAt (offset + 2)) span)
          ⟨Phase.after depth, depth, false, ⟨after, tail⟩⟩ := by
  obtain ⟨span, hread⟩ := endTag_name name offset tail
  refine ⟨span, offset + 2 + name.chars.length + 1, ?_⟩
  have hphase (s : Scanner) (whole : s.fragment = false) : s.phaseAt depth = Phase.after depth := by
    simp only [phaseAt, Phase.after, whole, and_true]
  show read ⟨.content, depth, false, ⟨offset, '<' :: '/' :: (name.chars ++ '>' :: tail)⟩⟩ .element
    endTag (phaseAt ⟨.content, depth + 1, false, ⟨offset, _⟩⟩ depth) = _
  rw [read_eq hread, hphase _ rfl]

end Scanner

end ProjectLens.Markup
