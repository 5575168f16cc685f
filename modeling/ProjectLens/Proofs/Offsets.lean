import ProjectLens.Text.Index

/-! # Offsets, positions and bytes

An index cuts a text into lines, and answers about places go through the lines. Put together the lines
are the text, so the answers agree with plain counts over the whole of it.

* `Index.Lined`: the lines of an index are those of its text;
* `Index.Lined.toOffset_positionAt`: the position of an offset stands for that offset;
* `Index.positionAt_mono`, `Index.ofEnds_positionAt`: positions stand in the order of offsets, so no
  span has its range the wrong way round;
* `Index.Lined.offsetToByte_eq`, `Index.Lined.byteToOffset_offsetToByte`: bytes and characters;
* `dropBytes?`, `takeBytes?`: cutting a text at bytes, which fails inside of characters. -/

namespace ProjectLens

variable {index : Index} {chars front back : List Char} {offset : Nat}

/-! ## Lines -/

/-- `splitLines chars ≠ []`: even an empty text has a line. -/
theorem splitLines_ne_nil (chars : List Char) : splitLines chars ≠ [] := by
  cases chars with
  | nil => exact List.cons_ne_nil _ _
  | cons c rest =>
    unfold splitLines
    split
    · exact List.cons_ne_nil _ _
    · split <;> exact List.cons_ne_nil _ _

/-- No character is lost between lines. -/
theorem flatten_splitLines (chars : List Char) : (splitLines chars).flatten = chars := by
  induction chars with
  | nil => rfl
  | cons c rest ih =>
    unfold splitLines
    split
    · rw [List.flatten_cons, ih, List.singleton_append]
    · split
      · next hnone => exact absurd hnone (splitLines_ne_nil rest)
      · next line lines hlines =>
        rw [hlines, List.flatten_cons] at ih
        rw [List.flatten_cons, List.cons_append, ih]

/-- **The lines of an index are those of its text.** -/
structure Index.Lined (index : Index) : Prop where
  /-- There is a line. -/
  ne_nil : index.lines ≠ []
  /-- Put together they are the text. -/
  flatten_eq : index.lines.flatten = index.chars

/-- The index of characters is lined. -/
theorem Index.lined_ofChars (chars : List Char) : (Index.ofChars chars).Lined :=
  ⟨splitLines_ne_nil chars, flatten_splitLines chars⟩

/-- The index of a text is lined. -/
theorem Index.lined_ofText (text : String) : (Index.ofText text).Lined :=
  Index.lined_ofChars text.toList

/-! ## Positions -/

/-- The line and the column of an offset lead back to it. -/
theorem Index.locate_spec {lines : List (List Char)} (filled : lines ≠ [])
    (hle : offset ≤ lines.flatten.length) :
    ∃ line, lines[(locate lines offset).1]? = some line ∧
      (lines.take (locate lines offset).1).flatten.length + (locate lines offset).2 = offset ∧
      ((locate lines offset).2 < line.length ∨ ((locate lines offset).2 = line.length ∧
        (locate lines offset).1 + 1 = lines.length)) := by
  -- an offset at the end of a line belongs to the next one, if there is one
  induction lines, offset using locate.induct with
  | case1 offset => exact absurd rfl filled
  | case2 line offset =>
    rw [List.flatten_singleton] at hle
    refine ⟨line, rfl, by simp [locate], ?_⟩
    rcases Nat.lt_or_eq_of_le hle with hlt | heq
    · exact .inl hlt
    · exact .inr ⟨heq, rfl⟩
  | case3 line next lines offset hlt =>
    rw [locate, if_pos hlt]
    exact ⟨line, rfl, by simp, .inl hlt⟩
  | case4 line next lines offset hge row column hlocate ih =>
    rw [List.flatten_cons, List.length_append] at hle
    rw [hlocate] at ih
    obtain ⟨found, hget, hoffset, hcolumn⟩ := ih (List.cons_ne_nil _ _) (by omega)
    rw [locate, if_neg hge, hlocate]
    refine ⟨found, hget, ?_, ?_⟩
    · simp only [List.take_succ_cons, List.flatten_cons, List.length_append]
      simp only at hoffset
      omega
    · rcases hcolumn with hcolumn | ⟨hcolumn, hlast⟩
      · exact .inl hcolumn
      · exact .inr ⟨hcolumn, congrArg (· + 1) hlast⟩

/-- **The position of an offset stands for that offset.** -/
theorem Index.Lined.toOffset_positionAt (h : index.Lined) (hle : offset ≤ index.length) :
    index.toOffset (index.positionAt offset) = .ok offset := by
  have hlength : index.lines.flatten.length = index.length := by rw [h.flatten_eq]; rfl
  obtain ⟨line, hget, hoffset, hcolumn⟩ := Index.locate_spec h.ne_nil (hlength ▸ hle)
  unfold toOffset positionAt
  rw [Nat.min_eq_left hle]
  simp only [Position.toZeroBased, Nat.add_sub_cancel, hget]
  rw [lineCount, if_pos hcolumn, lineStart, hoffset]

/-- Lines and columns stand in the order of offsets. -/
theorem Index.locate_mono (lines : List (List Char)) {later : Nat} (hle : offset ≤ later) :
    (locate lines offset).1 < (locate lines later).1 ∨
      ((locate lines offset).1 = (locate lines later).1 ∧
        (locate lines offset).2 ≤ (locate lines later).2) := by
  induction lines, offset using locate.induct generalizing later with
  | case1 offset => exact .inr ⟨rfl, hle⟩
  | case2 line offset => exact .inr ⟨rfl, hle⟩
  | case3 line next lines offset hlt =>
    rw [locate, if_pos hlt, locate]
    split
    · exact .inr ⟨rfl, hle⟩
    · exact .inl (Nat.succ_pos _)
  | case4 line next lines offset hge row column hlocate ih =>
    have hrest := ih (Nat.sub_le_sub_right hle line.length)
    rw [locate, if_neg hge, locate, if_neg (by omega)]
    simp only
    omega

/-- `offset ≤ later → index.positionAt offset ≤ index.positionAt later`. -/
theorem Index.positionAt_mono (index : Index) {later : Nat} (hle : offset ≤ later) :
    index.positionAt offset ≤ index.positionAt later := by
  have hmin : min offset index.length ≤ min later index.length := by omega
  rcases Index.locate_mono index.lines hmin with hlt | ⟨heq, hcolumn⟩
  · exact .inl (Nat.succ_lt_succ hlt)
  · refine .inr ⟨congrArg (· + 1) heq, ?_⟩
    rcases Nat.lt_or_eq_of_le hcolumn with hlt | heq
    · exact .inl (Nat.succ_lt_succ hlt)
    · exact .inr ⟨congrArg (· + 1) heq, Nat.le_refl _⟩

/-- **The range of a span is never the wrong way round**, not even that of a span that is. -/
theorem Index.ofEnds_positionAt (index : Index) (span : Span) :
    Range.ofEnds (index.positionAt span.start) (index.positionAt (max span.start span.stop)) =
      .ok (index.spanToRange span) :=
  if_pos (index.positionAt_mono (Nat.le_max_left _ _))

/-! ## Bytes -/

/-- `byteLength (front ++ back) = byteLength front + byteLength back`. -/
@[simp] theorem byteLength_append (front back : List Char) :
    byteLength (front ++ back) = byteLength front + byteLength back := by
  induction front with
  | nil => exact (Nat.zero_add _).symm
  | cons c front ih => rw [List.cons_append, byteLength, byteLength, ih, Nat.add_assoc]

/-- Characters take up room. -/
theorem byteLength_pos (filled : chars ≠ []) : 0 < byteLength chars := by
  obtain ⟨c, rest, rfl⟩ := List.exists_cons_of_ne_nil filled
  exact Nat.add_pos_left c.utf8Size_pos _

/-- Bytes are counted as the string of the characters counts them. -/
theorem byteLength_eq_utf8ByteSize (chars : List Char) :
    byteLength chars = (String.ofList chars).utf8ByteSize := by
  induction chars with
  | nil => rfl
  | cons c rest ih =>
    rw [String.ofList_cons, String.utf8ByteSize_append, String.utf8ByteSize_singleton, ← ih]
    rfl

/-- All characters before the end of a run start before it. -/
theorem charsBefore_byteLength (front back : List Char) :
    charsBefore (front ++ back) (byteLength front) = front.length := by
  induction front with
  | nil =>
    cases back with
    | nil => rfl
    | cons c back => exact if_pos rfl
  | cons c front ih =>
    have hpos := c.utf8Size_pos
    rw [List.cons_append, byteLength, charsBefore, if_neg (by omega), Nat.add_sub_cancel_left, ih,
      List.length_cons]

namespace Index

/-- The bytes of the first characters of consecutive lines. -/
theorem bytesIn_eq (lines : List (List Char)) (offset : Nat) :
    bytesIn lines offset = byteLength (lines.flatten.take offset) := by
  induction lines generalizing offset with
  | nil => rw [bytesIn, List.flatten_nil, List.take_nil, byteLength]
  | cons line lines ih =>
    rw [bytesIn, List.flatten_cons, List.take_append]
    split
    · next hlt => rw [Nat.sub_eq_zero_of_le (Nat.le_of_lt hlt), List.take_zero, List.append_nil]
    · next hge => rw [ih, byteLength_append, List.take_of_length_le (Nat.le_of_not_lt hge)]

/-- The characters of consecutive lines that start before the end of a run. -/
theorem offsetIn_eq (lines : List (List Char)) (h : lines.flatten = front ++ back) :
    offsetIn lines (byteLength front) = front.length := by
  induction lines generalizing front back with
  | nil =>
    obtain rfl := (List.append_eq_nil_iff.mp h.symm).1
    rfl
  | cons line lines ih =>
    rw [List.flatten_cons] at h
    rw [offsetIn]
    -- the run ends in the first line, or goes on behind it
    rcases List.append_eq_append_iff.mp h with ⟨more, rfl, hrest⟩ | ⟨more, hline, hrest⟩
    · rw [byteLength_append, if_neg (by omega), Nat.add_sub_cancel_left, ih hrest,
        List.length_append]
    · rw [hline, byteLength_append]
      split
      · exact charsBefore_byteLength front more
      · next hge =>
        obtain rfl : more = [] := by
          refine Decidable.byContradiction fun filled => hge ?_
          have := byteLength_pos filled
          omega
        rw [List.append_nil] at hline
        rw [byteLength, Nat.add_zero, Nat.sub_self, List.append_nil]
        exact congrArg (front.length + ·) (@ih [] _ hrest.symm)

namespace Lined

/-- **The byte of an offset** is the number of bytes before it. -/
theorem offsetToByte_eq (h : index.Lined) (offset : Nat) :
    index.offsetToByte offset = byteLength (index.chars.take offset) := by
  rw [offsetToByte, bytesIn_eq, h.flatten_eq]

/-- The byte at the end of a front of the text is the length of the front in bytes. -/
theorem offsetToByte_length (h : index.Lined) (hchars : index.chars = front ++ back) :
    index.offsetToByte front.length = byteLength front := by
  rw [h.offsetToByte_eq, hchars, List.take_left]

/-- The length of a front in bytes is taken back to its length in characters. -/
theorem byteToOffset_byteLength (h : index.Lined) (hchars : index.chars = front ++ back) :
    index.byteToOffset (byteLength front) = front.length :=
  offsetIn_eq index.lines (h.flatten_eq.trans hchars)

/-- **The offset of the byte of an offset** is that offset. -/
theorem byteToOffset_offsetToByte (h : index.Lined) (hle : offset ≤ index.length) :
    index.byteToOffset (index.offsetToByte offset) = offset := by
  rw [h.offsetToByte_eq,
    h.byteToOffset_byteLength (List.take_append_drop offset index.chars).symm, List.length_take]
  exact Nat.min_eq_left hle

/-- Between two offsets stand the bytes of the text between them. -/
theorem offsetToByte_add (h : index.Lined) {start stop : Nat} (hle : start ≤ stop) :
    index.offsetToByte stop =
      index.offsetToByte start + byteLength (index.sliceChars ⟨start, stop⟩) := by
  have hslice : index.chars.take stop =
      index.chars.take start ++ index.sliceChars ⟨start, stop⟩ := by
    rw [sliceChars, ← List.take_add, Nat.add_sub_cancel' hle]
  rw [h.offsetToByte_eq, h.offsetToByte_eq, hslice, byteLength_append]

/-- Later offsets have later bytes. -/
theorem offsetToByte_lt (h : index.Lined) {later : Nat} (hlt : offset < later)
    (hle : later ≤ index.length) : index.offsetToByte offset < index.offsetToByte later := by
  have hpos : 0 < byteLength (index.sliceChars ⟨offset, later⟩) := by
    refine byteLength_pos (List.ne_nil_of_length_pos ?_)
    unfold length at hle
    simp only [sliceChars, List.length_take, List.length_drop]
    omega
  have := h.offsetToByte_add (Nat.le_of_lt hlt)
  omega

/-- `offset ≤ later → index.offsetToByte offset ≤ index.offsetToByte later` within the text. -/
theorem offsetToByte_le (h : index.Lined) {later : Nat} (hle : offset ≤ later)
    (hlater : later ≤ index.length) : index.offsetToByte offset ≤ index.offsetToByte later := by
  rcases Nat.lt_or_eq_of_le hle with hlt | rfl
  · exact Nat.le_of_lt (h.offsetToByte_lt hlt hlater)
  · exact Nat.le_refl _

/-- **The byte of an offset is where a character starts, or the text ends.** -/
theorem isValid_offsetToByte (h : index.Lined) (offset : Nat) :
    (String.Pos.Raw.mk (index.offsetToByte offset)).IsValid index.text := by
  refine String.Pos.Raw.isValid_iff_exists_append.mpr
    ⟨String.ofList (index.chars.take offset), String.ofList (index.chars.drop offset), ?_, ?_⟩
  · rw [← String.ofList_append, List.take_append_drop]
    rfl
  · rw [h.offsetToByte_eq, byteLength_eq_utf8ByteSize]
    rfl

end Lined

end Index

/-- As many characters are read from a span of a text as it has. -/
theorem Index.length_slice {span : Span} (h : span.stop ≤ index.length) :
    (index.slice span).length = span.stop - span.start := by
  unfold Index.length at h
  rw [Index.slice, ← String.length_toList, String.toList_ofList, Index.sliceChars, List.length_take,
    List.length_drop]
  omega

/-! ## Cutting at bytes -/

/-- What is left after some bytes; `none` when they end inside a character or after the text. -/
def dropBytes? : Nat → List Char → Option (List Char)
  | 0, chars => some chars
  | _ + 1, [] => none
  | count + 1, c :: rest =>
    if c.utf8Size ≤ count + 1 then dropBytes? (count + 1 - c.utf8Size) rest else none
termination_by _ chars => chars.length

/-- The characters of some bytes; `none` when they end inside a character or after the text. -/
def takeBytes? : Nat → List Char → Option (List Char)
  | 0, _ => some []
  | _ + 1, [] => none
  | count + 1, c :: rest =>
    if c.utf8Size ≤ count + 1 then (takeBytes? (count + 1 - c.utf8Size) rest).map (c :: ·) else none
termination_by _ chars => chars.length

/-- The text is cut where a run ends. -/
theorem dropBytes?_byteLength (front back : List Char) :
    dropBytes? (byteLength front) (front ++ back) = some back := by
  induction front with
  | nil => rw [byteLength, dropBytes?, List.nil_append]
  | cons c front ih =>
    obtain ⟨count, hcount⟩ := Nat.exists_eq_add_one.mpr (byteLength_pos (List.cons_ne_nil c front))
    rw [hcount, List.cons_append, dropBytes?, ← hcount, byteLength, if_pos (Nat.le_add_right _ _),
      Nat.add_sub_cancel_left, ih]

/-- `takeBytes? (byteLength front) (front ++ back) = some front`. -/
theorem takeBytes?_byteLength (front back : List Char) :
    takeBytes? (byteLength front) (front ++ back) = some front := by
  induction front with
  | nil => rw [byteLength, takeBytes?]
  | cons c front ih =>
    obtain ⟨count, hcount⟩ := Nat.exists_eq_add_one.mpr (byteLength_pos (List.cons_ne_nil c front))
    rw [hcount, List.cons_append, takeBytes?, ← hcount, byteLength, if_pos (Nat.le_add_right _ _),
      Nat.add_sub_cancel_left, ih, Option.map_some]

namespace Index

/-- The text from a byte on. -/
def fromByte? (index : Index) (start : Nat) : Option (List Char) := dropBytes? start index.chars

/-- The text between two bytes. -/
def betweenBytes? (index : Index) (start stop : Nat) : Option (List Char) :=
  if start ≤ stop then (index.fromByte? start).bind (takeBytes? (stop - start)) else none

/-- The text from the byte of an offset on is the text from that offset on. -/
theorem Lined.fromByte?_eq (h : index.Lined) (offset : Nat) :
    index.fromByte? (index.offsetToByte offset) = some (index.chars.drop offset) := by
  have hdrop := dropBytes?_byteLength (index.chars.take offset) (index.chars.drop offset)
  rw [List.take_append_drop] at hdrop
  rw [fromByte?, h.offsetToByte_eq, hdrop]

/-- The text between the bytes of two offsets is the text between these. -/
theorem Lined.betweenBytes?_eq (h : index.Lined) {start stop : Nat} (hle : start ≤ stop) :
    index.betweenBytes? (index.offsetToByte start) (index.offsetToByte stop) =
      some (index.sliceChars ⟨start, stop⟩) := by
  have htake := takeBytes?_byteLength (index.sliceChars ⟨start, stop⟩)
    ((index.chars.drop start).drop (stop - start))
  rw [show index.sliceChars ⟨start, stop⟩ ++ (index.chars.drop start).drop (stop - start) =
    index.chars.drop start from List.take_append_drop _ _] at htake
  rw [betweenBytes?, h.offsetToByte_add hle, if_pos (Nat.le_add_right _ _), h.fromByte?_eq,
    Option.bind_some, Nat.add_sub_cancel_left, htake]

end Index

end ProjectLens
