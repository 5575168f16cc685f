import ProjectLens.Proofs.LineSearch

/-! # Bytes found through line starts

Scanners count a text in bytes, nodes count it in characters. One table has the characters before each
line, another one the bytes: a place is looked up in one of them, and from the start of its line the
characters are passed one by one. Below each step of that is checked: a place of a table that is not
there, a negative difference, and a cut that is not between two characters are `none`. They never are,
and what comes out is a plain count over the whole text.

* `charIndices`: characters with the bytes they start at; `countP_charIndices_le_iff`: how many of them
  start before a byte;
* `Index.offsetIn_eq_countP`: counting line by line is counting the whole text;
* `Index.byteStarts_eq`: both tables have the same places;
* `Index.byteToOffset?_eq`, `Index.offsetToByte?_eq`, `Index.slice?_eq`: the checked search succeeds, with
  the known answers;
* `Index.Bridged`, `Index.bridged_ofText`: bytes and characters of every text. -/

namespace ProjectLens

variable {index : Index} {chars : List Char} {base byte offset : Nat}

/-! ## Characters and the bytes they start at -/

/-- The characters of a text, each with the byte it starts at; the first one starts at `base`. -/
def charIndices (base : Nat) : List Char → List (Nat × Char)
  | [] => []
  | c :: rest => (base, c) :: charIndices (base + c.utf8Size) rest

/-- `(charIndices base chars).length = chars.length`. -/
@[simp] theorem length_charIndices (base : Nat) (chars : List Char) :
    (charIndices base chars).length = chars.length := by
  induction chars generalizing base with
  | nil => rfl
  | cons c rest ih => rw [charIndices, List.length_cons, ih, List.length_cons]

/-- The places of a back start where the front ends in bytes. -/
theorem charIndices_append (base : Nat) (front back : List Char) :
    charIndices base (front ++ back) =
      charIndices base front ++ charIndices (base + byteLength front) back := by
  induction front generalizing base with
  | nil => rfl
  | cons c front ih =>
    rw [List.cons_append, charIndices, ih, charIndices, byteLength, Nat.add_assoc, List.cons_append]

/-- A character starts where those before it end. -/
theorem getElem?_charIndices (base : Nat) (chars : List Char) (offset : Nat) :
    (charIndices base chars)[offset]? =
      chars[offset]?.map fun c => (base + byteLength (chars.take offset), c) := by
  induction chars generalizing base offset with
  | nil => rfl
  | cons c rest ih =>
    cases offset with
    | zero => rfl
    | succ offset =>
      rw [charIndices, List.getElem?_cons_succ, ih, List.getElem?_cons_succ, List.take_succ_cons,
        byteLength, Nat.add_assoc]

/-- Characters start from the first byte on, and before the byte after the last one. -/
theorem bounds_of_mem_charIndices {entry : Nat × Char} (h : entry ∈ charIndices base chars) :
    base ≤ entry.1 ∧ entry.1 < base + byteLength chars := by
  induction chars generalizing base with
  | nil => cases h
  | cons c rest ih =>
    have hpos := c.utf8Size_pos
    rw [byteLength]
    rcases List.mem_cons.mp h with rfl | hrest
    · exact ⟨Nat.le_refl _, by omega⟩
    · have := ih hrest
      omega

/-- No character starts before a byte that is not after the first one. -/
theorem countP_charIndices_eq_zero (h : byte ≤ base) :
    (charIndices base chars).countP (fun entry => entry.1 < byte) = 0 := by
  rw [List.countP_eq_zero]
  intro entry hentry
  have := (bounds_of_mem_charIndices hentry).1
  simp only [decide_eq_true_eq]
  omega

/-- All characters start before the byte after the last one. -/
theorem countP_charIndices_eq_length (h : base + byteLength chars ≤ byte) :
    (charIndices base chars).countP (fun entry => entry.1 < byte) = chars.length := by
  rw [← length_charIndices base chars, List.countP_eq_length]
  intro entry hentry
  have := (bounds_of_mem_charIndices hentry).2
  simp only [decide_eq_true_eq]
  omega

/-- **How many characters start before a byte**: no more than `offset`, just if that many reach it. -/
theorem countP_charIndices_le_iff (h : byte ≤ base + byteLength chars) :
    (charIndices base chars).countP (fun entry => entry.1 < byte) ≤ offset ↔
      byte ≤ base + byteLength (chars.take offset) := by
  induction chars generalizing base offset with
  | nil => simpa [charIndices, byteLength] using h
  | cons c rest ih =>
    by_cases hfirst : base < byte
    · rw [charIndices, List.countP_cons_of_pos (by simpa using hfirst)]
      cases offset with
      | zero =>
        rw [List.take_zero, byteLength]
        omega
      | succ offset =>
        rw [byteLength, ← Nat.add_assoc] at h
        rw [Nat.add_le_add_iff_right, ih h, List.take_succ_cons, byteLength, Nat.add_assoc]
    · rw [countP_charIndices_eq_zero (Nat.le_of_not_lt hfirst)]
      omega

/-- Characters start one after another, so those before a byte come first. -/
theorem length_takeWhile_charIndices (base : Nat) (chars : List Char) (byte : Nat) :
    ((charIndices base chars).takeWhile fun entry => entry.1 < byte).length =
      (charIndices base chars).countP fun entry => entry.1 < byte := by
  induction chars generalizing base with
  | nil => rfl
  | cons c rest ih =>
    by_cases hfirst : base < byte
    · rw [charIndices, List.takeWhile_cons_of_pos (by simpa using hfirst), List.length_cons, ih,
        List.countP_cons_of_pos (by simpa using hfirst)]
    · rw [countP_charIndices_eq_zero (Nat.le_of_not_lt hfirst), charIndices,
        List.takeWhile_cons_of_neg (by simpa using hfirst), List.length_nil]

/-! ## Counting line by line -/

/-- The characters before a byte are the places that lie before it. -/
theorem charsBefore_eq_countP (base : Nat) (chars : List Char) (byte : Nat) :
    charsBefore chars (byte - base) =
      (charIndices base chars).countP fun entry => entry.1 < byte := by
  induction chars generalizing base with
  | nil => rfl
  | cons c rest ih =>
    by_cases hfirst : base < byte
    · rw [charsBefore, if_neg (by omega), charIndices,
        List.countP_cons_of_pos (by simpa using hfirst), ← ih, Nat.sub_add_eq]
    · rw [charsBefore, if_pos (by omega), countP_charIndices_eq_zero (Nat.le_of_not_lt hfirst)]

namespace Index

/-- **Counting line by line is counting the whole text.** -/
theorem offsetIn_eq_countP (lines : List (List Char)) (h : base ≤ byte) :
    offsetIn lines (byte - base) =
      (charIndices base lines.flatten).countP fun entry => entry.1 < byte := by
  induction lines generalizing base with
  | nil => rfl
  | cons line lines ih =>
    rw [offsetIn, List.flatten_cons, charIndices_append, List.countP_append]
    by_cases hinside : byte - base < byteLength line
    · -- the byte is in this line, so no character of a later one starts before it
      have hbefore : byte ≤ base + byteLength line := by omega
      rw [if_pos hinside, charsBefore_eq_countP, countP_charIndices_eq_zero hbefore, Nat.add_zero]
    · have hbehind : base + byteLength line ≤ byte := by omega
      rw [if_neg hinside, countP_charIndices_eq_length hbehind, ← ih hbehind, Nat.sub_add_eq]

namespace Lined

variable (h : index.Lined)
include h

/-- **The offset of a byte** is the number of characters that start before it. -/
theorem byteToOffset_eq_countP (byte : Nat) : index.byteToOffset byte =
    (charIndices 0 index.chars).countP fun entry => entry.1 < byte := by
  have hcount := offsetIn_eq_countP index.lines (Nat.zero_le byte)
  rwa [Nat.sub_zero, h.flatten_eq] at hcount

/-- A byte after the text counts as the end of it. -/
theorem byteToOffset_min (byte : Nat) :
    index.byteToOffset (min byte (byteLength index.chars)) = index.byteToOffset byte := by
  rcases Nat.le_total byte (byteLength index.chars) with hle | hge
  · rw [Nat.min_eq_left hle]
  · rw [Nat.min_eq_right hge, h.byteToOffset_eq_countP, h.byteToOffset_eq_countP,
      countP_charIndices_eq_length (by omega), countP_charIndices_eq_length (by omega)]

/-- **A byte stands at or before an offset just if its character does**: inside of a character it counts
for the next one. -/
theorem byteToOffset_le_iff (hbyte : byte ≤ byteLength index.chars) :
    index.byteToOffset byte ≤ offset ↔ byte ≤ index.offsetToByte offset := by
  rw [h.byteToOffset_eq_countP, h.offsetToByte_eq, countP_charIndices_le_iff (by omega), Nat.zero_add]

/-- An offset after the text counts as the end of it. -/
theorem offsetToByte_min (offset : Nat) :
    index.offsetToByte (min offset index.length) = index.offsetToByte offset := by
  rw [h.offsetToByte_eq, h.offsetToByte_eq, length, ← List.take_eq_take_min]

end Lined

end Index

/-! ## Two tables of line starts -/

/-- The byte that a new line starts at after a character, if that is a line feed. -/
def lineAfter? (entry : Nat × Char) : Option Nat :=
  if entry.2 = '\n' then some (entry.1 + 1) else none

/-- The byte of the first character of each line. -/
def Index.byteStarts (index : Index) : List Nat :=
  0 :: (charIndices 0 index.chars).filterMap lineAfter?

/-- After some characters, lines start at the bytes of their offsets. -/
theorem filterMap_charIndices (front rest : List Char) :
    (charIndices (byteLength front) rest).filterMap lineAfter? =
      (lineStartsFrom front.length rest).map fun start =>
        byteLength ((front ++ rest).take start) := by
  induction rest generalizing front with
  | nil => rfl
  | cons c rest ih =>
    have hsize : byteLength (front ++ [c]) = byteLength front + c.utf8Size := by
      simp [byteLength]
    -- the induction hypothesis, with the character moved to the front
    have hnext := ih (front ++ [c])
    rw [hsize, List.append_assoc, List.singleton_append, List.length_append,
      List.length_singleton] at hnext
    rw [charIndices, lineStartsFrom]
    by_cases hfeed : c = '\n'
    · -- the next line starts right after the line feed, which is one byte
      have hfirst : lineAfter? (byteLength front, c) = some (byteLength front + 1) := if_pos hfeed
      have hone : c.utf8Size = 1 := by rw [hfeed]; rfl
      have htake : (front ++ c :: rest).take (front.length + 1) = front ++ [c] := by
        rw [List.take_length_add_append, List.take_succ_cons, List.take_zero]
      rw [hone] at hnext hsize ⊢
      rw [if_pos hfeed, List.filterMap_cons_some hfirst, hnext, List.map_cons, htake, hsize]
    · have hfirst : lineAfter? (byteLength front, c) = none := if_neg hfeed
      rw [if_neg hfeed, List.filterMap_cons_none hfirst, hnext]

namespace Index

/-- **Both tables have the same places**, one in characters and one in bytes. -/
theorem byteStarts_eq (chars : List Char) :
    (ofChars chars).byteStarts = (ofChars chars).starts.map (ofChars chars).offsetToByte := by
  have hbyte : (ofChars chars).offsetToByte = fun start => byteLength (chars.take start) :=
    funext (lined_ofChars chars).offsetToByte_eq
  rw [hbyte]
  exact congrArg (List.cons 0) (filterMap_charIndices [] chars)

/-- A line starts in the text, or at its end. -/
theorem start_le_length {row start : Nat} (hstart : (ofChars chars).starts[row]? = some start) :
    start ≤ (ofChars chars).length := by
  rw [starts_getElem?] at hstart
  obtain ⟨line, hline, rfl⟩ := Option.map_eq_some_iff.mp hstart
  have hend := lineStart_add_le hline
  rw [(lined_ofChars chars).flatten_eq] at hend
  unfold lineStart length
  omega

/-- The bytes that lines start at ascend, as their offsets do. -/
theorem pairwise_byteStarts (chars : List Char) :
    (ofChars chars).byteStarts.Pairwise (· < ·) := by
  rw [byteStarts_eq, List.pairwise_map]
  refine (pairwise_lineStartsFrom 0 chars).imp_of_mem fun {a b} _ hb hlt => ?_
  obtain ⟨row, hrow⟩ := List.mem_iff_getElem?.mp hb
  exact (lined_ofChars chars).offsetToByte_lt hlt (start_le_length hrow)

/-! ## Checked answers -/

/-- The offset of a byte, found through the bytes that lines start at. -/
def byteToOffset? (index : Index) (byte : Nat) : Option Nat := do
  let byte := min byte index.text.utf8ByteSize
  let line ← lineOf? index.byteStarts byte
  let lineByte ← index.byteStarts[line]?
  let rest ← index.fromByte? lineByte
  let start ← index.starts[line]?
  return start + ((charIndices lineByte rest).takeWhile fun entry => entry.1 < byte).length

/-- The byte of an offset, found through the offsets that lines start at. -/
def offsetToByte? (index : Index) (offset : Nat) : Option Nat := do
  let offset := min offset index.length
  let line ← lineOf? index.starts offset
  let lineByte ← index.byteStarts[line]?
  let rest ← index.fromByte? lineByte
  let start ← index.starts[line]?
  let column ← minus? offset start
  return ((charIndices lineByte rest)[column]?.map Prod.fst).getD index.text.utf8ByteSize

/-- The text of a span, cut out between the bytes of its ends. -/
def slice? (index : Index) (span : Span) : Option String := do
  let start ← index.offsetToByte? span.start
  let stop ← index.offsetToByte? (max span.start span.stop)
  let chars ← index.betweenBytes? start stop
  return String.ofList chars

/-- `index.text.utf8ByteSize = byteLength index.chars`. -/
theorem utf8ByteSize_text (index : Index) : index.text.utf8ByteSize = byteLength index.chars :=
  (byteLength_eq_utf8ByteSize index.chars).symm

namespace Lined

variable (h : index.Lined)
include h

/-- **From the start of a line on** as many characters are left as in the whole text. -/
theorem add_length_takeWhile {start : Nat} (hstart : start ≤ index.length)
    (hle : index.offsetToByte start ≤ byte) :
    start + ((charIndices (index.offsetToByte start) (index.chars.drop start)).takeWhile
      fun entry => entry.1 < byte).length = index.byteToOffset byte := by
  have hsplit := charIndices_append 0 (index.chars.take start) (index.chars.drop start)
  rw [List.take_append_drop, Nat.zero_add, ← h.offsetToByte_eq] at hsplit
  -- all characters before the line start before the byte
  have hfront : 0 + byteLength (index.chars.take start) ≤ byte := by
    rw [Nat.zero_add, ← h.offsetToByte_eq]
    exact hle
  rw [h.byteToOffset_eq_countP, hsplit, List.countP_append, countP_charIndices_eq_length hfront,
    length_takeWhile_charIndices, List.length_take_of_le hstart]

/-- **From the start of a line on** characters start where they do in the whole text. -/
theorem getElem?_charIndices_drop {start : Nat} (hle : start ≤ offset)
    (hlength : offset ≤ index.length) :
    ((charIndices (index.offsetToByte start) (index.chars.drop start))[offset - start]?.map
      Prod.fst).getD (byteLength index.chars) = index.offsetToByte offset := by
  have hbyte := h.offsetToByte_add hle
  rw [sliceChars] at hbyte
  rw [getElem?_charIndices, ← hbyte, List.getElem?_drop, Nat.add_sub_cancel' hle]
  rcases Nat.lt_or_eq_of_le hlength with hlt | rfl
  · rw [List.getElem?_eq_getElem hlt, Option.map_some, Option.map_some, Option.getD_some]
  · -- no character starts at the end of the text
    have hnone : index.chars[index.length]? = none := List.getElem?_eq_none (Nat.le_refl _)
    rw [hnone, Option.map_none, Option.map_none, Option.getD_none, h.offsetToByte_eq, length,
      List.take_length]

end Lined

/-- **The offset of a byte is found through the line starts**, without a step that fails. -/
theorem byteToOffset?_eq (chars : List Char) (byte : Nat) :
    (ofChars chars).byteToOffset? byte = some ((ofChars chars).byteToOffset byte) := by
  have hlined := lined_ofChars chars
  obtain ⟨row, lineByte, hrow, hlineByte, hle, -⟩ := lineOf?_spec (pairwise_byteStarts chars) rfl
    (min byte (byteLength (ofChars chars).chars))
  -- the line starts at the same place in both tables
  have hboth := hlineByte
  rw [byteStarts_eq, List.getElem?_map] at hboth
  obtain ⟨start, hstart, rfl⟩ := Option.map_eq_some_iff.mp hboth
  simp only [byteToOffset?, utf8ByteSize_text, hrow, hlineByte, hstart, hlined.fromByte?_eq,
    Option.bind_eq_bind, Option.bind_some, Option.pure_def]
  rw [hlined.add_length_takeWhile (start_le_length hstart) hle, hlined.byteToOffset_min]

/-- **The byte of an offset is found through the line starts**, without a step that fails. -/
theorem offsetToByte?_eq (chars : List Char) (offset : Nat) :
    (ofChars chars).offsetToByte? offset = some ((ofChars chars).offsetToByte offset) := by
  have hlined := lined_ofChars chars
  have hmin := Nat.min_le_right offset (ofChars chars).length
  obtain ⟨row, start, hrow, hstart, hle, -⟩ := lineOf?_spec (pairwise_lineStartsFrom 0 chars) rfl
    (min offset (ofChars chars).length)
  have hlineOf : lineOf? (ofChars chars).starts (min offset (ofChars chars).length) = some row := hrow
  have hget : (ofChars chars).starts[row]? = some start := hstart
  have hlineByte : (ofChars chars).byteStarts[row]? = some ((ofChars chars).offsetToByte start) := by
    rw [byteStarts_eq, List.getElem?_map, hget, Option.map_some]
  simp only [offsetToByte?, utf8ByteSize_text, hlineOf, hget, hlineByte, hlined.fromByte?_eq,
    minus?_eq_some hle, Option.bind_eq_bind, Option.bind_some, Option.pure_def]
  rw [hlined.getElem?_charIndices_drop hle hmin, hlined.offsetToByte_min]

/-- **No span cuts a character in two**, not even one that is the wrong way round. -/
theorem slice?_eq (chars : List Char) (span : Span) :
    (ofChars chars).slice? span = some ((ofChars chars).slice span) := by
  have hbytes := (lined_ofChars chars).betweenBytes?_eq (Nat.le_max_left span.start span.stop)
  have hslice : (ofChars chars).sliceChars ⟨span.start, max span.start span.stop⟩ =
      (ofChars chars).sliceChars span := by
    have hlength : max span.start span.stop - span.start = span.stop - span.start := by omega
    rw [sliceChars, sliceChars, hlength]
  rw [hslice] at hbytes
  simp only [slice?, offsetToByte?_eq, hbytes, Option.bind_eq_bind, Option.bind_some, Option.pure_def]
  rfl

/-- The characters of a span lie between its ends, as far as these are in the text. -/
theorem sliceChars_eq (index : Index) (span : Span) : index.sliceChars span =
    (index.chars.take (min (max span.start span.stop) index.length)).drop
      (min span.start index.length) := by
  rw [sliceChars, List.drop_take]
  rcases Nat.le_total span.start index.length with hle | hge
  · rw [Nat.min_eq_left hle, List.take_eq_take_iff, List.length_drop]
    unfold length at hle ⊢
    omega
  · -- the span starts after the text
    unfold length at hge ⊢
    rw [Nat.min_eq_right hge, List.drop_of_length_le hge, List.drop_length, List.take_nil,
      List.take_nil]

end Index

/-! ## Bytes and characters of a text -/

/-- **Bytes and characters of a text count the same places.** -/
structure Index.Bridged (text : String) (index : Index) : Prop where
  /-- The offset of a byte is the number of characters that start before it. -/
  byteToOffset_eq : ∀ byte, index.byteToOffset byte = (charIndices 0 text.toList).countP
    fun entry => entry.1 < min byte text.utf8ByteSize
  /-- The byte of an offset is the number of bytes of the characters before it. -/
  offsetToByte_eq : ∀ offset, index.offsetToByte offset =
    (String.ofList (text.toList.take (min offset text.length))).utf8ByteSize
  /-- The byte of an offset leads back to it. -/
  byteToOffset_offsetToByte : ∀ offset,
    index.byteToOffset (index.offsetToByte offset) = min offset text.length
  /-- A byte inside of a character counts for the end of it. -/
  byteToOffset_le_iff : ∀ byte ≤ text.utf8ByteSize, ∀ offset ≤ text.length,
    (index.byteToOffset byte ≤ offset ↔ byte ≤ index.offsetToByte offset)
  /-- The text of a span is that between its ends, as far as these are in the text. -/
  slice_eq : ∀ span, index.slice span = String.ofList
    ((text.toList.take (min (max span.start span.stop) text.length)).drop
      (min span.start text.length))
  /-- No step of the search for an offset fails. -/
  byteToOffset?_eq : ∀ byte, index.byteToOffset? byte = some (index.byteToOffset byte)
  /-- No step of the search for a byte fails. -/
  offsetToByte?_eq : ∀ offset, index.offsetToByte? offset = some (index.offsetToByte offset)
  /-- No span cuts a character in two. -/
  slice?_eq : ∀ span, index.slice? span = some (index.slice span)

/-- **Bytes and characters of every text count the same places**, whatever bytes and offsets are asked
for. -/
theorem Index.bridged_ofText (text : String) : (Index.ofText text).Bridged text := by
  have hlined := Index.lined_ofText text
  have hlength : (Index.ofText text).length = text.length := String.length_toList
  have hsize : byteLength (Index.ofText text).chars = text.utf8ByteSize := by
    rw [← Index.utf8ByteSize_text, Index.text, Index.ofText, Index.ofChars, String.ofList_toList]
  refine ⟨fun byte => ?_, fun offset => ?_, fun offset => ?_, fun byte hbyte offset _ => ?_,
    fun span => ?_, Index.byteToOffset?_eq text.toList, Index.offsetToByte?_eq text.toList,
    Index.slice?_eq text.toList⟩
  · rw [← hlined.byteToOffset_min, hsize, hlined.byteToOffset_eq_countP]
    rfl
  · rw [← hlined.offsetToByte_min, hlength, hlined.offsetToByte_eq, byteLength_eq_utf8ByteSize]
    rfl
  · rw [← hlined.offsetToByte_min, hlength]
    exact hlined.byteToOffset_offsetToByte (hlength ▸ Nat.min_le_right _ _)
  · exact hlined.byteToOffset_le_iff (hsize ▸ hbyte)
  · rw [Index.slice, Index.sliceChars_eq, hlength]
    rfl

end ProjectLens
