import ProjectLens.Proofs.Places

/-! # Positions found through line starts

A text's places can be answered from the offsets its lines start at: the line of an offset is found by
halving, and the column is what is left. Below each step of that search is checked: a place of the list
that is not there and a difference that would be negative are `none`. They never are, and the search
answers as the lines themselves do.

* `bisect?_spec`: what halving finds in an ascending list;
* `lineStarts_getElem?`: the starts counted from line feeds are those of the lines;
* `Index.toPosition?_eq`, `Index.toOffset?_eq`: the checked search succeeds, with the known answers;
* `Index.bijection_ofText`: positions and offsets of a text are in bijection. -/

namespace ProjectLens

/-! ## Halving -/

/-- What a search in an ascending list comes to. -/
inductive Sought where
  /-- The number stands at this place. -/
  | found (place : Nat)
  /-- The number is not there; it would have to stand at this place. -/
  | missing (place : Nat)
  deriving DecidableEq, Repr

/-- Looks for a number between two places of an ascending list, in the half of them that can hold it. -/
def bisect? (starts : List Nat) (offset low high : Nat) : Option Sought :=
  if low < high then
    let middle := low + (high - low) / 2
    match starts[middle]? with
    | none => none
    | some start =>
      if start = offset then some (.found middle)
      else if start < offset then bisect? starts offset (middle + 1) high
      else bisect? starts offset low middle
  else some (.missing low)
termination_by high - low

/-- A difference; `none` when it would be negative. -/
def minus? (a b : Nat) : Option Nat := if b ≤ a then some (a - b) else none

/-- `b ≤ a → minus? a b = some (a - b)`. -/
theorem minus?_eq_some {a b : Nat} (hle : b ≤ a) : minus? a b = some (a - b) := if_pos hle

/-- The line of an offset: the one that starts there, or else the one before the next start. -/
def lineOf? (starts : List Nat) (offset : Nat) : Option Nat :=
  match bisect? starts offset 0 starts.length with
  | none => none
  | some (.found line) => some line
  | some (.missing next) => minus? next 1

section Bisect

variable {starts : List Nat} {offset low high : Nat}

/-- What stands at the places of an ascending list ascends. -/
theorem lt_of_ascending (hascending : starts.Pairwise (· < ·)) {i j a b : Nat} (hij : i < j)
    (ha : starts[i]? = some a) (hb : starts[j]? = some b) : a < b := by
  obtain ⟨hi, rfl⟩ := List.getElem?_eq_some_iff.mp ha
  obtain ⟨hj, rfl⟩ := List.getElem?_eq_some_iff.mp hb
  exact List.pairwise_iff_getElem.mp hascending i j hi hj hij

/-- **Halving finds a number where it stands**, or the place between the smaller and the greater ones.
Before `low` all are smaller, and from `high` on all are greater. -/
theorem bisect?_spec (hascending : starts.Pairwise (· < ·)) (hle : low ≤ high)
    (hhigh : high ≤ starts.length)
    (hbefore : ∀ place start, place < low → starts[place]? = some start → start < offset)
    (hafter : ∀ place start, high ≤ place → starts[place]? = some start → offset < start) :
    (∃ place, bisect? starts offset low high = some (.found place) ∧
      starts[place]? = some offset) ∨
    (∃ place, bisect? starts offset low high = some (.missing place) ∧ place ≤ starts.length ∧
      (∀ i start, i < place → starts[i]? = some start → start < offset) ∧
      (∀ i start, place ≤ i → starts[i]? = some start → offset < start)) := by
  induction low, high using bisect?.induct starts offset with
  | case1 low high hlt middle hnone =>
    -- the middle is a place of the list
    have hsize : starts.length ≤ middle := List.getElem?_eq_none_iff.mp hnone
    have hmiddle : middle < high := by omega
    omega
  | case2 low high hlt middle hsome =>
    refine .inl ⟨middle, ?_, hsome⟩
    rw [bisect?, if_pos hlt]
    simp only [middle] at hsome
    simp [hsome, middle]
  | case3 low high hlt middle start hsome hne hsmaller ih =>
    have hstep : bisect? starts offset low high = bisect? starts offset (middle + 1) high := by
      rw [bisect?, if_pos hlt]
      simp only [middle] at hsome
      simp [hsome, hne, hsmaller, middle]
    rw [hstep]
    refine ih (by omega) hhigh ?_ hafter
    intro place value hplace hvalue
    by_cases heq : place = middle
    · rw [heq, hsome] at hvalue
      cases hvalue
      exact hsmaller
    · exact Nat.lt_trans (lt_of_ascending hascending (by omega) hvalue hsome) hsmaller
  | case4 low high hlt middle start hsome hne hgreater ih =>
    have hstep : bisect? starts offset low high = bisect? starts offset low middle := by
      rw [bisect?, if_pos hlt]
      simp only [middle] at hsome
      simp [hsome, hne, hgreater, middle]
    rw [hstep]
    refine ih (by omega) (by omega) hbefore ?_
    intro place value hplace hvalue
    have hstart : offset < start := by omega
    by_cases heq : place = middle
    · rw [heq, hsome] at hvalue
      cases hvalue
      exact hstart
    · exact Nat.lt_trans hstart (lt_of_ascending hascending (by omega) hsome hvalue)
  | case5 low high hge =>
    obtain rfl : low = high := by omega
    refine .inr ⟨low, ?_, hhigh, hbefore, hafter⟩
    rw [bisect?, if_neg hge]

/-- **The line of an offset is found**: it starts at or before the offset, and the next one after it. -/
theorem lineOf?_spec (hascending : starts.Pairwise (· < ·)) (hzero : starts[0]? = some 0)
    (offset : Nat) :
    ∃ line start, lineOf? starts offset = some line ∧ starts[line]? = some start ∧
      start ≤ offset ∧ ∀ next, starts[line + 1]? = some next → offset < next := by
  have hnone : ∀ place start, place < 0 → starts[place]? = some start → start < offset := by
    intro place start hplace
    omega
  have hall : ∀ place start, starts.length ≤ place → starts[place]? = some start →
      offset < start := by
    intro place start hplace hstart
    rw [List.getElem?_eq_none hplace] at hstart
    cases hstart
  -- halving finds the offset itself, or where it would stand
  rcases bisect?_spec hascending (Nat.zero_le _) (Nat.le_refl _) hnone hall with
    ⟨line, hfound, hstart⟩ | ⟨next, hmissing, hsize, hsmaller, hgreater⟩
  · refine ⟨line, offset, ?_, hstart, Nat.le_refl _, ?_⟩
    · rw [lineOf?, hfound]
    · intro next hnext
      exact lt_of_ascending hascending (Nat.lt_succ_self line) hstart hnext
  · -- the first line starts at zero, so the offset belongs after it
    have hpos : 0 < next := by
      refine Nat.pos_of_ne_zero fun heq => ?_
      have := hgreater 0 0 (by omega) hzero
      omega
    have hlt : next - 1 < starts.length := by omega
    refine ⟨next - 1, starts[next - 1], ?_, List.getElem?_eq_getElem hlt, ?_, ?_⟩
    · rw [lineOf?, hmissing]
      exact minus?_eq_some hpos
    · exact Nat.le_of_lt (hsmaller (next - 1) _ (by omega) (List.getElem?_eq_getElem hlt))
    · intro start hstart
      exact hgreater (next - 1 + 1) start (by omega) hstart

end Bisect

/-! ## Line starts -/

/-- The offset after each line feed, when some characters have been passed before. -/
def lineStartsFrom (passed : Nat) : List Char → List Nat
  | [] => []
  | c :: rest =>
    if c = '\n' then (passed + 1) :: lineStartsFrom (passed + 1) rest
    else lineStartsFrom (passed + 1) rest

/-- The offset of the first character of each line. -/
def lineStarts (chars : List Char) : List Nat := 0 :: lineStartsFrom 0 chars

/-- Line starts ascend, from what has been passed on. -/
theorem pairwise_lineStartsFrom (passed : Nat) (chars : List Char) :
    (passed :: lineStartsFrom passed chars).Pairwise (· < ·) := by
  induction chars generalizing passed with
  | nil => exact List.pairwise_singleton _ _
  | cons c rest ih =>
    -- every later line starts after what has been passed
    have hrest := List.pairwise_cons.mp (ih (passed + 1))
    rw [lineStartsFrom]
    by_cases hfeed : c = '\n'
    · rw [if_pos hfeed]
      refine List.pairwise_cons.mpr ⟨?_, ih (passed + 1)⟩
      intro start hstart
      rcases List.mem_cons.mp hstart with rfl | hlater
      · exact Nat.lt_succ_self passed
      · have := hrest.1 start hlater
        omega
    · rw [if_neg hfeed]
      refine List.pairwise_cons.mpr ⟨?_, hrest.2⟩
      intro start hstart
      have := hrest.1 start hstart
      omega

/-- **The starts counted from line feeds** are the numbers of characters before the lines. -/
theorem lineStartsFrom_getElem? (passed : Nat) (chars : List Char) (row : Nat) :
    (passed :: lineStartsFrom passed chars)[row]? =
      (splitLines chars)[row]?.map fun _ => passed + ((splitLines chars).take row).flatten.length := by
  induction chars generalizing passed row with
  | nil => cases row <;> simp [lineStartsFrom, splitLines]
  | cons c rest ih =>
    have hrest := ih (passed + 1)
    rw [lineStartsFrom, splitLines]
    -- a line feed starts a line, anything else belongs to the first one of the rest
    by_cases hfeed : c = '\n'
    · rw [if_pos hfeed, if_pos hfeed]
      cases row with
      | zero => simp
      | succ row =>
        rw [List.getElem?_cons_succ, List.getElem?_cons_succ, hrest row]
        simp only [List.take_succ_cons, List.flatten_cons, List.length_append, List.length_singleton,
          Nat.add_assoc]
    · rw [if_neg hfeed, if_neg hfeed]
      obtain ⟨line, lines, hlines⟩ := List.exists_cons_of_ne_nil (splitLines_ne_nil rest)
      simp only [hlines] at hrest ⊢
      cases row with
      | zero => simp
      | succ row =>
        have hnext := hrest (row + 1)
        rw [List.getElem?_cons_succ, List.getElem?_cons_succ, List.take_succ_cons, List.flatten_cons,
          List.length_append] at hnext
        rw [List.getElem?_cons_succ, List.getElem?_cons_succ, hnext, List.take_succ_cons,
          List.flatten_cons, List.length_append, List.length_cons]
        congr 1
        funext _
        omega

namespace Index

/-- The offset of the first character of each line. -/
def starts (index : Index) : List Nat := lineStarts index.chars

/-- The line starts of a text are those of its lines. -/
theorem starts_getElem? (chars : List Char) (row : Nat) :
    (ofChars chars).starts[row]? = (ofChars chars).lines[row]?.map fun _ =>
      (ofChars chars).lineStart row := by
  have h := lineStartsFrom_getElem? 0 chars row
  simp only [Nat.zero_add] at h
  exact h

/-- A text has as many line starts as lines. -/
theorem length_starts (chars : List Char) :
    (ofChars chars).starts.length = (ofChars chars).lineCount := by
  -- both lists end at the same place
  have hends : ∀ row, (ofChars chars).starts.length ≤ row ↔ (ofChars chars).lineCount ≤ row := by
    intro row
    rw [← List.getElem?_eq_none_iff, starts_getElem?, Option.map_eq_none_iff,
      List.getElem?_eq_none_iff]
    rfl
  exact Nat.le_antisymm ((hends _).mpr (Nat.le_refl _)) ((hends _).mp (Nat.le_refl _))

/-- A line ends where the next one starts, or where the text does. -/
theorem Lined.lineStart_add {index : Index} (h : index.Lined) {row : Nat} {line : List Char}
    (hline : index.lines[row]? = some line) :
    (row + 1 < index.lineCount → index.lineStart row + line.length = index.lineStart (row + 1)) ∧
      (row + 1 = index.lineCount → index.lineStart row + line.length = index.length) := by
  have hnext : index.lineStart row + line.length = index.lineStart (row + 1) := by
    unfold lineStart
    rw [List.take_add_one, hline, Option.toList_some, List.flatten_append, List.length_append,
      List.flatten_singleton]
  refine ⟨fun _ => hnext, fun hlast => ?_⟩
  rw [hnext, lineStart, hlast, lineCount, List.take_length, h.flatten_eq, length]

/-! ## Checked answers -/

/-- The position of an offset, found through the line starts. -/
def positionAt? (index : Index) (offset : Nat) : Option Position := do
  let offset := min offset index.length
  let line ← lineOf? index.starts offset
  let start ← index.starts[line]?
  let column ← minus? offset start
  return ⟨line + 1, column + 1, .one⟩

/-- The position of an offset of the text, found through the line starts. -/
def toPosition? (index : Index) (offset : Nat) : Option (Except PositionError Position) :=
  if index.length < offset then some (.error (.offsetOutOfRange offset index.length))
  else (index.positionAt? offset).map .ok

/-- Whether a line of some length has a column; the place after the end is one on the last line. -/
def hasColumn (isLast : Bool) (column length : Nat) : Bool :=
  if isLast then column ≤ length else column < length

/-- The offset of a position, found through the line starts. -/
def toOffset? (index : Index) (p : Position) : Option (Except PositionError Nat) :=
  let zero := p.toZeroBased
  match index.starts[zero.line]? with
  | none => some (.error (.lineOutOfRange p.line index.starts.length))
  | some start => do
    let stop := index.starts[zero.line + 1]?.getD index.length
    let length ← minus? stop start
    if hasColumn (zero.line + 1 = index.starts.length) zero.column length then
      some (.ok (start + zero.column))
    else some (.error (.columnOutOfRange p.line p.column length))

/-- The line that is found for an offset has the column that is left. -/
theorem lineOf?_starts (chars : List Char) {offset : Nat} (hlength : offset ≤ (ofChars chars).length) :
    ∃ row line, lineOf? (ofChars chars).starts offset = some row ∧
      (ofChars chars).lines[row]? = some line ∧ (ofChars chars).lineStart row ≤ offset ∧
      (offset - (ofChars chars).lineStart row < line.length ∨
        (offset - (ofChars chars).lineStart row = line.length ∧
          row + 1 = (ofChars chars).lineCount)) := by
  have hlined := lined_ofChars chars
  obtain ⟨row, start, hrow, hstart, hle, hnext⟩ :=
    lineOf?_spec (pairwise_lineStartsFrom 0 chars) rfl offset
  have hget : (ofChars chars).starts[row]? = some start := hstart
  rw [starts_getElem?] at hget
  obtain ⟨line, hline, rfl⟩ := Option.map_eq_some_iff.mp hget
  -- the line found is one of the lines, and the offset is on it
  have hcount : row < (ofChars chars).lineCount := (List.getElem?_eq_some_iff.mp hline).1
  refine ⟨row, line, hrow, hline, hle, ?_⟩
  by_cases hlast : row + 1 = (ofChars chars).lineCount
  · have := (hlined.lineStart_add hline).2 hlast
    omega
  · -- another line follows, and starts after the offset
    have hmore : row + 1 < (ofChars chars).lineCount := by omega
    have hend := (hlined.lineStart_add hline).1 hmore
    have hget := starts_getElem? chars (row + 1)
    rw [List.getElem?_eq_getElem hmore, Option.map_some] at hget
    have := hnext _ hget
    omega

/-- **The position of an offset is found through the line starts**, without a step that fails. -/
theorem positionAt?_eq (chars : List Char) (offset : Nat) :
    (ofChars chars).positionAt? offset = some ((ofChars chars).positionAt offset) := by
  obtain ⟨row, line, hrow, hline, hle, hcolumn⟩ :=
    lineOf?_starts chars (Nat.min_le_right offset (ofChars chars).length)
  have hget := starts_getElem? chars row
  rw [hline, Option.map_some] at hget
  have hlocate := locate_lineStart hline hcolumn
  rw [show ((ofChars chars).lines.take row).flatten.length = (ofChars chars).lineStart row from rfl,
    Nat.add_sub_cancel' hle] at hlocate
  simp only [positionAt?, hrow, hget, Option.bind_eq_bind, Option.bind_some, minus?_eq_some hle]
  rw [positionAt, hlocate]
  rfl

/-- The search for a position finds `toPosition`, at any offset. -/
theorem toPosition?_eq (chars : List Char) (offset : Nat) :
    (ofChars chars).toPosition? offset = some ((ofChars chars).toPosition offset) := by
  rw [toPosition?, toPosition]
  by_cases hlt : (ofChars chars).length < offset
  · rw [if_pos hlt, if_neg (Nat.not_le.mpr hlt)]
  · rw [if_neg hlt, if_pos (Nat.le_of_not_lt hlt), positionAt?_eq, Option.map_some]

/-- **The offset of a position is found through the line starts**, without a step that fails. -/
theorem toOffset?_eq (chars : List Char) (p : Position) :
    (ofChars chars).toOffset? p = some ((ofChars chars).toOffset p) := by
  have hlined := lined_ofChars chars
  have hget := starts_getElem? chars p.toZeroBased.line
  unfold toOffset? toOffset
  cases hline : (ofChars chars).lines[p.toZeroBased.line]? with
  | none =>
    rw [hline, Option.map_none] at hget
    simp only [hget, hline, length_starts]
  | some line =>
    rw [hline, Option.map_some] at hget
    have hcount : p.toZeroBased.line < (ofChars chars).lineCount :=
      (List.getElem?_eq_some_iff.mp hline).1
    have hnext := starts_getElem? chars (p.toZeroBased.line + 1)
    -- where the line ends is where the next one starts, or the text ends
    have hstop : (ofChars chars).starts[p.toZeroBased.line + 1]?.getD (ofChars chars).length =
        (ofChars chars).lineStart p.toZeroBased.line + line.length := by
      by_cases hlast : p.toZeroBased.line + 1 = (ofChars chars).lineCount
      · have hnone : (ofChars chars).lines[p.toZeroBased.line + 1]? = none :=
          List.getElem?_eq_none (Nat.le_of_eq hlast.symm)
        rw [hnext, hnone, Option.map_none, Option.getD_none, (hlined.lineStart_add hline).2 hlast]
      · have hmore : p.toZeroBased.line + 1 < (ofChars chars).lineCount := by omega
        rw [hnext, List.getElem?_eq_getElem hmore, Option.map_some, Option.getD_some,
          (hlined.lineStart_add hline).1 hmore]
    simp only [hget, hline, hstop, minus?_eq_some (Nat.le_add_right _ _), Nat.add_sub_cancel_left,
      length_starts, Option.bind_eq_bind, Option.bind_some]
    have hcolumn : hasColumn (p.toZeroBased.line + 1 = (ofChars chars).lineCount)
        p.toZeroBased.column line.length = true ↔ p.toZeroBased.column < line.length ∨
          (p.toZeroBased.column = line.length ∧
            p.toZeroBased.line + 1 = (ofChars chars).lineCount) := by
      unfold hasColumn
      by_cases hlast : p.toZeroBased.line + 1 = (ofChars chars).lineCount
      · simp only [hlast, decide_true, if_true, decide_eq_true_eq, and_true]
        omega
      · simp [hlast]
    -- both ask the same of the column
    by_cases haddressable : p.toZeroBased.column < line.length ∨
        (p.toZeroBased.column = line.length ∧ p.toZeroBased.line + 1 = (ofChars chars).lineCount)
    · rw [if_pos (hcolumn.mpr haddressable), if_pos haddressable]
    · rw [if_neg (mt hcolumn.mp haddressable), if_neg haddressable]

end Index

/-! ## The bijection -/

/-- **Positions and offsets of a text are in bijection.** -/
structure Index.Bijection (index : Index) : Prop where
  /-- The offsets that have a position are those up to the length. -/
  toPosition_iff : ∀ offset, (∃ p, index.toPosition offset = .ok p) ↔ offset ≤ index.length
  /-- The position of an offset stands for that offset. -/
  toOffset_toPosition : ∀ offset p, index.toPosition offset = .ok p → index.toOffset p = .ok offset
  /-- The offset a position stands for is one of the text, and its position is the same place counted
  from one. -/
  toPosition_toOffset : ∀ p offset, index.toOffset p = .ok offset → offset ≤ index.length ∧
    index.toPosition offset = .ok ⟨p.toZeroBased.line + 1, p.toZeroBased.column + 1, .one⟩
  /-- That place can be counted from one, where the text is one that can be held. -/
  toOneBased_toZeroBased : index.length < Position.greatest → ∀ p offset,
    index.toOffset p = .ok offset → index.toPosition offset = p.toZeroBased.toOneBased
  /-- The positions that stand for an offset are those on a line, at one of its characters or, on the
  last line, after them. -/
  toOffset_iff : ∀ p, (∃ offset, index.toOffset p = .ok offset) ↔
    ∃ line, index.lines[p.toZeroBased.line]? = some line ∧
      if p.toZeroBased.line + 1 = index.lineCount then p.toZeroBased.column ≤ line.length
      else p.toZeroBased.column < line.length
  /-- No step of the search for a position fails. -/
  toPosition?_eq : ∀ offset, index.toPosition? offset = some (index.toPosition offset)
  /-- No step of the search for an offset fails. -/
  toOffset?_eq : ∀ p, index.toOffset? p = some (index.toOffset p)

namespace Index

variable {index : Index} {p : Position} {offset : Nat}

/-- An offset has a position if it is no greater than the length. -/
theorem toPosition_eq_ok_iff : index.toPosition offset = .ok p ↔
    offset ≤ index.length ∧ index.positionAt offset = p := by
  unfold toPosition
  by_cases hle : offset ≤ index.length
  · rw [if_pos hle]
    simp [hle]
  · rw [if_neg hle]
    simp [hle]

/-- A position stands for an offset if its line has its column. -/
theorem toOffset_eq_ok_iff : (∃ offset, index.toOffset p = .ok offset) ↔
    ∃ line, index.lines[p.toZeroBased.line]? = some line ∧
      if p.toZeroBased.line + 1 = index.lineCount then p.toZeroBased.column ≤ line.length
      else p.toZeroBased.column < line.length := by
  unfold toOffset
  cases hline : index.lines[p.toZeroBased.line]? with
  | none => simp [hline]
  | some line =>
    simp only [hline, Option.some.injEq, exists_eq_left']
    -- the last line has one place more, its end
    by_cases hlast : p.toZeroBased.line + 1 = index.lineCount
    · simp only [hlast, and_true, if_true]
      by_cases hle : p.toZeroBased.column ≤ line.length
      · rw [if_pos (by omega)]
        simp [hle]
      · rw [if_neg (by omega)]
        simp [hle]
    · simp only [hlast, and_false, or_false, if_false]
      by_cases hlt : p.toZeroBased.column < line.length
      · rw [if_pos hlt]
        simp [hlt]
      · rw [if_neg hlt]
        simp [hlt]

/-- The place of an offset is within the text, so that it can be counted from one in its range. -/
theorem Lined.toOneBased_toZeroBased (h : index.Lined) (hlength : index.length < Position.greatest)
    (hcount : index.lineCount ≤ index.length + 1) (hoffset : index.toOffset p = .ok offset) :
    p.toZeroBased.toOneBased =
      .ok ⟨p.toZeroBased.line + 1, p.toZeroBased.column + 1, .one⟩ := by
  obtain ⟨line, hline, hcolumn⟩ := toOffset_eq_ok_iff.mp ⟨offset, hoffset⟩
  have hrow : p.toZeroBased.line < index.lineCount := (List.getElem?_eq_some_iff.mp hline).1
  have hend := lineStart_add_le hline
  rw [h.flatten_eq] at hend
  -- both numbers are bounded by the length of the text
  have hle : p.toZeroBased.column ≤ line.length := by
    split at hcolumn
    · exact hcolumn
    · exact Nat.le_of_lt hcolumn
  have hbasis : p.toZeroBased.basis = .zero := by
    unfold Position.toZeroBased
    split
    · next hzero => exact hzero
    · rfl
  unfold length at hlength hcount
  rw [Position.toOneBased, hbasis]
  exact if_pos ⟨by omega, by omega⟩

end Index

/-- A text has at most one line more than characters. -/
theorem length_splitLines_le (chars : List Char) :
    (splitLines chars).length ≤ chars.length + 1 := by
  induction chars with
  | nil => exact Nat.le_refl _
  | cons c rest ih =>
    rw [splitLines]
    split
    · exact Nat.succ_le_succ ih
    · split
      · exact Nat.succ_le_succ (Nat.zero_le _)
      · next line lines hlines =>
        rw [hlines] at ih
        exact Nat.le_succ_of_le ih

/-- **Positions and offsets of a text are in bijection**, in either basis and up to the end of the last
line, and the search through the line starts never leaves its lists. -/
theorem Index.bijection_ofText (text : String) : (Index.ofText text).Bijection := by
  have hlined := Index.lined_ofText text
  refine ⟨fun offset => ?_, fun offset p hp => ?_, fun p offset hoffset => ?_,
    fun hlength p offset hoffset => ?_, fun p => Index.toOffset_eq_ok_iff,
    Index.toPosition?_eq text.toList, Index.toOffset?_eq text.toList⟩
  · constructor
    · rintro ⟨p, hp⟩
      exact (Index.toPosition_eq_ok_iff.mp hp).1
    · intro hle
      exact ⟨_, Index.toPosition_eq_ok_iff.mpr ⟨hle, rfl⟩⟩
  · obtain ⟨hle, rfl⟩ := Index.toPosition_eq_ok_iff.mp hp
    exact hlined.toOffset_positionAt hle
  · obtain ⟨hle, hposition⟩ := hlined.positionAt_of_toOffset hoffset
    exact ⟨hle, Index.toPosition_eq_ok_iff.mpr ⟨hle, hposition⟩⟩
  · obtain ⟨hle, hposition⟩ := hlined.positionAt_of_toOffset hoffset
    have hcount : (Index.ofText text).lineCount ≤ (Index.ofText text).length + 1 :=
      length_splitLines_le text.toList
    rw [hlined.toOneBased_toZeroBased hlength hcount hoffset]
    exact Index.toPosition_eq_ok_iff.mpr ⟨hle, hposition⟩

end ProjectLens
