import ProjectLens.Proofs.Offsets
import ProjectLens.Proofs.PositionOrder

/-! # Positions stand as offsets do

In a text offsets and positions come in the same order, and a closed range holds a position just when
the ends of its span are around the offset. So what is asked in lines and columns can be answered in
offsets.

* `Index.Lined.positionAt_le_iff`: positions are ordered as their offsets;
* `Index.Lined.contains_spanToRange_min`, `Index.Lined.contains_spanToRange`: the positions in the
  range of a span;
* `Index.Lined.positionAt_of_toOffset`: the offset a position stands for leads back to it. -/

namespace ProjectLens

namespace Index

variable {index : Index} {offset a b : Nat} {span other : Span} {p : Position}

/-! ## Order -/

/-- An offset past the end has the position of the end. -/
theorem positionAt_min (index : Index) (offset : Nat) :
    index.positionAt (min offset index.length) = index.positionAt offset := by
  rw [positionAt, positionAt, Nat.min_eq_left (Nat.min_le_right _ _)]

/-- The range of a span lies in that of another one if the span does. -/
theorem containsRange_spanToRange (horder : other.start ≤ other.stop) (hstart : span.start ≤ other.start)
    (hstop : other.stop ≤ span.stop) :
    (index.spanToRange span).containsRange (index.spanToRange other) = true := by
  rw [Range.containsRange_iff, spanToRange, spanToRange]
  refine ⟨index.positionAt_mono hstart, index.positionAt_mono ?_⟩
  omega

namespace Lined

variable (h : index.Lined)
include h

/-- Two offsets of a text have two positions. -/
theorem positionAt_inj (ha : a ≤ index.length) (hb : b ≤ index.length)
    (heq : index.positionAt a = index.positionAt b) : a = b := by
  have hoffset := h.toOffset_positionAt ha
  rw [heq, h.toOffset_positionAt hb] at hoffset
  cases hoffset
  rfl

/-- **Positions are ordered as their offsets.** -/
theorem positionAt_le_iff (ha : a ≤ index.length) (hb : b ≤ index.length) :
    index.positionAt a ≤ index.positionAt b ↔ a ≤ b := by
  constructor
  · intro hle
    rcases Nat.le_total a b with hab | hba
    · exact hab
    · -- positions that stand both ways round are the same
      have hge := index.positionAt_mono hba
      have heq : index.positionAt a = index.positionAt b := by grind
      exact Nat.le_of_eq (h.positionAt_inj ha hb heq)
  · exact index.positionAt_mono

/-- Later offsets have later positions. -/
theorem positionAt_lt (hlt : a < b) (hb : b ≤ index.length) :
    index.positionAt a < index.positionAt b := by
  rw [Position.lt_iff_not_le, h.positionAt_le_iff hb (by omega)]
  omega

/-- **The positions in the range of any span**, whose ends are taken for that of the text where they
are after it, and whose end is taken for its start where it is before that. -/
theorem contains_spanToRange_min (hoffset : offset ≤ index.length) :
    (index.spanToRange span).contains (index.positionAt offset) = true ↔
      min span.start index.length ≤ offset ∧
        offset ≤ min (max span.start span.stop) index.length := by
  rw [Range.contains_iff, spanToRange, ← index.positionAt_min span.start,
    ← index.positionAt_min (max span.start span.stop)]
  rw [h.positionAt_le_iff (Nat.min_le_right _ _) hoffset,
    h.positionAt_le_iff hoffset (Nat.min_le_right _ _)]

/-- **The positions in the range of a span** are those of the offsets from its start to its end, both
included. -/
theorem contains_spanToRange (horder : span.start ≤ span.stop) (hstop : span.stop ≤ index.length)
    (hoffset : offset ≤ index.length) :
    (index.spanToRange span).contains (index.positionAt offset) = true ↔
      span.start ≤ offset ∧ offset ≤ span.stop := by
  rw [h.contains_spanToRange_min hoffset, Nat.max_eq_right horder, Nat.min_eq_left hstop,
    Nat.min_eq_left (Nat.le_trans horder hstop)]

end Lined

/-! ## From positions to offsets -/

/-- Before a line stand fewer characters than in the text up to its end. -/
theorem lineStart_add_le {lines : List (List Char)} {row : Nat} {line : List Char}
    (hline : lines[row]? = some line) :
    (lines.take row).flatten.length + line.length ≤ lines.flatten.length := by
  obtain ⟨hrow, rfl⟩ := List.getElem?_eq_some_iff.mp hline
  have hsplit := congrArg (fun lines => lines.flatten.length) (List.take_append_drop (row + 1) lines)
  rw [List.take_add_one, hline] at hsplit
  simp only [List.flatten_append, List.length_append, Option.toList_some, List.flatten_singleton]
    at hsplit
  omega

/-- **A line and a column lead to themselves**, where the line has that column. -/
theorem locate_lineStart {lines : List (List Char)} {row column : Nat} {line : List Char}
    (hline : lines[row]? = some line)
    (hcolumn : column < line.length ∨ (column = line.length ∧ row + 1 = lines.length)) :
    locate lines ((lines.take row).flatten.length + column) = (row, column) := by
  induction lines generalizing row with
  | nil => cases hline
  | cons first rest ih =>
    cases rest with
    | nil =>
      obtain rfl : row = 0 := by
        have := (List.getElem?_eq_some_iff.mp hline).1
        rw [List.length_singleton] at this
        omega
      simp [locate]
    | cons next more =>
      cases row with
      | zero =>
        obtain rfl : first = line := by simpa using hline
        -- more lines follow, so the column is one of the line's characters
        have hlt : column < first.length := by
          rcases hcolumn with hlt | ⟨-, hlast⟩
          · exact hlt
          · simp at hlast
        rw [List.take_zero, List.flatten_nil, List.length_nil, Nat.zero_add, locate, if_pos hlt]
      | succ row =>
        have hcolumn' : column < line.length ∨
            (column = line.length ∧ row + 1 = (next :: more).length) := by
          rcases hcolumn with hlt | ⟨heq, hlast⟩
          · exact .inl hlt
          · exact .inr ⟨heq, Nat.succ.inj hlast⟩
        rw [List.getElem?_cons_succ] at hline
        have hrest := ih hline hcolumn'
        have hskip : ((first :: next :: more).take (row + 1)).flatten.length + column =
            first.length + (((next :: more).take row).flatten.length + column) := by
          rw [List.take_succ_cons, List.flatten_cons, List.length_append, Nat.add_assoc]
        rw [hskip, locate, if_neg (by omega), Nat.add_sub_cancel_left, hrest]

/-- An offset is that of a place, in either basis. -/
theorem toOffset_congr {q : Position} (hplace : p.toZeroBased = q.toZeroBased)
    (hoffset : index.toOffset p = .ok offset) : index.toOffset q = .ok offset := by
  unfold toOffset at hoffset ⊢
  simp only [← hplace] at hoffset ⊢
  split at hoffset
  · cases hoffset
  · split at hoffset
    · next hcolumn =>
      rw [if_pos hcolumn]
      exact hoffset
    · cases hoffset

namespace Lined

variable (h : index.Lined)
include h

/-- **The offset a position stands for** is one of the text, and its position has that line and that
column. -/
theorem positionAt_of_toOffset (hoffset : index.toOffset p = .ok offset) :
    offset ≤ index.length ∧ index.positionAt offset =
      ⟨p.toZeroBased.line + 1, p.toZeroBased.column + 1, .one⟩ := by
  unfold toOffset at hoffset
  simp only at hoffset
  split at hoffset
  · cases hoffset
  · next line hline =>
    split at hoffset
    · next hcolumn =>
      cases hoffset
      have hlength : index.lines.flatten.length = index.length := by rw [h.flatten_eq]; rfl
      have hend := lineStart_add_le hline
      have hle : index.lineStart p.toZeroBased.line + p.toZeroBased.column ≤ index.length := by
        unfold lineStart
        omega
      refine ⟨hle, ?_⟩
      rw [positionAt, Nat.min_eq_left hle, lineStart, locate_lineStart hline hcolumn]
    · cases hoffset

end Lined

end Index

namespace Position

variable {p q : Position}

/-- A position that was counted anew is counted from one. -/
theorem toOneBased_idem (h : p.toOneBased = .ok q) : q.toOneBased = .ok q := by
  unfold toOneBased at h
  split at h
  · next hbasis =>
    cases h
    rw [toOneBased, hbasis]
  · split at h
    · cases h
      rfl
    · cases h

/-- Counting anew keeps the place. -/
theorem toZeroBased_toOneBased (h : p.toOneBased = .ok q) : q.toZeroBased = p.toZeroBased := by
  unfold toOneBased at h
  split at h
  · cases h
    rfl
  · next hbasis =>
    split at h
    · cases h
      simp only [toZeroBased, hbasis, Nat.add_sub_cancel]
      cases p
      cases hbasis
      rfl
    · cases h

/-- A position that is no less than its basis allows is its own place, counted from one. -/
theorem eq_of_toOneBased (h : p.toOneBased = .ok q) (hline : p.basis.least ≤ p.line)
    (hcolumn : p.basis.least ≤ p.column) :
    q = ⟨p.toZeroBased.line + 1, p.toZeroBased.column + 1, .one⟩ := by
  obtain ⟨line, column, basis⟩ := p
  cases basis with
  | zero =>
    unfold toOneBased at h
    split at h
    · next hbasis => cases hbasis
    · split at h
      · cases h
        rfl
      · cases h
  | one =>
    cases h
    simp only [Basis.least] at hline hcolumn
    simp only [toZeroBased, Nat.sub_add_cancel hline, Nat.sub_add_cancel hcolumn]

end Position

end ProjectLens
