import ProjectLens.Proofs.LineSearch

/-! # Ranges hold what their spans hold

A span counts characters, and the range it is turned into is compared by lines and columns. The two
agree: positions come in the order of offsets, across the ends of lines too, and the range of a span
holds the positions of the offsets between the ends of the span, wherever these ends are.

* `Index.spanToRange?_eq`: turning a span into a range passes the check on the order of its ends;
* `Index.corresponds_ofText`: spans and ranges of a text correspond. -/

namespace ProjectLens

namespace Index

/-- The range of a span with every step checked: both ends are found through the line starts, and must
not be the wrong way round. -/
def spanToRange? (index : Index) (span : Span) : Option (Except PositionError Range) := do
  let start ← index.positionAt? span.start
  let stop ← index.positionAt? (max span.stop span.start)
  return Range.ofEnds start stop

/-- **No span has a range that is the wrong way round**, and none takes the search out of its lists. -/
theorem spanToRange?_eq (chars : List Char) (span : Span) :
    (ofChars chars).spanToRange? span = some (.ok ((ofChars chars).spanToRange span)) := by
  simp only [spanToRange?, positionAt?_eq, Nat.max_comm span.stop, Option.bind_eq_bind,
    Option.bind_some, Option.pure_def]
  rw [ofEnds_positionAt]

/-- **Spans and ranges of a text correspond.** -/
structure Corresponds (index : Index) (size : Nat) : Prop where
  /-- Every offset up to the end of the text has a position, and later offsets have later ones. -/
  toPosition_lt : ∀ a b, a < b → b ≤ size →
    ∃ p q, index.toPosition a = .ok p ∧ index.toPosition b = .ok q ∧ p < q
  /-- Positions are ordered as their offsets. -/
  toPosition_le_iff : ∀ a b p q, index.toPosition a = .ok p → index.toPosition b = .ok q →
    (p ≤ q ↔ a ≤ b)
  /-- The ends of a span make a range, whether or not the span is in the text and the right way
  round. -/
  spanToRange? : ∀ span, index.spanToRange? span = some (.ok (index.spanToRange span))
  /-- The range of a span holds the positions of the offsets between its ends, both included. -/
  contains_iff : ∀ (span : Span) (offset : Nat), offset ≤ size →
    ∃ p, index.toPosition offset = .ok p ∧ ((index.spanToRange span).contains p = true ↔
      min span.start size ≤ offset ∧ offset ≤ min (max span.start span.stop) size)

/-- **Spans and ranges correspond in every text.** -/
theorem corresponds_ofText (text : String) : (ofText text).Corresponds text.length := by
  have lined := lined_ofText text
  have hsize : text.length = (ofText text).length := String.length_toList.symm
  rw [hsize]
  constructor
  case toPosition_lt =>
    intro a b hlt hb
    have ha : a ≤ (ofText text).length := Nat.le_trans (Nat.le_of_lt hlt) hb
    exact ⟨_, _, toPosition_eq_ok_iff.mpr ⟨ha, rfl⟩, toPosition_eq_ok_iff.mpr ⟨hb, rfl⟩,
      lined.positionAt_lt hlt hb⟩
  case toPosition_le_iff =>
    intro a b p q hp hq
    obtain ⟨ha, rfl⟩ := toPosition_eq_ok_iff.mp hp
    obtain ⟨hb, rfl⟩ := toPosition_eq_ok_iff.mp hq
    exact lined.positionAt_le_iff ha hb
  case spanToRange? => exact spanToRange?_eq text.toList
  case contains_iff =>
    intro span offset hoffset
    exact ⟨_, toPosition_eq_ok_iff.mpr ⟨hoffset, rfl⟩, lined.contains_spanToRange_min hoffset⟩

end Index

end ProjectLens
