import ProjectLens.Text.Range

/-! # The order of positions and of ranges

Positions are ordered linearly: by line, then column, then basis. Ranges are compared by start, then
end.

* `Position` as a linear order, `Position.lt_iff_not_le`;
* `Position.order_ne_gt`, `Range.order_ne_gt`: comparisons in terms of the order;
* `Range.contains_iff`, `Range.containsRange_iff`. -/

namespace ProjectLens

namespace Position

variable {a b c : Position}

/-- Positions are ordered by line, then by column, then by basis. -/
theorem le_iff : a ≤ b ↔ a.line < b.line ∨ (a.line = b.line ∧
    (a.column < b.column ∨ (a.column = b.column ∧ a.basis.least ≤ b.basis.least))) :=
  Iff.rfl

/-- A basis is known by its least number. -/
theorem basis_eq_of_least_eq {x y : Basis} (h : x.least = y.least) : x = y := by
  cases x <;> cases y <;> first | rfl | cases h

/-- **Positions are ordered linearly.** -/
instance : Std.IsLinearOrder Position where
  le_refl a := by
    rw [le_iff]
    omega
  le_trans a b c := by
    rw [le_iff, le_iff, le_iff]
    omega
  le_antisymm a b := by
    rw [le_iff, le_iff]
    intro hab hba
    obtain ⟨line, column, basis⟩ := a
    obtain ⟨line', column', basis'⟩ := b
    simp only at hab hba
    have hbasis : basis = basis' := basis_eq_of_least_eq (by omega)
    have hline : line = line' := by omega
    have hcolumn : column = column' := by omega
    rw [hline, hcolumn, hbasis]
  le_total a b := by
    rw [le_iff, le_iff]
    omega

/-- `a < b ↔ ¬ b ≤ a`. -/
theorem lt_iff_not_le : a < b ↔ ¬ b ≤ a := Iff.rfl

instance : Std.LawfulOrderLT Position where
  lt_iff a b := by
    rw [lt_iff_not_le]
    have := Std.IsLinearPreorder.le_total a b
    grind

/-- A position that does not compare as greater is not after the other one. -/
theorem order_ne_gt : a.order b ≠ .gt ↔ a ≤ b := by
  unfold order
  split
  · grind
  split
  · grind
  · grind

end Position

namespace Range

variable {a b : Range} {p : Position}

/-- `a.contains p = true ↔ a.start ≤ p ∧ p ≤ a.stop`. -/
theorem contains_iff : a.contains p = true ↔ a.start ≤ p ∧ p ≤ a.stop := by
  simp [contains]

/-- `a.containsRange b = true ↔ a.start ≤ b.start ∧ b.stop ≤ a.stop`. -/
theorem containsRange_iff : a.containsRange b = true ↔ a.start ≤ b.start ∧ b.stop ≤ a.stop := by
  simp [containsRange]

/-- A range that is not after another one starts earlier, or with it and ends no later. -/
theorem order_ne_gt : a.order b ≠ .gt ↔
    a.start < b.start ∨ (a.start = b.start ∧ a.stop ≤ b.stop) := by
  unfold order
  by_cases hlt : a.start < b.start
  · simp [Position.order, hlt, Ordering.then]
  by_cases heq : a.start = b.start
  · have hstart : a.start.order b.start = .eq := by rw [Position.order, if_neg hlt, if_pos heq]
    have hstop := Position.order_ne_gt (a := a.stop) (b := b.stop)
    simp only [hstart, Ordering.then]
    grind
  · have hstart : a.start.order b.start = .gt := by rw [Position.order, if_neg hlt, if_neg heq]
    simp [hstart, Ordering.then, hlt, heq]

end Range

end ProjectLens
