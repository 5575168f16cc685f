import ProjectLens.Proofs.PositionOrder

/-! # Positions in either basis

A change of basis keeps both numbers of a position as far from the least one as they were. So it keeps
the order of positions, and changing back gives the position again.

* `Position.WellFormed`: both numbers are ones of the basis; `Position.Recountable`: the position can be
  counted from one;
* `Position.Recounted`: what a change of basis does, from `Position.WellFormed.recounted` and
  `Position.Recounted.toBasis`;
* `Position.Recounted.le_iff`, `Position.Recounted.back`. -/

namespace ProjectLens

namespace Position

variable {p q : Position} {basis : Basis}

/-! ## Counting from one -/

/-- **The position can be counted from one**: it already is, or there is a next number to both of its
own. -/
def Recountable (p : Position) : Prop := p.basis = .zero → p.line < greatest ∧ p.column < greatest

/-- `p.Recountable → ∃ q, p.toOneBased = .ok q`. -/
theorem Recountable.exists_toOneBased (h : p.Recountable) : ∃ q, p.toOneBased = .ok q := by
  rw [toOneBased]
  cases hbasis : p.basis with
  | one => exact ⟨p, rfl⟩
  | zero => exact ⟨_, if_pos (h hbasis)⟩

/-- `¬ p.Recountable → p.toOneBased = .error .overflow`. -/
theorem toOneBased_of_not_recountable (h : ¬ p.Recountable) : p.toOneBased = .error .overflow := by
  rw [Recountable, Classical.not_imp] at h
  obtain ⟨hbasis, hnumbers⟩ := h
  rw [toOneBased, hbasis]
  exact if_neg hnumbers

/-- Both ways to count mean the same place. -/
theorem toZeroBased_of_toOneBased (h : p.toOneBased = .ok q) : q.toZeroBased = p.toZeroBased := by
  obtain ⟨line, column, basis⟩ := p
  cases basis with
  | one =>
    cases h
    rfl
  | zero =>
    rw [toOneBased] at h
    dsimp only at h
    split at h
    · cases h
      rfl
    · cases h

/-! ## Numbers of a basis -/

/-- **Both numbers are ones of the basis**: they lie between its least number and the greatest one. -/
structure WellFormed (p : Position) : Prop where
  /-- The line is one of the basis. -/
  line : p.basis.least ≤ p.line ∧ p.line ≤ greatest
  /-- The column is one of the basis. -/
  column : p.basis.least ≤ p.column ∧ p.column ≤ greatest

instance (p : Position) : Decidable p.WellFormed :=
  decidable_of_iff ((p.basis.least ≤ p.line ∧ p.line ≤ greatest) ∧
    (p.basis.least ≤ p.column ∧ p.column ≤ greatest))
    ⟨fun h => ⟨h.1, h.2⟩, fun h => ⟨h.line, h.column⟩⟩

/-- A shift ends at a number of the basis. -/
theorem shift_bounds {floor value : Nat} (hfloor : floor ≤ greatest) (hvalue : value ≤ greatest)
    (delta : Int) : floor ≤ shift floor value delta ∧ shift floor value delta ≤ greatest := by
  rw [shift]
  split <;> omega

/-- `basis.least ≤ greatest`. -/
theorem least_le_greatest (basis : Basis) : basis.least ≤ greatest := by
  cases basis <;> decide

/-- Moving a position keeps its numbers in the basis. -/
theorem WellFormed.moveBy (h : p.WellFormed) (lines columns : Int) :
    (p.moveBy lines columns).WellFormed :=
  ⟨shift_bounds (least_le_greatest _) h.line.2 lines,
    shift_bounds (least_le_greatest _) h.column.2 columns⟩

/-! ## Changing the basis -/

/-- **A position recounted**: both numbers are as far from the least one as they were. -/
structure Recounted (p : Position) (basis : Basis) (q : Position) : Prop where
  /-- The line is the same one. -/
  line : q.line + p.basis.least = p.line + basis.least
  /-- The column is the same one. -/
  column : q.column + p.basis.least = p.column + basis.least
  /-- The position has the basis that was asked for. -/
  basis_eq : q.basis = basis
  /-- Both numbers are ones of that basis. -/
  wellFormed : q.WellFormed

/-- Recounting goes both ways. -/
theorem Recounted.symm (hq : p.Recounted basis q) (h : p.WellFormed) : q.Recounted p.basis p := by
  refine ⟨?_, ?_, rfl, h⟩
  · rw [hq.basis_eq]
    exact hq.line.symm
  · rw [hq.basis_eq]
    exact hq.column.symm

/-- A change of basis recounts. -/
theorem WellFormed.recounted (h : p.WellFormed) (hq : p.toBasis basis = .ok q) :
    p.Recounted basis q := by
  obtain ⟨line, column, old⟩ := p
  obtain ⟨hline, hcolumn⟩ := h
  -- counting from one is counting from zero plus one
  cases old <;> cases basis
  case zero.zero =>
    cases hq
    exact ⟨rfl, rfl, rfl, hline, hcolumn⟩
  case one.one =>
    cases hq
    exact ⟨rfl, rfl, rfl, hline, hcolumn⟩
  case one.zero =>
    cases hq
    have hless : ∀ n, n ≤ greatest → n - 1 ≤ greatest := fun n => Nat.le_trans (Nat.sub_le n 1)
    exact ⟨Nat.sub_add_cancel hline.1, Nat.sub_add_cancel hcolumn.1, rfl,
      ⟨Nat.zero_le _, hless line hline.2⟩, ⟨Nat.zero_le _, hless column hcolumn.2⟩⟩
  case zero.one =>
    simp only [toBasis, toOneBased] at hq
    split at hq
    · next hlt =>
      cases hq
      exact ⟨rfl, rfl, rfl, ⟨Nat.le_add_left 1 line, hlt.1⟩, ⟨Nat.le_add_left 1 column, hlt.2⟩⟩
    · cases hq

/-- A change of basis finds the position recounted. -/
theorem Recounted.toBasis (hq : p.Recounted basis q) : p.toBasis basis = .ok q := by
  obtain ⟨line, column, old⟩ := p
  obtain ⟨line', column', new⟩ := q
  obtain ⟨hline, hcolumn, rfl, hnumbers⟩ := hq
  cases old <;> cases new
  case zero.zero =>
    cases hline
    cases hcolumn
    rfl
  case one.one =>
    cases Nat.add_right_cancel hline
    cases Nat.add_right_cancel hcolumn
    rfl
  case one.zero =>
    cases hline
    cases hcolumn
    rfl
  case zero.one =>
    cases hline
    cases hcolumn
    exact if_pos ⟨hnumbers.line.2, hnumbers.column.2⟩

/-- **Counting there and back gives the position again.** -/
theorem Recounted.back (hq : p.Recounted basis q) (h : p.WellFormed) : q.toBasis p.basis = .ok p :=
  (hq.symm h).toBasis

/-- **Recounting keeps the order of positions of one basis.** -/
theorem Recounted.le_iff {p' q' : Position} (hp : p.Recounted basis p') (hq : q.Recounted basis q')
    (hsame : p.basis = q.basis) : p' ≤ q' ↔ p ≤ q := by
  have hpline := hp.line
  have hpcolumn := hp.column
  have hqline := hq.line
  have hqcolumn := hq.column
  rw [Position.le_iff, Position.le_iff, hp.basis_eq, hq.basis_eq, hsame]
  rw [hsame] at hpline hpcolumn
  omega

/-- Counting from the other number keeps the order: `p' < q' ↔ p < q`. -/
theorem Recounted.lt_iff {p' q' : Position} (hp : p.Recounted basis p') (hq : q.Recounted basis q')
    (hsame : p.basis = q.basis) : p' < q' ↔ p < q := by
  rw [lt_iff_not_le, lt_iff_not_le, hq.le_iff hp hsame.symm]

end Position

end ProjectLens
