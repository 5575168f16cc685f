import ProjectLens.Proofs.Bases

/-! # Ranges that are changed

A range is well formed when both of its ends have one basis and numbers of that basis, and it does not
end before it starts. Whatever is done to such a range, with positions of its basis, it stays well
formed or the change fails: a change of the ends checks their order again, and a change of basis need
not. What lies in a range does not depend on the basis either.

* `Range.Change`, `Range.Change.apply`, `Range.applyAll`: changes and rows of changes;
* `Range.WellFormed`; `Range.Change.Refused`: why a change fails;
* `Range.WellFormed.apply`: what one change does, and `Range.WellFormed.ends_applyAll`: what a row does;
* `Range.toBasis`, `Range.SameAnswers`: the same questions in the other basis;
* `Range.wellFormed_and_basisFree`. -/

namespace ProjectLens

namespace Range

/-- **A range of one basis that is the right way round.** -/
structure WellFormed (r : Range) : Prop where
  /-- The numbers of the first position are ones of its basis. -/
  start : r.start.WellFormed
  /-- The numbers of the last position are ones of its basis. -/
  stop : r.stop.WellFormed
  /-- Both positions have one basis. -/
  basis : r.start.basis = r.stop.basis
  /-- The range does not end before it starts. -/
  le : r.start ≤ r.stop

variable {r q r' q' : Range} {p p' : Position} {basis : Basis}

/-! ## Changes -/

/-- What can be done to a range. -/
inductive Change where
  /-- Another first position. -/
  | withStart (start : Position)
  /-- Another last position. -/
  | withStop (stop : Position)
  /-- Both positions moved by signed amounts. -/
  | transform (startLines startColumns stopLines stopColumns : Int)
  /-- The range counted from one. -/
  | toOneBased
  /-- The range counted from zero. -/
  | toZeroBased
  deriving DecidableEq, Repr

namespace Change

/-- The range after a change. -/
def apply (r : Range) : Change → Except PositionError Range
  | .withStart start => r.withStart start
  | .withStop stop => r.withStop stop
  | .transform startLines startColumns stopLines stopColumns =>
    r.transform startLines startColumns stopLines stopColumns
  | .toOneBased => r.toOneBased
  | .toZeroBased => .ok r.toZeroBased

/-- The ends that a change asks for, if it is not one of basis. -/
def ends? (r : Range) : Change → Option (Position × Position)
  | .withStart start => some (start, r.stop)
  | .withStop stop => some (r.start, stop)
  | .transform startLines startColumns stopLines stopColumns =>
    some (r.start.moveBy startLines startColumns, r.stop.moveBy stopLines stopColumns)
  | .toOneBased => none
  | .toZeroBased => none

/-- The basis of a range after a change. -/
def basisAfter (basis : Basis) : Change → Basis
  | .toOneBased => .one
  | .toZeroBased => .zero
  | _ => basis

/-- **The positions that a change names** are well formed and of a basis. -/
def Names (basis : Basis) : Change → Prop
  | .withStart p => p.WellFormed ∧ p.basis = basis
  | .withStop p => p.WellFormed ∧ p.basis = basis
  | _ => True

/-- **Why a change of a range fails.** -/
inductive Refused (r : Range) : Change → PositionError → Prop
  /-- The range would end before it starts. -/
  | inverted {change : Change} {start stop : Position} (ends : change.ends? r = some (start, stop))
    (hlt : stop < start) : Refused r change (.invertedRange start stop)
  /-- One of the numbers has no next one. -/
  | overflow (h : ¬ (r.start.Recountable ∧ r.stop.Recountable)) : Refused r .toOneBased .overflow

end Change

/-- The range after a row of changes, each made to what the one before it gives. -/
def applyAll (r : Range) (changes : List Change) : Except PositionError Range :=
  changes.foldlM Change.apply r

/-- The positions that a row of changes names are well formed, and each is of the basis that the range
has by then. -/
def NamesAll (basis : Basis) : List Change → Prop
  | [] => True
  | change :: changes => change.Names basis ∧ NamesAll (change.basisAfter basis) changes

/-- **How a row of changes of a well-formed range ends**: with a well-formed range, or at a change of a
well-formed range that fails for a reason. -/
inductive Ends (r : Range) (changes : List Change) : Prop
  /-- All changes are made. -/
  | made (last : Range) (run : r.applyAll changes = .ok last) (wellFormed : last.WellFormed)
  /-- The changes before `change` are made, and that one is refused. -/
  | refused (before : List Change) (change : Change) (after : List Change) (last : Range)
    (error : PositionError) (row : changes = before ++ change :: after)
    (run : r.applyAll before = .ok last) (wellFormed : last.WellFormed)
    (fails : change.apply last = .error error) (reason : change.Refused last error)
    (ends : r.applyAll changes = .error error)

/-! ## What changes keep -/

/-- A change of the ends is refused when they are the wrong way round. -/
theorem apply_of_ends? {change : Change} {start stop : Position}
    (h : change.ends? r = some (start, stop)) : change.apply r = ofEnds start stop := by
  cases change <;> cases h <;> rfl

/-- The ends that a change asks for are well formed and keep the basis. -/
theorem WellFormed.ends {change : Change} {start stop : Position} (h : r.WellFormed)
    (names : change.Names r.start.basis) (hends : change.ends? r = some (start, stop)) :
    start.WellFormed ∧ stop.WellFormed ∧ start.basis = r.start.basis ∧
      stop.basis = r.start.basis ∧ change.basisAfter r.start.basis = r.start.basis := by
  cases change with
  | withStart p =>
    cases hends
    exact ⟨names.1, h.stop, names.2, h.basis.symm, rfl⟩
  | withStop p =>
    cases hends
    exact ⟨h.start, names.1, rfl, names.2, rfl⟩
  | transform =>
    cases hends
    exact ⟨h.start.moveBy _ _, h.stop.moveBy _ _, rfl, h.basis.symm, rfl⟩
  | toOneBased => cases hends
  | toZeroBased => cases hends

/-- The range counted from a basis. -/
def toBasis (r : Range) : Basis → Except PositionError Range
  | .zero => .ok r.toZeroBased
  | .one => r.toOneBased

/-- A range is recounted at both of its ends. -/
theorem toBasis_eq_ok_iff : r.toBasis basis = .ok r' ↔
    r.start.toBasis basis = .ok r'.start ∧ r.stop.toBasis basis = .ok r'.stop := by
  obtain ⟨start, stop⟩ := r'
  cases basis with
  | zero => simp [toBasis, toZeroBased, Position.toBasis]
  | one =>
    simp only [toBasis, toOneBased, Position.toBasis]
    cases r.start.toOneBased with
    | error e => simp [bind, Except.bind]
    | ok a =>
      cases r.stop.toOneBased with
      | error e => simp [bind, Except.bind]
      | ok b => simp [bind, Except.bind, pure, Except.pure]

/-- **A change of basis keeps a range well formed**: it moves both ends alike. -/
theorem WellFormed.toBasis (h : r.WellFormed) (hr : r.toBasis basis = .ok r') :
    r'.WellFormed ∧ r'.start.basis = basis := by
  obtain ⟨hstart, hstop⟩ := toBasis_eq_ok_iff.mp hr
  have start := h.start.recounted hstart
  have stop := h.stop.recounted hstop
  have hsame : r'.start.basis = r'.stop.basis := start.basis_eq.trans stop.basis_eq.symm
  exact ⟨⟨start.wellFormed, stop.wellFormed, hsame, (start.le_iff stop h.basis).mpr h.le⟩,
    start.basis_eq⟩

/-- A range can be counted from one when both of its ends can. -/
theorem toOneBased_eq (r : Range) : (∃ r', r.toOneBased = .ok r') ∨
    r.toOneBased = .error .overflow ∧ ¬ (r.start.Recountable ∧ r.stop.Recountable) := by
  by_cases hstart : r.start.Recountable
  · obtain ⟨start, hstart'⟩ := hstart.exists_toOneBased
    by_cases hstop : r.stop.Recountable
    · obtain ⟨stop, hstop'⟩ := hstop.exists_toOneBased
      have hr : r.toBasis .one = .ok ⟨start, stop⟩ := toBasis_eq_ok_iff.mpr ⟨hstart', hstop'⟩
      exact Or.inl ⟨_, hr⟩
    · refine Or.inr ⟨?_, fun h => hstop h.2⟩
      rw [toOneBased, hstart', Position.toOneBased_of_not_recountable hstop]
      rfl
  · refine Or.inr ⟨?_, fun h => hstart h.1⟩
    rw [toOneBased, Position.toOneBased_of_not_recountable hstart]
    rfl

/-- **One change of a well-formed range** gives a well-formed range of the basis that it should have,
or fails for a reason. -/
theorem WellFormed.apply {change : Change} (h : r.WellFormed) (names : change.Names r.start.basis) :
    (∃ r', change.apply r = .ok r' ∧ r'.WellFormed ∧
        r'.start.basis = change.basisAfter r.start.basis) ∨
      ∃ error, change.apply r = .error error ∧ change.Refused r error := by
  -- a change names new ends, which may be the wrong way round, or counts anew
  cases hends : change.ends? r with
  | some ends =>
    obtain ⟨start, stop⟩ := ends
    obtain ⟨hstart, hstop, hbasis, hbasis', hafter⟩ := h.ends names hends
    rw [apply_of_ends? hends, ofEnds]
    by_cases hle : start ≤ stop
    · refine Or.inl ⟨⟨start, stop⟩, if_pos hle, ⟨hstart, hstop, ?_, hle⟩, ?_⟩
      · exact hbasis.trans hbasis'.symm
      · rw [hafter, hbasis]
    · exact Or.inr ⟨_, if_neg hle, .inverted hends hle⟩
  | none =>
    cases change with
    | toZeroBased =>
      have hr : r.toBasis .zero = .ok r.toZeroBased := rfl
      exact Or.inl ⟨_, rfl, (h.toBasis hr).1, (h.toBasis hr).2⟩
    | toOneBased =>
      rcases toOneBased_eq r with ⟨r', hr⟩ | ⟨hr, hnot⟩
      · have hr' : r.toBasis .one = .ok r' := hr
        exact Or.inl ⟨r', hr, (h.toBasis hr').1, (h.toBasis hr').2⟩
      · exact Or.inr ⟨_, hr, .overflow hnot⟩
    | withStart => cases hends
    | withStop => cases hends
    | transform => cases hends

/-- **A row of changes keeps a range well formed**, as far as it gets. -/
theorem WellFormed.ends_applyAll {changes : List Change} (h : r.WellFormed)
    (names : NamesAll r.start.basis changes) : r.Ends changes := by
  induction changes generalizing r with
  | nil => exact .made r rfl h
  | cons change changes ih =>
    obtain ⟨hnames, later⟩ := names
    -- the first change is made or refused, and being refused ends the row
    rcases h.apply hnames with ⟨next, happly, hnext, hbasis⟩ | ⟨error, happly, reason⟩
    · -- the rest of the row is made to what this change gives
      have step : ∀ row, r.applyAll (change :: row) = next.applyAll row := by
        intro row
        rw [applyAll, List.foldlM_cons, happly]
        rfl
      rw [← hbasis] at later
      cases ih hnext later with
      | made last run wellFormed => exact .made last ((step _).trans run) wellFormed
      | refused before change' after last error row run wellFormed fails reason ends =>
        rw [row] at ends ⊢
        exact .refused (change :: before) change' after last error rfl ((step _).trans run)
          wellFormed fails reason ((step _).trans ends)
    · refine .refused [] change changes r error rfl rfl h happly reason ?_
      rw [applyAll, List.foldlM_cons, happly]
      rfl

/-! ## The same questions in the other basis -/

/-- **What is asked about a range has the same answers** about another one. -/
structure SameAnswers (r q : Range) (p : Position) (r' q' : Range) (p' : Position) : Prop where
  /-- The same position lies in the range. -/
  contains : r'.contains p' = r.contains p
  /-- The same range lies in the range. -/
  containsRange : r'.containsRange q' = r.containsRange q
  /-- The position stands to the range in the same way. -/
  comparePosition : r'.comparePosition p' = r.comparePosition p

/-- **Containment does not depend on the basis.** -/
theorem WellFormed.sameAnswers (hr : r.WellFormed) (hq : q.WellFormed) (hp : p.WellFormed)
    (hqr : q.start.basis = r.start.basis) (hpr : p.basis = r.start.basis)
    (hr' : r.toBasis basis = .ok r') (hq' : q.toBasis basis = .ok q')
    (hp' : p.toBasis basis = .ok p') : SameAnswers r q p r' q' p' := by
  obtain ⟨hstart, hstop⟩ := toBasis_eq_ok_iff.mp hr'
  obtain ⟨hqstart, hqstop⟩ := toBasis_eq_ok_iff.mp hq'
  have start := hr.start.recounted hstart
  have stop := hr.stop.recounted hstop
  have inner := hq.start.recounted hqstart
  have innerStop := hq.stop.recounted hqstop
  have place := hp.recounted hp'
  have hps : p.basis = r.stop.basis := hpr.trans hr.basis
  have hqs : q.stop.basis = r.stop.basis := hq.basis.symm.trans (hqr.trans hr.basis)
  refine ⟨?_, ?_, ?_⟩
  · simp only [contains, start.le_iff place hpr.symm, place.le_iff stop hps]
  · simp only [containsRange, start.le_iff inner hqr.symm, innerStop.le_iff stop hqs]
  · simp only [comparePosition, place.lt_iff start hpr, stop.lt_iff place hps.symm]

/-- **Counting a range there and back gives the range again.** -/
theorem WellFormed.back (h : r.WellFormed) (hr : r.toBasis basis = .ok r') :
    r'.toBasis r.start.basis = .ok r := by
  obtain ⟨hstart, hstop⟩ := toBasis_eq_ok_iff.mp hr
  refine toBasis_eq_ok_iff.mpr ⟨(h.start.recounted hstart).back h.start, ?_⟩
  rw [h.basis]
  exact (h.stop.recounted hstop).back h.stop

/-- **Ranges stay well formed, and what lies in them does not depend on the basis.** Every row of
changes of a well-formed range, with well-formed positions of the basis it has by then, gives
well-formed ranges until it ends or comes to a change that is refused: one whose ends would be the
wrong way round, or one to counting from one at the greatest number. Wherever a well-formed range, with
a range and a position of its basis, can be counted from the other basis, all questions have the same
answers there, and counting back gives all three again. -/
theorem wellFormed_and_basisFree (hr : r.WellFormed) :
    (∀ changes, NamesAll r.start.basis changes → r.Ends changes) ∧
      ∀ q p basis r' q' p', q.WellFormed → q.start.basis = r.start.basis → p.WellFormed →
        p.basis = r.start.basis → r.toBasis basis = .ok r' → q.toBasis basis = .ok q' →
        p.toBasis basis = .ok p' →
        SameAnswers r q p r' q' p' ∧ r'.toBasis r.start.basis = .ok r ∧
          q'.toBasis r.start.basis = .ok q ∧ p'.toBasis r.start.basis = .ok p := by
  refine ⟨fun changes names => hr.ends_applyAll names, ?_⟩
  intro q p basis r' q' p' hq hqr hp hpr hr' hq' hp'
  have hback : p'.toBasis p.basis = .ok p := (hp.recounted hp').back hp
  exact ⟨hr.sameAnswers hq hp hqr hpr hr' hq' hp', hr.back hr', hqr ▸ hq.back hq', hpr ▸ hback⟩

/-- A range that is moved, counted from zero and cut, and asked about from both bases. -/
theorem wellFormed_and_basisFree_moved :
    Range.Ends ⟨⟨1, 2, .one⟩, ⟨1, 6, .one⟩⟩
        [.transform 0 1 1 (-9), .toZeroBased, .withStart ⟨1, 0, .zero⟩, .toOneBased] ∧
      SameAnswers ⟨⟨1, 2, .one⟩, ⟨1, 6, .one⟩⟩ ⟨⟨1, 2, .one⟩, ⟨2, 1, .one⟩⟩ ⟨1, 1, .one⟩
        ⟨⟨0, 1, .zero⟩, ⟨0, 5, .zero⟩⟩ ⟨⟨0, 1, .zero⟩, ⟨1, 0, .zero⟩⟩ ⟨0, 0, .zero⟩ := by
  have hr : Range.WellFormed ⟨⟨1, 2, .one⟩, ⟨1, 6, .one⟩⟩ := ⟨by decide, by decide, rfl, by decide⟩
  have hq : Range.WellFormed ⟨⟨1, 2, .one⟩, ⟨2, 1, .one⟩⟩ := ⟨by decide, by decide, rfl, by decide⟩
  obtain ⟨stays, basisFree⟩ := wellFormed_and_basisFree hr
  refine ⟨stays _ ⟨trivial, trivial, ⟨by decide, rfl⟩, trivial, trivial⟩, ?_⟩
  exact (basisFree _ ⟨1, 1, .one⟩ .zero _ _ _ hq rfl (by decide) rfl rfl rfl rfl).1

end Range

end ProjectLens
