import ProjectLens.Proofs.Bases
import ProjectLens.Proofs.Innermost

/-! # Questions about any position

A snapshot answers what is at a position whatever the two numbers are, and in either basis: a position
that is not one of the text's has nothing at it. The one thing that can go wrong is the change of
basis, since a number counted from zero may already be the greatest one.

* `Snapshot.Answers`, `Snapshot.Overflows`: the two ways in which questions about a position end;
* `Snapshot.answers_iff_recountable`: which of the two it is, by `Position.Recountable`. -/

namespace ProjectLens

/-- A position addresses the same character, if any, in either basis. -/
theorem Index.toOffset_of_toOneBased {index : Index} {p q : Position} {offset : Nat}
    (hp : p.toOneBased = .ok q) (h : index.toOffset q = .ok offset) :
    index.toOffset p = .ok offset := by
  rw [toOffset, Position.toZeroBased_of_toOneBased hp] at h
  rw [toOffset]
  cases hline : index.lines[p.toZeroBased.line]? with
  | none =>
    rw [hline] at h
    cases h
  | some line =>
    rw [hline] at h
    dsimp only at h ⊢
    split at h
    · rw [if_pos ‹_›]
      exact h
    · cases h

namespace Snapshot

variable {text : String} {p q : Position}

/-- **Questions about a position are answered**, with something or with nothing, and with nothing
where the position is not one of the text's. -/
structure Answers (s : Snapshot) (p : Position) : Prop where
  /-- There is a node at the position, or none. -/
  nodeAt : ∃ node, s.nodeAt p = .ok node
  /-- The position is on some part of a node, or on nothing. -/
  inspect : ∃ spot, s.inspect p = .ok spot
  /-- There is an expression at the position, or none. -/
  expressionAt : ∃ found, s.expressionAt p = .ok found
  /-- Outside of the text there is nothing. -/
  outside : (∀ offset, s.index.toOffset p ≠ .ok offset) →
    s.inspect p = .ok none ∧ s.expressionAt p = .ok none

/-- **Every question about a position fails**, since one of its numbers has no next one. -/
structure Overflows (s : Snapshot) (p : Position) : Prop where
  /-- No node is found. -/
  nodeAt : s.nodeAt p = .error .overflow
  /-- No part of a node is found. -/
  inspect : s.inspect p = .error .overflow
  /-- No expression is found. -/
  expressionAt : s.expressionAt p = .error .overflow

/-- The expression at a position is read off what is at the position. -/
theorem expressionAt_of_inspect {s : Snapshot} {spot : Option Spot} (h : s.inspect p = .ok spot) :
    s.expressionAt p = .ok (spot.bind s.expressionOn) := by
  rw [expressionAt, h]
  rfl

/-- Where a position can be counted from one, all questions are answered. -/
theorem answers_of_toOneBased (hp : p.toOneBased = .ok q) : (ofText text).Answers p := by
  obtain ⟨found, hnode, -, hinspect⟩ := exists_at text hp
  have hexpression := expressionAt_of_inspect hinspect
  -- nothing is there unless the position has an offset, and it has the same one in both bases
  refine ⟨⟨_, hnode⟩, ⟨_, hinspect⟩, ⟨_, hexpression⟩, fun houtside => ?_⟩
  rw [hexpression, hinspect]
  cases hoffset : (ofText text).index.toOffset q with
  | error reason => exact ⟨rfl, rfl⟩
  | ok offset => exact absurd (Index.toOffset_of_toOneBased hp hoffset) (houtside offset)

/-- Where it cannot, every question fails at the change of basis. -/
theorem overflows_of_not_recountable {s : Snapshot} (h : ¬ p.Recountable) : s.Overflows p := by
  have hp := Position.toOneBased_of_not_recountable h
  -- all three change the basis before anything else
  have hfind : s.lookup.find p = .error .overflow := by
    rw [Lookup.find, Lookup.findEntry, hp]
    rfl
  have hinspect : s.inspect p = .error .overflow := by
    rw [inspect, Model.inspect, hp]
    rfl
  refine ⟨?_, hinspect, ?_⟩
  · rw [nodeAt, hfind]
    rfl
  · rw [expressionAt, hinspect]
    rfl

/-- A position whose question overflows has no answer. -/
theorem Overflows.not_answers {s : Snapshot} (h : s.Overflows p) : ¬ s.Answers p := by
  rintro ⟨⟨node, hnode⟩, -, -, -⟩
  rw [h.nodeAt] at hnode
  cases hnode

/-- **When questions about a position are answered.** For every text and every two numbers in either
basis, all three questions are answered just when the position can be counted from one, and all three
fail for the size of the numbers just when it cannot. -/
theorem answers_iff_recountable (text : String) (p : Position) :
    ((ofText text).Answers p ↔ p.Recountable) ∧ ((ofText text).Overflows p ↔ ¬ p.Recountable) := by
  by_cases h : p.Recountable
  · obtain ⟨q, hp⟩ := h.exists_toOneBased
    have hanswers : (ofText text).Answers p := answers_of_toOneBased hp
    refine ⟨iff_of_true hanswers h, iff_of_false ?_ (not_not_intro h)⟩
    exact fun hoverflows => hoverflows.not_answers hanswers
  · have hoverflows : (ofText text).Overflows p := overflows_of_not_recountable h
    exact ⟨iff_of_false hoverflows.not_answers h, iff_of_true hoverflows h⟩

/-- Not every position of representable numbers gets an answer: the greatest line number, counted from
zero, gets none. -/
theorem exists_not_answers : ¬ ∀ (text : String) (p : Position),
    p.line ≤ Position.greatest → p.column ≤ Position.greatest → (ofText text).Answers p := by
  intro hall
  have hanswers := hall "<A/>" ⟨Position.greatest, 0, .zero⟩ (by decide) (by decide)
  have hoverflows : (ofText "<A/>").Overflows ⟨Position.greatest, 0, .zero⟩ :=
    overflows_of_not_recountable fun h => absurd (h rfl).1 (by decide)
  exact hoverflows.not_answers hanswers

end Snapshot

end ProjectLens
