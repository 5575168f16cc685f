/-! # Half-open spans of characters

A span counts characters of one text: it holds its start and stops before its end. -/

namespace ProjectLens

/-- The characters from `start` up to, but not including, `stop`. -/
structure Span where
  /-- Offset of the first character. -/
  start : Nat
  /-- Offset just after the last character. -/
  stop : Nat
  deriving DecidableEq, Repr, Inhabited

namespace Span

/-- The span of no character at an offset. -/
def emptyAt (offset : Nat) : Span := ⟨offset, offset⟩

/-- Number of characters; a span whose end stands before its start has none. -/
def length (s : Span) : Nat := s.stop - s.start

/-- Whether the span holds no character. -/
def isEmpty (s : Span) : Bool := s.stop ≤ s.start

/-- Whether the character at an offset belongs to the span. -/
def contains (s : Span) (offset : Nat) : Bool := s.start ≤ offset ∧ offset < s.stop

/-- Whether an offset is in the span or right after it. -/
def touches (s : Span) (offset : Nat) : Bool := s.start ≤ offset ∧ offset ≤ s.stop

/-- Whether another span lies between the ends of this one. -/
def encloses (s other : Span) : Bool := s.start ≤ other.start ∧ other.stop ≤ s.stop

end Span

end ProjectLens
