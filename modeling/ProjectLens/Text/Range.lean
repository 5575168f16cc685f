import ProjectLens.Text.Position

/-! # Closed ranges

A range holds both of its ends, so a cursor right after a construct still counts as being on it, and
a range of one position is not empty of positions.

* `Range.ofEnds`: the checked constructor;
* `Range.contains`, `Range.containsRange`, `Range.comparePosition`: containment;
* `Range.transform`, `Range.toZeroBased`, `Range.toOneBased`: what moves or recounts a range. -/

namespace ProjectLens

/-- The positions from `start` to `stop`, both included. -/
structure Range where
  /-- The first position. -/
  start : Position
  /-- The last position. -/
  stop : Position
  deriving DecidableEq, Repr

namespace Range

/-- The range between two positions, which must not be the wrong way round. -/
def ofEnds (start stop : Position) : Except PositionError Range :=
  if start ≤ stop then .ok ⟨start, stop⟩ else .error (.invertedRange start stop)

/-- The range of a single position. -/
def emptyAt (p : Position) : Range := ⟨p, p⟩

/-- Whether the range holds a single position. -/
def isEmpty (r : Range) : Bool := r.start = r.stop

/-- The range with another first position. -/
def withStart (r : Range) (start : Position) : Except PositionError Range :=
  ofEnds start r.stop

/-- The range with another last position. -/
def withStop (r : Range) (stop : Position) : Except PositionError Range :=
  ofEnds r.start stop

/-- Moves both ends by signed amounts. -/
def transform (r : Range) (startLines startColumns stopLines stopColumns : Int) :
    Except PositionError Range :=
  ofEnds (r.start.moveBy startLines startColumns) (r.stop.moveBy stopLines stopColumns)

/-- The range counted from zero; the order of the ends is not looked at again. -/
def toZeroBased (r : Range) : Range := ⟨r.start.toZeroBased, r.stop.toZeroBased⟩

/-- The range counted from one; the order of the ends is not looked at again. -/
def toOneBased (r : Range) : Except PositionError Range := do
  let start ← r.start.toOneBased
  let stop ← r.stop.toOneBased
  return ⟨start, stop⟩

/-- Whether a position lies in the range, ends included. -/
def contains (r : Range) (p : Position) : Bool := r.start ≤ p ∧ p ≤ r.stop

/-- Whether all of another range lies in the range. -/
def containsRange (r other : Range) : Bool := r.start ≤ other.start ∧ other.stop ≤ r.stop

/-- Where a position stands to the range: before it, on it or after it. -/
def comparePosition (r : Range) (p : Position) : Ordering :=
  if p < r.start then .lt else if r.stop < p then .gt else .eq

/-- Ranges are ordered by start, then by stop. -/
def order (a b : Range) : Ordering := (a.start.order b.start).then (a.stop.order b.stop)

/-- The range as `(l,c)-(l,c)`. -/
def display (r : Range) : String := r.start.display ++ "-" ++ r.stop.display

end Range

end ProjectLens
