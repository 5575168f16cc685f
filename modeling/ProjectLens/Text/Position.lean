/-! # Positions in a text

A position is a line number and a column number together with the number both counts start at.
Editors count from zero, project files are discussed counting from one, and a position always says
which of the two it means.

* `Position` and its order: by line, then column, then basis;
* `Position.toZeroBased`, `Position.toOneBased`: the two conversions, of which the second can leave
  the range of representable numbers;
* `Position.moveBy`: a shift that stops at the least and the greatest representable number;
* `PositionError`: what can be wrong with a position, an offset or a pair of positions. -/

namespace ProjectLens

/-- The number that the first line and the first column of a text have. -/
inductive Basis where
  /-- The first line is line 0. -/
  | zero
  /-- The first line is line 1. -/
  | one
  deriving DecidableEq, Repr

namespace Basis

/-- The least line or column number of a basis; it also orders the two bases. -/
def least : Basis → Nat
  | .zero => 0
  | .one => 1

/-- The name of a basis in settings and in structured output. -/
def name : Basis → String
  | .zero => "zero-based"
  | .one => "one-based"

end Basis

/-- A line and a column, both counted from `basis`. -/
structure Position where
  /-- The line number. -/
  line : Nat
  /-- The column number, in characters. -/
  column : Nat
  /-- What both numbers are counted from. -/
  basis : Basis
  deriving DecidableEq, Repr

namespace Position

/-- The greatest line or column number: positions are exchanged as 64-bit words. -/
def greatest : Nat := 0xFFFFFFFFFFFFFFFF

/-- The first position of a text, counted from one. -/
def origin : Position := ⟨1, 1, .one⟩

/-- The first position of a text, counted from zero. -/
def zero : Position := ⟨0, 0, .zero⟩

instance : Inhabited Position := ⟨origin⟩

/-- Positions are ordered by line, then column, then basis; nothing is converted. -/
instance : LE Position where
  le a b := a.line < b.line ∨ (a.line = b.line ∧
    (a.column < b.column ∨ (a.column = b.column ∧ a.basis.least ≤ b.basis.least)))

/-- The strict order: `a` stands before `b` when `b` is not at or before `a`. -/
instance : LT Position where
  lt a b := ¬ b ≤ a

instance (a b : Position) : Decidable (a ≤ b) :=
  inferInstanceAs (Decidable (a.line < b.line ∨ (a.line = b.line ∧
    (a.column < b.column ∨ (a.column = b.column ∧ a.basis.least ≤ b.basis.least)))))

instance (a b : Position) : Decidable (a < b) :=
  inferInstanceAs (Decidable (¬ b ≤ a))

/-- The later of two positions. -/
instance : Max Position where
  max a b := if a ≤ b then b else a

/-- How two positions stand to each other. -/
def order (a b : Position) : Ordering :=
  if a < b then .lt else if a = b then .eq else .gt

/-- The same place counted from zero. A number below the least one of its basis becomes zero. -/
def toZeroBased (p : Position) : Position :=
  match p.basis with
  | .zero => p
  | .one => ⟨p.line - 1, p.column - 1, .zero⟩

/-- Moves one number by a signed amount, stopping at `floor` and at the greatest number. -/
def shift (floor value : Nat) (delta : Int) : Nat :=
  max floor (if delta < 0 then value - delta.natAbs else min (value + delta.natAbs) greatest)

/-- Moves a position by signed amounts of lines and columns. -/
def moveBy (p : Position) (lines columns : Int) : Position :=
  { p with
    line := shift p.basis.least p.line lines
    column := shift p.basis.least p.column columns }

/-- The position as `(line,column)`. -/
def display (p : Position) : String :=
  "(" ++ toString p.line ++ "," ++ toString p.column ++ ")"

end Position

/-- What can be wrong with a position, an offset or a pair of positions. -/
inductive PositionError where
  /-- The text has fewer lines; both numbers are as the caller counts. -/
  | lineOutOfRange (line lineCount : Nat)
  /-- The line is shorter; `line` and `column` are as the caller counts. -/
  | columnOutOfRange (line column length : Nat)
  /-- The text has fewer characters. -/
  | offsetOutOfRange (offset length : Nat)
  /-- A range would end before it starts. -/
  | invertedRange (start stop : Position)
  /-- A number would exceed the greatest one. -/
  | overflow
  deriving DecidableEq, Repr

namespace PositionError

/-- The wording of a position error. -/
def message : PositionError → String
  | .lineOutOfRange line lineCount =>
      "line " ++ toString line ++ " is past the last line (" ++ toString lineCount ++ " lines)"
  | .columnOutOfRange line column length =>
      "column " ++ toString column ++ " is past the end of line " ++ toString line ++ " (" ++
        toString length ++ " characters)"
  | .offsetOutOfRange offset length =>
      "offset " ++ toString offset ++ " is past the end of the text (" ++ toString length ++
        " characters)"
  | .invertedRange start stop =>
      "range start " ++ start.display ++ " is after its end " ++ stop.display
  | .overflow => "attempt to add with overflow"

end PositionError

namespace Position

/-- Adds two numbers when the sum is representable. -/
def add (a b : Nat) : Except PositionError Nat :=
  if a + b ≤ greatest then .ok (a + b) else .error .overflow

/-- The same place counted from one. It fails when a number would exceed the greatest one. -/
def toOneBased (p : Position) : Except PositionError Position :=
  match p.basis with
  | .one => .ok p
  | .zero =>
    if p.line < greatest ∧ p.column < greatest then .ok ⟨p.line + 1, p.column + 1, .one⟩
    else .error .overflow

/-- The same place counted from `basis`. -/
def toBasis (p : Position) : Basis → Except PositionError Position
  | .zero => .ok p.toZeroBased
  | .one => p.toOneBased

end Position

end ProjectLens
