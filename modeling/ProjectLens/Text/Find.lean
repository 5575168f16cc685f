import ProjectLens.Text.Index
import ProjectLens.Text.Quoted

/-! # Where a text first occurs -/

namespace ProjectLens

/-- The offset of the first occurrence of `needle`. -/
def firstOccurrence? (needle : List Char) : List Char → Option Nat
  | [] => if needle.isEmpty then some 0 else none
  | c :: rest =>
    if needle.isPrefixOf (c :: rest) then some 0
    else (firstOccurrence? needle rest).map (· + 1)

/-- The position of the first occurrence of a text. -/
def Index.positionOf? (index : Index) (needle : String) : Option Position :=
  (firstOccurrence? needle.toList index.chars).map index.positionAt

/-- The wording for a text that does not occur. -/
def missingNeedle (needle : String) : String :=
  Quoted.ofText needle ++ " does not occur in the text"

end ProjectLens
