import ProjectLens.Json
import ProjectLens.Text.Range
import ProjectLens.Text.Span

/-! # Positions, ranges and spans in structured output -/

namespace ProjectLens

/-- A position with its basis by name. -/
def Position.toJson (p : Position) : Json :=
  .obj [("line", .num p.line), ("column", .num p.column), ("basis", .str p.basis.name)]

/-- A range by its two ends. -/
def Range.toJson (r : Range) : Json :=
  .obj [("start", r.start.toJson), ("end", r.stop.toJson)]

/-- A span by its two offsets. -/
def Span.toJson (s : Span) : Json := .obj [("start", .num s.start), ("end", .num s.stop)]

end ProjectLens
