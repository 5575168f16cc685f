import ProjectLens.Text.Pieces

/-! # Paths to nodes

A path is a list of segments. An absolute path starts with the segment of the root, which has no
name, so it is written with a leading slash.

* `Path.parse`, `Path.display`: paths as text;
* `Path.join`, `Path.parent?`: one step down and one step up;
* `Path.startsWith`, `Path.endsWith`, `Path.isChildOf`: how paths stand to each other. -/

namespace ProjectLens

/-- The segments from the root, or from anywhere, down to a node. -/
structure Path where
  /-- The segments in order. -/
  segments : List String
  deriving DecidableEq, Repr

namespace Path

/-- The path of the root, a single segment without a name. -/
def root : Path := ⟨[""]⟩

/-- Reads `/A/B` as an absolute and `A/B` as a relative path. Empty segments are left out. -/
def parse (text : String) : Path :=
  let chars := text.toList
  let named := ((pieces '/' chars).filter fun piece => !piece.isEmpty).map String.ofList
  ⟨if chars.head? = some '/' then "" :: named else named⟩

/-- Whether the path starts at the root. -/
def isAbsolute (path : Path) : Bool := path.segments.head? = some ""

/-- Whether this is the path of the root. -/
def isRoot (path : Path) : Bool := path.segments = [""]

/-- The last segment. -/
def name (path : Path) : String := path.segments.getLast?.getD ""

/-- The path of what is around; a path of one segment or none has no such path. -/
def parent? (path : Path) : Option Path :=
  match path.segments with
  | [] | [_] => none
  | segments => some ⟨segments.dropLast⟩

/-- The path one segment further down. -/
def join (path : Path) (segment : String) : Path := ⟨path.segments ++ [segment]⟩

/-- Whether the path goes through the end of another one, both from their starts. -/
def startsWith (path base : Path) : Bool := base.segments.isPrefixOf path.segments

/-- Whether the path ends with another one. An absolute one must be all of it. -/
def endsWith (path tail : Path) : Bool :=
  if tail.isAbsolute then path = tail else tail.segments.isSuffixOf path.segments

/-- Whether the path is directly below another one. Every relative path is below the root. -/
def isChildOf (path parent : Path) : Bool :=
  if !path.isAbsolute && parent.isRoot then true
  else path.parent?.any fun around => around.endsWith parent

/-- The path as text. -/
def display (path : Path) : String :=
  if path.isRoot then "/" else "/".intercalate path.segments

end Path

end ProjectLens
