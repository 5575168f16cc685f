import ProjectLens.Outline.Expression
import ProjectLens.Outline.Model
import ProjectLens.Settings.Basic
import ProjectLens.Snapshot

/-! # What is printed

Every task prints either an outline, with ranges and spans if wanted, or structured data. -/

namespace ProjectLens

/-- Structured data over several lines, with a line end. -/
def Json.report (value : Json) : String := value.pretty ++ "\n"

/-- The tree of an expression. -/
def ExprTree.report (settings : Settings) (tree : ExprTree) : String :=
  match settings.format with
  | .outline => tree.outline settings.showRanges
  | .json => tree.toJson.report

namespace Snapshot

/-- The model of a project file. -/
def reportModel (s : Snapshot) (settings : Settings) : String :=
  match settings.format with
  | .outline => s.model.outline settings.showRanges
  | .json =>
    (Json.obj [("nodes", Json.list Node.toJson s.model.sorted),
      ("diagnostics", Json.list Diagnostic.toJson s.diagnostics)]).sorted.report

end Snapshot

namespace Found

/-- The lines about an expression under a cursor. -/
def lines (found : Found) (showSpans : Bool) : String :=
  "syntax: " ++ found.form.name ++ "\n" ++
    (match found.node with
      | some node =>
        "expression: " ++ node.kind.name ++ " @" ++ toString node.start ++ ".." ++
          toString node.stop ++ "\n"
      | none => "") ++
    match found.tree? with
    | some tree => tree.outline showSpans
    | none => ""

/-- An expression under a cursor in structured output. -/
def toJson (found : Found) : Json :=
  .obj [("syntax", .str found.form.tag), ("base_offset", .num found.base),
    ("kind", Json.opt (fun node => Json.str node.kind.name) found.node),
    ("name", Json.opt Json.str (found.node.bind ExprNode.name?)),
    ("span", Json.opt (fun node => Json.arr [.num node.start, .num node.stop]) found.node),
    ("diagnostics", Json.list Complaint.toJson found.complaints)]

end Found

/-- What is at a position. -/
def Spot.report (spot : Spot) (found : Option Found) (settings : Settings) : String :=
  match settings.format with
  | .outline =>
    "node: " ++ spot.node.path.display ++ "\nkind: " ++ spot.node.part.kindName ++
      "\nrange: " ++ spot.node.range.display ++ "\nflags: " ++ spot.flags.display ++ "\n" ++
      match found with
      | some found => found.lines settings.showRanges
      | none => ""
  | .json =>
    (Json.obj [("path", .str spot.node.path.display), ("kind", .str spot.node.part.kindTag),
      ("range", spot.node.range.toJson), ("offset", .num spot.offset),
      ("flags", .str spot.flags.display),
      ("expression", Json.opt Found.toJson found)]).sorted.report

end ProjectLens
