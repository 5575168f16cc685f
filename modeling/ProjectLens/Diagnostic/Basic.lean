import ProjectLens.Text.Export

/-! # Diagnostics

What the reader and the expression parser have to say about a text, from traces of single steps to
errors. -/

namespace ProjectLens

/-- How much a diagnostic matters. -/
inductive Severity where
  /-- A single step of the work. -/
  | trace
  /-- Something that could be made sense of. -/
  | warning
  /-- Something that could not be read. -/
  | error
  deriving DecidableEq, Repr

namespace Severity

/-- Severities from least to most. -/
def rank : Severity → Nat
  | .trace => 0
  | .warning => 1
  | .error => 2

/-- The name of a severity. -/
def name : Severity → String
  | .trace => "trace"
  | .warning => "warning"
  | .error => "error"

end Severity

/-- The part of the inspector a diagnostic comes from. -/
inductive Origin where
  /-- The reader of project files. -/
  | reader
  /-- The expression parser. -/
  | expression
  deriving DecidableEq, Repr

/-- The name of an origin. -/
def Origin.name : Origin → String
  | .reader => "reader"
  | .expression => "expression"

/-- A message with its weight, its origin and the place it is about. -/
structure Diagnostic where
  /-- How much it matters. -/
  severity : Severity
  /-- Where it comes from. -/
  origin : Origin
  /-- What it says. -/
  message : String
  /-- The place it is about. -/
  range : Option Range
  deriving DecidableEq, Repr

namespace Diagnostic

/-- Whether a diagnostic only traces a step. -/
def isTrace (d : Diagnostic) : Bool := d.severity = .trace

/-- A diagnostic on one line: severity, place, message. -/
def display (d : Diagnostic) : String :=
  match d.range with
  | some range => d.severity.name ++ " " ++ range.display ++ ": " ++ d.message
  | none => d.severity.name ++ ": " ++ d.message

/-- A diagnostic in structured output. -/
def toJson (d : Diagnostic) : Json :=
  .obj [("severity", .str d.severity.name), ("source", .str d.origin.name),
    ("message", .str d.message), ("range", Json.opt Range.toJson d.range)]

end Diagnostic

end ProjectLens
