import ProjectLens.Diagnostic.Basic
import ProjectLens.Expression.Slots
import ProjectLens.Expression.Tree

/-! # Parsing expression texts

A text is parsed in one of three forms. Not parsing is an ordinary result: the text under a cursor
is usually unfinished, so there is a complaint instead of a tree.

* `Form`: one expression, a list of expressions, or a plain list;
* `Complaint`: what is wrong with a text, in words;
* `parseAs`. -/

namespace ProjectLens

/-- What a text is parsed as. -/
inductive Form where
  /-- A condition or a single expression. -/
  | root
  /-- Expressions separated by semicolons. -/
  | list
  /-- Plain texts separated by semicolons. -/
  | simpleList
  deriving DecidableEq, Repr

namespace Form

/-- The name of a form in structured output and on the command line. -/
def tag : Form → String
  | .root => "root"
  | .list => "list"
  | .simpleList => "simple-list"

/-- The form with a name. -/
def ofTag? : String → Option Form
  | "root" => some .root
  | "list" => some .list
  | "simple-list" => some .simpleList
  | _ => none

/-- The name of a form in reports. -/
def name : Form → String
  | .root => "Root"
  | .list => "List"
  | .simpleList => "SimpleList"

end Form

/-- Why a text does not parse. -/
structure Complaint where
  /-- The offending token, or the end of the text. -/
  span : Span
  /-- The construct being read, if known, then the tokens that would have been accepted. -/
  expected : List String
  /-- The offending token. -/
  found : Option String
  /-- All of it in words. -/
  message : String
  deriving DecidableEq, Repr

/-- Removes repetitions next to each other. -/
def dedupAdjacent : List String → List String
  | a :: b :: rest => if a = b then dedupAdjacent (b :: rest) else a :: dedupAdjacent (b :: rest)
  | short => short

namespace Failure

/-- The text of something that would have been accepted. -/
def expectedText : Option Token → String
  | some token => "'" ++ token.text ++ "'"
  | none => "end of input"

/-- The texts of what would have been accepted, sorted and without repetitions. -/
def expectedTexts (failure : Failure) : List String :=
  dedupAdjacent ((failure.expected.map expectedText).mergeSort fun a b => a ≤ b)

/-- The failure in words. -/
def toComplaint (failure : Failure) : Complaint :=
  let expected := failure.label.text?.toList ++ failure.expectedTexts
  let found := failure.found.map Token.text
  let surprise := match found with
    | some token => "unexpected '" ++ token ++ "'"
    | none => "unexpected end of input"
  let message := match failure.reason with
    | some reason => reason
    | none =>
      if expected.isEmpty then surprise else surprise ++ ", expected " ++ ", ".intercalate expected
  ⟨failure.span, expected, found, message⟩

end Failure

namespace Complaint

/-- A complaint on one line. -/
def display (c : Complaint) : String :=
  c.message ++ " at " ++ toString c.span.start ++ ".." ++ toString c.span.stop

/-- A complaint in structured output. -/
def toJson (c : Complaint) : Json :=
  .obj [("span", c.span.toJson), ("expected", Json.list Json.str c.expected),
    ("found", Json.opt Json.str c.found), ("message", .str c.message)]

/-- A complaint as a diagnostic of the document, given the offset there of the text. -/
def toDiagnostic (c : Complaint) (base : Nat) (index : Index) :
    Except PositionError Diagnostic := do
  let start ← Position.add base c.span.start
  let stop ← Position.add base c.span.stop
  return ⟨.warning, .expression, c.message, some (index.spanToRange ⟨start, stop⟩)⟩

end Complaint

/-- The expression a text stands for. -/
def parseExpr (form : Form) (text : String) : Except Failure Expr :=
  match form with
  | .root => Grammar.root.parse text
  | .list => (Grammar.list.parse text).map fun parts => listExpr parts text.length
  | .simpleList => (Grammar.simpleList.parse text).map (simpleListExpr text.toList)

section Lists

variable {text : String} {expr : Expr} {failure : Failure}

/-- `parseExpr .list text = .ok expr` just when the grammar reads the parts of that list. -/
theorem parseExpr_list_eq_ok : parseExpr .list text = .ok expr ↔
    ∃ parts, Grammar.list.parse text = .ok parts ∧ listExpr parts text.length = expr := by
  rw [parseExpr]
  cases Grammar.list.parse text <;> simp [Except.map]

/-- `parseExpr .list text = .error failure` just when the grammar fails so. -/
theorem parseExpr_list_eq_error : parseExpr .list text = .error failure ↔
    Grammar.list.parse text = .error failure := by
  rw [parseExpr]
  cases Grammar.list.parse text <;> simp [Except.map]

/-- `parseExpr .simpleList text = .ok expr` just when the grammar reads the separators of that list. -/
theorem parseExpr_simpleList_eq_ok : parseExpr .simpleList text = .ok expr ↔
    ∃ semicolons, Grammar.simpleList.parse text = .ok semicolons ∧
      simpleListExpr text.toList semicolons = expr := by
  rw [parseExpr]
  cases Grammar.simpleList.parse text <;> simp [Except.map]

end Lists

/-- The linked tree of a text, or a complaint. -/
def parseAs (form : Form) (text : String) : Except Complaint ExprTree :=
  match parseExpr form text with
  | .ok expr => .ok (ExprTree.ofExpr expr).withLinks
  | .error failure => .error failure.toComplaint

end ProjectLens
