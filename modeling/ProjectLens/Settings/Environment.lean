import ProjectLens.Settings.KeyPath
import ProjectLens.Text.Pieces

/-! # Settings from variables of the environment

A variable whose name starts as expected is a setting: two underscores part the names of tables from
those of their members, and letter case does not matter. Its value is a truth value or a number if
it looks like one. -/

namespace ProjectLens.Environment

/-- The start of the names of variables that are settings. -/
def namespaceName : String := "MSBUILD_INSPECT"

/-- What values from variables are said to come from. -/
def originName : String := "the environment"

/-- Puts a point in place of every two underscores, from the left. -/
def joinNames : List Char → List Char
  | '_' :: '_' :: rest => '.' :: joinNames rest
  | c :: rest => c :: joinNames rest
  | [] => []

/-- The key of the setting that a variable stands for. -/
def key? (name : String) : Option String :=
  let start := (lowercase (namespaceName ++ "_")).toList
  let chars := (lowercase name).toList
  if start.isPrefixOf chars then some (String.ofList (joinNames (chars.drop start.length)))
  else none

/-- The value a text stands for: a truth value in any letter case, a whole number, a number, or the
text itself. -/
def readScalar (text : String) : Scalar :=
  match lowercase text with
  | "true" => .bool true
  | "false" => .bool false
  | _ =>
    match readInteger text.toList with
    | some n => .integer n
    | none =>
      match readDouble text.toList with
      | some x => .real x
      | none => .text text

/-- One variable from its name, an equals sign and its value; the sign is looked for after the first
character. -/
def ofEntry? (entry : String) : Option (String × String) :=
  match entry.toList with
  | [] => none
  | first :: rest =>
    match rest.dropWhile (· ≠ '=') with
    | [] => none
    | _ :: value => some (String.ofList (first :: rest.takeWhile (· ≠ '=')), String.ofList value)

/-- The variables in a block of entries, each ended by a null character. -/
def ofBlock (block : String) : List (String × String) :=
  (pieces (Char.ofNat 0) block.toList).filterMap fun entry => ofEntry? (String.ofList entry)

/-- The settings among some variables. -/
def settings (vars : List (String × String)) : List (String × Setting) :=
  vars.filterMap fun (name, value) =>
    (key? name).map fun key => (key, .scalar (some originName) (readScalar value))

end ProjectLens.Environment
