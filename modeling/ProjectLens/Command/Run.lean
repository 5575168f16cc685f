import ProjectLens.Command.Report
import ProjectLens.Command.Request
import ProjectLens.Settings.Loader
import ProjectLens.Text.Blank

/-! # Running a command line

Running is a function of the words of the command line, the files around and the variables of the
environment. It gives what is printed and the exit code.

* `RunError`: why a task has no result;
* `readPosition`: positions as they are given on the command line;
* `Request.run`, `runArguments`;
* `pathsToRead`: the files that running may look at. -/

namespace ProjectLens

/-- Why a task has no result. -/
inductive RunError where
  /-- The settings cannot be read. -/
  | settings (error : SettingsError)
  /-- The project file cannot be read. -/
  | unreadable (path : String) (state : FileState)
  /-- The project file is no text. -/
  | notText (path : String)
  /-- The expression does not parse. -/
  | expression (complaint : Complaint)
  /-- The position is not written as one. -/
  | invalidPosition (text : String)
  /-- A position that counts from one has a zero. -/
  | notOneBased (text : String)
  /-- No node is around the position. -/
  | nothingThere (text : String)
  /-- A number of the position is too great to be counted from one. -/
  | position (error : PositionError)
  deriving DecidableEq, Repr

namespace RunError

/-- The wording of a run error. -/
def message : RunError → String
  | .settings error => "Configuration error: " ++ error.message
  | .unreadable path state => "Cannot read " ++ path ++ ": " ++ state.reason
  | .notText path => "Cannot read " ++ path ++ ": stream did not contain valid UTF-8"
  | .expression complaint => "error: " ++ complaint.display
  | .invalidPosition text => "Invalid position '" ++ text ++ "', expected LINE:COLUMN"
  | .notOneBased text => "Position '" ++ text ++ "' is not one-based"
  | .nothingThere text => "Nothing at " ++ text ++ " in this document"
  | .position error => error.message

/-- The exit code of a run error. -/
def code : RunError → Nat
  | .position _ => 101
  | _ => 1

end RunError

/-- Reads a position as `LINE:COLUMN`, counted as the settings say. -/
def readPosition (text : String) (basis : Basis) : Except RunError Position :=
  let chars := text.toList
  let number (part : List Char) : Option Nat := readWord (trimBlank part)
  match chars.dropWhile (· ≠ ':') with
  | [] => .error (.invalidPosition text)
  | _ :: rest =>
    match number (chars.takeWhile (· ≠ ':')), number rest with
    | some line, some column =>
      if basis = .one ∧ (line = 0 ∨ column = 0) then .error (.notOneBased text)
      else .ok ⟨line, column, basis⟩
    | _, _ => .error (.invalidPosition text)

/-- Reads a project file. -/
def readProject (files : Files) (path : String) : Except RunError Snapshot :=
  match files path with
  | .contents bytes =>
    match Utf8.decode? bytes with
    | some text => .ok (Snapshot.ofText text)
    | none => .error (.notText path)
  | state => .error (.unreadable path state)

namespace Task

/-- Does a task. -/
def run (task : Task) (settings : Settings) (files : Files) : Except RunError String :=
  match task with
  | .expression text form =>
    match parseAs form text with
    | .ok tree => .ok (tree.report settings)
    | .error complaint => .error (.expression complaint)
  | .model path => do return (← readProject files path).reportModel settings
  | .place path argument => do
    let s ← readProject files path
    let position ← readPosition argument settings.inputBasis
    match s.inspect position with
    | .error error => throw (.position error)
    | .ok none => throw (.nothingThere argument)
    | .ok (some spot) => return spot.report (s.expressionOn spot) settings

/-- The project file that a task reads. -/
def path? : Task → Option String
  | .expression .. => none
  | .model path => some path
  | .place path _ => some path

end Task

namespace Request

/-- Where the settings for a request come from. -/
def loader (request : Request) (vars : List (String × String)) : Loader :=
  let loader := (Loader.ofVariables vars).localFile "."
  let loader := match request.settingsPath with
    | some path => loader.userFile path
    | none => loader
  let loader := match request.format with
    | some format => loader.outputFormat format
    | none => loader
  if request.ranges then loader.showRanges else loader

/-- Runs a request. -/
def run (request : Request) (files : Files) (vars : List (String × String)) :
    Except RunError String :=
  match (request.loader vars).build files with
  | .ok settings => request.task.run settings files
  | .error error => .error (.settings error)

end Request

/-- What running a command line gives. -/
structure Exit where
  /-- The exit code. -/
  code : Nat
  /-- What is printed. -/
  output : String
  /-- What is complained about. -/
  complaint : String
  deriving DecidableEq, Repr

/-- The name of the program and its version. -/
def versionText : String := "msbuild-inspect 0.1.0\n"

/-- How the program is used. -/
def helpText : String :=
  "Usage: msbuild-inspect <expr|model|at> [OPTIONS] <SUBJECT>...\n\n" ++
    "  expr <TEXT> [-m root|list|simple-list]   print an expression tree\n" ++
    "  model <PATH>                             print the model of a project file\n" ++
    "  at <PATH> <LINE:COLUMN>                  describe what is at a position\n\n" ++
    "Options: -f, --format treeviz|json; --ranges; -c, --config FILE\n"

/-- Runs a command line. -/
def runArguments (words : List String) (files : Files) (vars : List (String × String)) :
    Exit :=
  match readArguments words with
  | .error error => ⟨2, "", error.message ++ "\n"⟩
  | .ok .version => ⟨0, versionText, ""⟩
  | .ok .help => ⟨0, helpText, ""⟩
  | .ok (.request request) =>
    match request.run files vars with
    | .ok output => ⟨0, output, ""⟩
    | .error error => ⟨error.code, "", error.message ++ "\n"⟩

/-- The paths that running a command line may read. -/
def pathsToRead (words : List String) : List String :=
  match readArguments words with
  | .ok (.request request) => (request.loader []).paths ++ request.task.path?.toList
  | _ => []

end ProjectLens
