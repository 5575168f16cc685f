import ProjectLens.Expression.Parse
import ProjectLens.Settings.Basic

/-! # What the command line asks for

A command line names one of three tasks, its subjects, and options, which may stand anywhere after
the name of the task. Words are read from left to right, and the first one that makes no sense
decides.

* `Task`, `Request`, `Invocation`: what can be asked for;
* `TaskName`, `ValueOption`: the words for it;
* `readArguments`: from words to requests. -/

namespace ProjectLens

/-- What is to be done. -/
inductive Task where
  /-- Print the tree of an expression. -/
  | expression (text : String) (form : Form)
  /-- Print the model of a project file. -/
  | model (path : String)
  /-- Say what is at a position of a project file. -/
  | place (path position : String)
  deriving DecidableEq, Repr

/-- A task with the options that all tasks know. -/
structure Request where
  /-- What is to be done. -/
  task : Task
  /-- The output format. -/
  format : Option OutputFormat
  /-- Whether outlines show ranges and spans. -/
  ranges : Bool
  /-- The path of a settings file. -/
  settingsPath : Option String
  deriving DecidableEq, Repr

/-- What a command line asks for. -/
inductive Invocation where
  /-- The version of the program. -/
  | version
  /-- How the program is used. -/
  | help
  /-- A task. -/
  | request (request : Request)
  deriving DecidableEq, Repr

/-- What can be wrong with a command line. -/
inductive UsageError where
  /-- No task is named. -/
  | missingTask
  /-- A word that names no task. -/
  | unknownTask (word : String)
  /-- An option that is not known here. -/
  | unknownOption (word : String)
  /-- An option or flag that is given twice. -/
  | repeated (option : String)
  /-- An option without its value. -/
  | missingValue (option : String)
  /-- A value that an option does not take. -/
  | badValue (option value : String)
  /-- A subject too many. -/
  | surplus (word : String)
  /-- A subject is missing. -/
  | missingSubject
  deriving DecidableEq, Repr

namespace UsageError

/-- The wording of a usage error. -/
def message : UsageError → String
  | .missingTask => "error: a command is required"
  | .unknownTask word => "error: unrecognized command '" ++ word ++ "'"
  | .unknownOption word => "error: unexpected argument '" ++ word ++ "'"
  | .repeated option => "error: the argument '" ++ option ++ "' cannot be used multiple times"
  | .missingValue option => "error: a value is required for '" ++ option ++ "'"
  | .badValue option value => "error: invalid value '" ++ value ++ "' for '" ++ option ++ "'"
  | .surplus word => "error: unexpected argument '" ++ word ++ "'"
  | .missingSubject => "error: a required argument was not provided"

end UsageError

/-- The name of a task. -/
inductive TaskName where
  /-- Print the tree of an expression. -/
  | expr
  /-- Print the model of a project file. -/
  | model
  /-- Say what is at a position. -/
  | place
  deriving DecidableEq, Repr

namespace TaskName

/-- The task with a name. -/
def ofWord? : String → Option TaskName
  | "expr" => some .expr
  | "model" => some .model
  | "at" => some .place
  | _ => none

/-- Number of subjects. -/
def subjectCount : TaskName → Nat
  | .expr | .model => 1
  | .place => 2

end TaskName

/-- An option that takes a value. -/
inductive ValueOption where
  /-- The output format. -/
  | format
  /-- A settings file. -/
  | settings
  /-- What an expression is parsed as. -/
  | mode
  deriving DecidableEq, Repr

namespace ValueOption

/-- The long name of an option. -/
def longName : ValueOption → String
  | .format => "format"
  | .settings => "config"
  | .mode => "mode"

/-- The short name of an option. -/
def shortName : ValueOption → Char
  | .format => 'f'
  | .settings => 'c'
  | .mode => 'm'

/-- The options of a task. -/
def forTask : TaskName → List ValueOption
  | .expr => [.format, .settings, .mode]
  | .model | .place => [.format, .settings]

end ValueOption

/-- What has been read of a command line. -/
structure Given where
  /-- The subjects so far. -/
  subjects : List String
  /-- The output format. -/
  format : Option OutputFormat
  /-- The settings file. -/
  settingsPath : Option String
  /-- What an expression is parsed as. -/
  mode : Option Form
  /-- Whether ranges are asked for. -/
  ranges : Bool
  deriving DecidableEq, Repr

namespace Given

/-- Nothing yet. -/
def start : Given := ⟨[], none, none, none, false⟩

/-- Keeps a value that may be given once. -/
def once {α : Type} (option : ValueOption) (old : Option α) (value : α) :
    Except UsageError (Option α) :=
  match old with
  | some _ => .error (.repeated option.longName)
  | none => .ok (some value)

/-- A value that an option must know. -/
def known {α : Type} (option : ValueOption) (value : String) : Option α → Except UsageError α
  | some meaning => .ok meaning
  | none => .error (.badValue option.longName value)

/-- Takes the value of an option. -/
def setValue (given : Given) (option : ValueOption) (value : String) : Except UsageError Given := do
  match option with
  | .format =>
    let format ← once option given.format (← known option value (OutputFormat.ofName? value))
    return { given with format }
  | .settings =>
    let settingsPath ← once option given.settingsPath value
    return { given with settingsPath }
  | .mode =>
    let mode ← once option given.mode (← known option value (Form.ofTag? value))
    return { given with mode }

/-- Takes the flag that asks for ranges. -/
def setRanges (given : Given) : Except UsageError Given :=
  if given.ranges then .error (.repeated "ranges") else .ok { given with ranges := true }

/-- Takes a subject. -/
def addSubject (given : Given) (name : TaskName) (word : String) : Except UsageError Given :=
  if given.subjects.length < name.subjectCount then
    .ok { given with subjects := given.subjects ++ [word] }
  else .error (.surplus word)

/-- The request that was read, which must have all its subjects. -/
def finish (given : Given) (name : TaskName) : Except UsageError Invocation :=
  let request (task : Task) : Except UsageError Invocation :=
    .ok (.request ⟨task, given.format, given.ranges, given.settingsPath⟩)
  match name, given.subjects with
  | .expr, [text] => request (.expression text (given.mode.getD .root))
  | .model, [path] => request (.model path)
  | .place, [path, position] => request (.place path position)
  | _, _ => .error .missingSubject

end Given

/-- What a word is. -/
inductive Word where
  /-- The mark after which no word is an option. -/
  | stop
  /-- An option by its long name, with the value that is attached to it. -/
  | long (name : String) (attached : Option String)
  /-- An option by its short name, with all that follows it in the word. -/
  | short (name : Char) (rest : List Char)
  /-- Anything else. -/
  | plain
  deriving DecidableEq, Repr

namespace Word

/-- What a word is. A single hyphen is no option. -/
def classify (word : String) : Word :=
  match word.toList with
  | ['-', '-'] => .stop
  | '-' :: '-' :: name =>
    .long (String.ofList (name.takeWhile (· ≠ '='))) (match name.dropWhile (· ≠ '=') with
      | [] => none
      | _ :: value => some (String.ofList value))
  | '-' :: name :: rest => .short name rest
  | _ => .plain

/-- The value that is attached to a short name, with or without an equals sign. -/
def attachedTo : List Char → Option String
  | [] => none
  | '=' :: value => some (String.ofList value)
  | value => some (String.ofList value)

end Word

/-- Takes an option whose value is attached to it or is the next word; gives the words after it. -/
def takeOption (given : Given) (option : ValueOption) (attached : Option String)
    (rest : List String) : Except UsageError (Given × List String) :=
  match attached, rest with
  | some value, rest => (given.setValue option value).map fun given => (given, rest)
  | none, value :: rest =>
    if Word.classify value = .plain then
      (given.setValue option value).map fun given => (given, rest)
    else .error (.missingValue option.longName)
  | none, [] => .error (.missingValue option.longName)

/-- Takes all words as subjects. -/
def takeSubjects (name : TaskName) (given : Given) (words : List String) :
    Except UsageError Given :=
  words.foldlM (fun given word => given.addSubject name word) given

/-- Reads the words after the name of a task. An option takes one word or two, so `count` is no less
than the number of words. -/
def readWords (name : TaskName) : Nat → Given → List String → Except UsageError Invocation
  | _, given, [] => given.finish name
  | 0, _, word :: _ => .error (.surplus word)
  | count + 1, given, word :: rest => do
    match Word.classify word with
    | .stop => (← takeSubjects name given rest).finish name
    | .plain => readWords name count (← given.addSubject name word) rest
    | .long "help" none | .short 'h' _ => return .help
    | .long "ranges" none => readWords name count (← given.setRanges) rest
    | .long long attached =>
      match (ValueOption.forTask name).find? (·.longName = long) with
      | some option =>
        let (given, rest) ← takeOption given option attached rest
        readWords name count given rest
      | none => throw (.unknownOption word)
    | .short short attached =>
      match (ValueOption.forTask name).find? (·.shortName = short) with
      | some option =>
        let (given, rest) ← takeOption given option (Word.attachedTo attached) rest
        readWords name count given rest
      | none => throw (.unknownOption word)

/-- Whether words can follow the word that asks for help: none, a task or that word again. -/
def isHelpTopic : List String → Bool
  | [] => true
  | [word] => word = "help" || (TaskName.ofWord? word).isSome
  | _ => false

/-- Reads a command line. -/
def readArguments : List String → Except UsageError Invocation
  | [] => .error .missingTask
  | word :: rest =>
    match Word.classify word with
    | .stop => .error .missingTask
    | .long "version" none | .short 'V' _ => .ok .version
    | .long "help" none | .short 'h' _ => .ok .help
    | .long .. | .short .. => .error (.unknownOption word)
    | .plain =>
      match TaskName.ofWord? word with
      | some name => readWords name rest.length Given.start rest
      | none =>
        if word = "help" ∧ isHelpTopic rest then .ok .help
        else .error (.unknownTask word)

end ProjectLens
