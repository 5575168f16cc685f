import ProjectLens.Files
import ProjectLens.Settings.Environment
import ProjectLens.Settings.Reading
import ProjectLens.Settings.Toml
import ProjectLens.Text.Utf8

/-! # Where settings come from

Settings come from several layers: built-in values, settings files in the order they were asked for,
variables of the environment, and flags of the command line. Each layer is laid over the ones before
it, and variables and flags always come last, whenever they were given.

* `Loader`, and the calls that add layers to it;
* `Loader.build`: the settings. -/

namespace ProjectLens

/-- A settings file to be read. -/
structure SettingsFile where
  /-- Its path. -/
  path : String
  /-- Whether it must be there. -/
  required : Bool
  deriving DecidableEq, Repr

/-- The layers of settings, apart from the built-in values. -/
structure Loader where
  /-- The settings files in order. -/
  files : List SettingsFile
  /-- The variables of the environment. -/
  vars : List (String × String)
  /-- The output format asked for on the command line. -/
  format : Option OutputFormat
  /-- Whether ranges were asked for on the command line. -/
  ranges : Bool
  deriving DecidableEq, Repr

namespace SettingsFile

/-- The paths at which the file may stand: its own, and the one that the name of the format is added
to. A path that does not end in a name has no second one. -/
def candidates (file : SettingsFile) : List String :=
  match (namedParts file.path).getLast? with
  | none => [file.path]
  | some last => if last = ".." then [file.path] else [file.path, tidyPath file.path ++ ".toml"]

/-- The first path at which there is a file, and what there is to read of it. -/
def find? (files : Files) (file : SettingsFile) : Option (String × Except String (List UInt8)) :=
  file.candidates.findSome? fun path => (files path).file?.map fun contents => (path, contents)

/-- The bytes after a mark of the encoding. -/
def skipMark : List UInt8 → List UInt8
  | 0xEF :: 0xBB :: 0xBF :: rest => rest
  | bytes => bytes

/-- The settings in the file. A file that need not be there has none when it is missing or when the system
does not let it be read. -/
def read (files : Files) (file : SettingsFile) : Except SettingsError (List (String × Setting)) :=
  match file.find? files with
  | none => if file.required then .error (.fileNotFound file.path) else .ok []
  | some (_, .error reason) => if file.required then .error (.refusedFile reason) else .ok []
  | some (path, .ok bytes) =>
    let name := tidyPath path
    match Toml.read (some name) (Utf8.decodeLossily (skipMark bytes)) with
    | some settings => .ok settings
    | none => .error (.unreadableFile name)

end SettingsFile

namespace Loader

/-- The name of the settings file that is looked for in a folder. -/
def localName : String := "msbuild-inspect.toml"

/-- No layers but the variables. -/
def ofVariables (vars : List (String × String)) : Loader := ⟨[], vars, none, false⟩

/-- Adds the settings file of a folder, if there is one. -/
def localFile (loader : Loader) (folder : String) : Loader :=
  { loader with files := loader.files ++ [⟨joinPath folder localName, false⟩] }

/-- Adds a settings file, which must be there. -/
def userFile (loader : Loader) (path : String) : Loader :=
  { loader with files := loader.files ++ [⟨path, true⟩] }

/-- Takes other variables. -/
def environmentFrom (loader : Loader) (vars : List (String × String)) : Loader :=
  { loader with vars }

/-- Asks for an output format. -/
def outputFormat (loader : Loader) (format : OutputFormat) : Loader :=
  { loader with format := some format }

/-- Asks for ranges in outlines. -/
def showRanges (loader : Loader) : Loader := { loader with ranges := true }

/-- Lays the settings files over a table, one after the other. -/
def overlayFiles (files : Files) (root : Setting) :
    List SettingsFile → Except SettingsError Setting
  | [] => .ok root
  | file :: rest => do overlayFiles files (root.putAll (← file.read files)) rest

/-- The settings that flags stand for. -/
def flags (loader : Loader) : List (String × Setting) :=
  (match loader.format with
    | some format => [("output.format", .scalar none (.text format.name))]
    | none => []) ++
    if loader.ranges then [("output.show_ranges", .scalar none (.bool true))] else []

/-- The table of all layers. -/
def table (loader : Loader) (files : Files) : Except SettingsError Setting := do
  let root ← overlayFiles files Settings.defaults loader.files
  return (root.putAll (Environment.settings loader.vars)).putAll loader.flags

/-- The settings of all layers. -/
def build (loader : Loader) (files : Files) : Except SettingsError Settings := do
  Settings.read (← loader.table files)

/-- The paths that building settings may read. -/
def paths (loader : Loader) : List String := loader.files.flatMap SettingsFile.candidates

end Loader

end ProjectLens
