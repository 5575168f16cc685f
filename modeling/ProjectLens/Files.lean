import ProjectLens.Text.Pieces

/-! # Files

What the inspector needs to know of the files around it: for each path, what reading it gives.

* `FileState`, `Files`;
* `Folder`: files held in memory by their paths, seen from the folder they are in. -/

namespace ProjectLens

/-- What reading a path gives. -/
inductive FileState where
  /-- The bytes of a file. -/
  | contents (bytes : List UInt8)
  /-- There is nothing. -/
  | missing
  /-- There is a folder. -/
  | folder
  /-- The path goes on below a file. -/
  | blocked
  /-- The file cannot be read, for a reason that the system gives. -/
  | refused (reason : String)
  deriving DecidableEq, Repr

namespace FileState

/-- What there is to read of a file, if there is one: its bytes, or why it cannot be read. -/
def file? : FileState → Option (Except String (List UInt8))
  | .contents bytes => some (.ok bytes)
  | .refused reason => some (.error reason)
  | _ => none

/-- Why a path cannot be read as a file, in the words of the system. -/
def reason : FileState → String
  | .contents _ => ""
  | .missing => "No such file or directory (os error 2)"
  | .folder => "Is a directory (os error 21)"
  | .blocked => "Not a directory (os error 20)"
  | .refused reason => reason

end FileState

/-- What reading each path gives. -/
abbrev Files := String → FileState

/-- The parts of a path between its slashes. -/
def pathParts (path : String) : List String := (pieces '/' path.toList).map String.ofList

/-- The parts of a path that name something: empty ones and single points stay where they are. -/
def namedParts (path : String) : List String :=
  (pathParts path).filter fun part => part ≠ "" ∧ part ≠ "."

/-- A path without parts that stay where they are. -/
def tidyPath (path : String) : String :=
  (if path.toList.head? = some '/' then "/" else "") ++ "/".intercalate (namedParts path)

/-- The path of a name in a folder. The path of the folder may be empty or end in a slash. -/
def joinPath (folder name : String) : String :=
  folder ++ (if folder.isEmpty || folder.toList.getLast? = some '/' then "" else "/") ++ name

/-- In no folder a name is a path: `joinPath "" name = name`. -/
@[simp] theorem joinPath_empty (name : String) : joinPath "" name = name := by
  simp [joinPath]

/-- A slash at the end of a folder is not doubled. -/
theorem joinPath_slash (folder name : String) :
    joinPath (folder ++ "/") name = folder ++ "/" ++ name := by
  have hlast : (folder ++ "/").toList.getLast? = some '/' := by simp
  rw [joinPath, hlast, decide_eq_true rfl, Bool.or_true, if_pos rfl, String.append_empty]

/-- Files held in memory, each by the parts of its path. -/
structure Folder where
  /-- The files. -/
  files : List (List String × List UInt8)

namespace Folder

/-- A folder with files by their paths. -/
def ofFiles (files : List (String × List UInt8)) : Folder :=
  ⟨files.map fun (path, bytes) => (namedParts path, bytes)⟩

/-- Whether some file is below a place. -/
def hasFolder (folder : Folder) (place : List String) : Bool :=
  folder.files.any fun (parts, _) => place.isPrefixOf parts && place.length < parts.length

/-- What following the parts of a path from a folder leads to. -/
def follow (folder : Folder) (here : List String) : List String → FileState
  | [] => .folder
  | part :: rest =>
    if part = "" ∨ part = "." then follow folder here rest
    else if part = ".." then
      if here.isEmpty then .missing else follow folder here.dropLast rest
    else
      let place := here ++ [part]
      match folder.files.lookup place with
      | some bytes => if rest.isEmpty then .contents bytes else .blocked
      | none => if folder.hasFolder place then follow folder place rest else .missing

/-- What reading a path gives, seen from the folder. Of other places only the topmost one is
known. -/
def state (folder : Folder) : Files := fun path =>
  if path.isEmpty then .missing
  else if path.toList.head? = some '/' then
    if (namedParts path).isEmpty then .folder else .missing
  else folder.follow [] (pathParts path)

end Folder

end ProjectLens
