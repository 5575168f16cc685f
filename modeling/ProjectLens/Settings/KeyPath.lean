import ProjectLens.Number.Literal
import ProjectLens.Settings.Value

/-! # Keys that are paths

The key of a setting may lead into tables and lists: `output.format`, `output[0]`. A key that is no
such path stands for itself. -/

namespace ProjectLens

/-- Whether a character may stand in a part of a key path. -/
def isKeyChar (c : Char) : Bool := c.isAlphanum || c = ' ' || c = '_' || c = '-'

/-- Whether a character may stand around an index. -/
def isIndexBlank (c : Char) : Bool := c = ' ' || c = '\t'

/-- The index between two brackets, with blanks around it. It must fit into 64 bits. -/
def readIndex (inside : List Char) : Option Int :=
  let bare := ((inside.dropWhile isIndexBlank).reverse.dropWhile isIndexBlank).reverse
  if bare.head? = some '+' then none else readInteger bare

/-- The steps that follow the first part of a key path. Every step takes at least one character, so
`count` is no less than the number of characters. -/
def laterSteps : Nat → List Char → Option (List Step)
  | _, [] => some []
  | count + 1, '.' :: rest =>
    let name := rest.takeWhile isKeyChar
    if name.isEmpty then none
    else (laterSteps count (rest.dropWhile isKeyChar)).map (.key (String.ofList name) :: ·)
  | count + 1, '[' :: rest =>
    match rest.dropWhile (· ≠ ']') with
    | [] => none
    | _ :: after =>
      match readIndex (rest.takeWhile (· ≠ ']')) with
      | some index => (laterSteps count after).map (.item index :: ·)
      | none => none
  | _, _ => none

/-- The steps of a key path. -/
def keySteps? (key : String) : Option (List Step) :=
  let chars := key.toList
  let name := chars.takeWhile isKeyChar
  if name.isEmpty then none
  else (laterSteps chars.length (chars.dropWhile isKeyChar)).map (.key (String.ofList name) :: ·)

/-- The steps a key stands for. -/
def keySteps (key : String) : List Step := (keySteps? key).getD [.key key]

/-- Lays values over a table, each at the steps its key stands for. -/
def Setting.putAll (root : Setting) (values : List (String × Setting)) : Setting :=
  values.foldl (fun root (key, value) => Setting.put value (keySteps key) root) root

end ProjectLens
