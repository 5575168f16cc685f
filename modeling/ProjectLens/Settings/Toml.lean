import ProjectLens.Settings.Toml.Statement
import ProjectLens.Settings.Value

/-! # Settings files

Settings files are written in TOML. All tables are nested values in the end, and every value knows
the name of the file. -/

namespace ProjectLens.Toml

/-- What statements define, `current` being the path of the open table. -/
def define (current : List String) (members : Members) : List Statement → Option Members
  | [] => some members
  | .header path :: rest => (openTable path members).bind fun members => define path members rest
  | .itemHeader path :: rest => (addTable path members).bind fun members => define path members rest
  | .assignment path datum :: rest =>
    (descend (assign datum path) current members).bind fun members => define current members rest

mutual

/-- A value as a setting. -/
def Datum.toSetting (origin : Option String) : Datum → Setting
  | .text text => .scalar origin (.text text)
  | .integer n => .scalar origin (.integer n)
  | .real x => .scalar origin (.real x)
  | .boolean b => .scalar origin (.bool b)
  | .array items => .list origin (itemsToSettings origin items)
  | .table members => .table origin (membersToSettings origin members)

/-- The items of a list as settings. -/
def itemsToSettings (origin : Option String) : List Datum → List Setting
  | [] => []
  | item :: items => item.toSetting origin :: itemsToSettings origin items

/-- The members of a table as settings. -/
def membersToSettings (origin : Option String) : List (String × Datum) → List (String × Setting)
  | [] => []
  | (key, datum) :: rest => (key, datum.toSetting origin) :: membersToSettings origin rest

end

/-- The settings in a text, by key; none when the text cannot be read. -/
def read (origin : Option String) (text : String) : Option (List (String × Setting)) := do
  let members ← define [] [] (← statements text)
  return membersToSettings origin (toData members)

end ProjectLens.Toml
