import ProjectLens.Settings.Basic
import ProjectLens.Settings.Value
import ProjectLens.Text.Quoted

/-! # Reading settings from a table

The settings are three sections of a table. Values are read leniently: texts and numbers can stand
for truth values, and a section can be a list of its values in order.

* `readBool`, `readText`, `Choice.read`: single values;
* `readOne`, `readTwo`: sections;
* `Settings.read`: all settings;
* `Settings.defaults`: the built-in ones. -/

namespace ProjectLens

/-- What a value is, in words. -/
def Setting.describe : Setting → String
  | .scalar _ .nothing => "unit value"
  | .scalar _ (.bool b) => "boolean `" ++ toString b ++ "`"
  | .scalar _ (.integer n) => "integer `" ++ toString n ++ "`"
  | .scalar _ (.real x) => "floating point `" ++ x.pointedText ++ "`"
  | .scalar _ (.text text) => "string " ++ Quoted.ofText text
  | .list .. => "sequence"
  | .table .. => "map"

/-- Refuses a value of the wrong kind. -/
def refuse {α : Type} (setting : Setting) (expected : String) : Except SettingsError α :=
  .error (.wrongKind setting.describe expected "" setting.origin)

/-- A truth value: numbers other than zero are true, and so are some texts in any letter case. -/
def readBool (setting : Setting) : Except SettingsError Bool :=
  match setting with
  | .scalar _ (.bool b) => .ok b
  | .scalar _ (.integer n) => .ok (n ≠ 0)
  | .scalar _ (.real x) => .ok (!x.isZero)
  | .scalar origin (.text text) =>
    let word := lowercase text
    if ["1", "true", "on", "yes"].contains word then .ok true
    else if ["0", "false", "off", "no"].contains word then .ok false
    else refuse (.scalar origin (.text word)) "a boolean"
  | _ => refuse setting "a boolean"

/-- A text: truth values and numbers as they are written. -/
def readText (setting : Setting) : Except SettingsError String :=
  match setting with
  | .scalar _ (.text text) => .ok text
  | .scalar _ (.bool b) => .ok (toString b)
  | .scalar _ (.integer n) => .ok (toString n)
  | .scalar _ (.real x) => .ok x.text
  | _ => refuse setting "a string"

/-- A set of named choices. -/
structure Choice (α : Type) where
  /-- What the choice is called. -/
  name : String
  /-- The names and what they stand for. -/
  options : List (String × α)

/-- One of some choices by its name in any letter case, or by a table whose only key is the name. -/
def Choice.read {α : Type} (choice : Choice α) (setting : Setting) : Except SettingsError α :=
  let named (given : String) : Except SettingsError α :=
    match choice.options.find? fun (name, _) => lowercase name = lowercase given with
    | some (_, value) => .ok value
    | none => .error (.unknownChoice choice.name given)
  match setting with
  | .scalar _ (.text given) => named given
  | .table _ [(given, _)] => named given
  | _ => .error (.wrongChoice choice.name)

/-- The output formats as choices. -/
def OutputFormat.choice : Choice OutputFormat :=
  ⟨"OutputFormat", [("treeviz", .outline), ("json", .json)]⟩

/-- The bases of positions as choices. -/
def Basis.choice : Choice Basis := ⟨"InputBasis", [("one-based", .one), ("zero-based", .zero)]⟩

/-- A section of settings. -/
structure SectionForm where
  /-- The key of the section. -/
  key : String
  /-- What the section is called. -/
  name : String
  /-- Number of its values. -/
  size : Nat

/-- One value of a section: how complaints name its place, what it is if it is there, and what is
wrong if it is not. -/
structure Slot where
  /-- The step to it. -/
  step : String
  /-- The value. -/
  value : Option Setting
  /-- What is wrong without it. -/
  absent : SettingsError

namespace Slot

/-- Reads the value if it is there. -/
def readIf {α : Type} (slot : Slot) (read : Setting → Except SettingsError α) :
    Except SettingsError (Option α) :=
  match slot.value with
  | none => .ok none
  | some setting => ((read setting).mapError (·.below slot.step)).map some

/-- What was read, which must be there. -/
def demand {α : Type} (slot : Slot) (found : Option α) : Except SettingsError α :=
  match found with
  | some value => .ok value
  | none => .error slot.absent

end Slot

/-- One value of a section, by its key when the section is a table and by its place when it is a
list. -/
def SectionForm.slot (form : SectionForm) (setting : Setting) (place : Nat) (key : String) :
    Except SettingsError Slot :=
  match setting with
  | .table _ members => .ok ⟨key, members.lookup key, .missingField key⟩
  | .list _ items =>
    .ok ⟨"[" ++ toString place ++ "]", items[place]?,
      .shortSection items.length form.name form.size⟩
  | .scalar .. => .error (.wrongSection setting.describe form.name)

/-- A value of a section: its key and how it is read. -/
structure Field (α : Type) where
  /-- The key. -/
  key : String
  /-- How it is read. -/
  read : Setting → Except SettingsError α

/-- Reads a section of two values. Those that are there are read before one that is not is
missed. -/
def readTwo {α β : Type} (form : SectionForm) (first : Field α) (second : Field β)
    (setting : Setting) : Except SettingsError (α × β) := do
  let one ← form.slot setting 0 first.key
  let two ← form.slot setting 1 second.key
  let a ← one.readIf first.read
  let b ← two.readIf second.read
  return (← one.demand a, ← two.demand b)

/-- Reads a section of one value. -/
def readOne {α : Type} (form : SectionForm) (only : Field α) (setting : Setting) :
    Except SettingsError α := do
  let slot ← form.slot setting 0 only.key
  slot.demand (← slot.readIf only.read)

/-- Reads a section of a table by its key. -/
def readSection {α : Type} (root : Setting) (form : SectionForm)
    (read : SectionForm → Setting → Except SettingsError α) : Except SettingsError α :=
  match root.get? form.key with
  | some setting => (read form setting).mapError (·.below form.key)
  | none => .error (.missingField form.key)

namespace Settings

/-- Reads all settings from a table. -/
def read (root : Setting) : Except SettingsError Settings := do
  let (level, traceReader) ← readSection root ⟨"logging", "LoggingConfig", 2⟩
    (readTwo · ⟨"level", readText⟩ ⟨"trace_reader", readBool⟩)
  let inputBasis ← readSection root ⟨"positions", "PositionsConfig", 1⟩
    (readOne · ⟨"input_basis", Basis.choice.read⟩)
  let (format, showRanges) ← readSection root ⟨"output", "OutputConfig", 2⟩
    (readTwo · ⟨"format", OutputFormat.choice.read⟩ ⟨"show_ranges", readBool⟩)
  return { level, traceReader, inputBasis, format, showRanges }

/-- The table of built-in settings. -/
def defaults : Setting :=
  let text (value : String) : Setting := .scalar none (.text value)
  let flag (value : Bool) : Setting := .scalar none (.bool value)
  .table none
    [("logging", .table none [("level", text "warn"), ("trace_reader", flag false)]),
      ("positions", .table none [("input_basis", text "one-based")]),
      ("output", .table none [("format", text "treeviz"), ("show_ranges", flag false)])]

end Settings

end ProjectLens
