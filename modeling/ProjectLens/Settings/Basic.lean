import ProjectLens.Text.Position

/-! # The settings of the inspector

* `OutputFormat`, `Settings`;
* `SettingsError`: what can be wrong with them, with its wording. -/

namespace ProjectLens

/-- How results are printed. -/
inductive OutputFormat where
  /-- An outline. -/
  | outline
  /-- Structured data. -/
  | json
  deriving DecidableEq, Repr

namespace OutputFormat

/-- The name of a format. -/
def name : OutputFormat → String
  | .outline => "treeviz"
  | .json => "json"

/-- The format with a name. -/
def ofName? : String → Option OutputFormat
  | "treeviz" => some .outline
  | "json" => some .json
  | _ => none

end OutputFormat

/-- The settings of the inspector. -/
structure Settings where
  /-- Which messages go to the log. -/
  level : String
  /-- Whether single steps of the reader go to the log. -/
  traceReader : Bool
  /-- How positions on the command line are counted. -/
  inputBasis : Basis
  /-- How results are printed. -/
  format : OutputFormat
  /-- Whether outlines show ranges and spans. -/
  showRanges : Bool
  deriving DecidableEq, Repr

/-- What can be wrong with settings. -/
inductive SettingsError where
  /-- A value of the wrong kind: what it is, what it should be, its key, and where it was read. -/
  | wrongKind (found expected key : String) (origin : Option String)
  /-- A section that is neither a table nor a list. -/
  | wrongSection (found name : String)
  /-- A section given as a list that is too short. -/
  | shortSection (length : Nat) (name : String) (fields : Nat)
  /-- A section without one of its values. -/
  | missingField (field : String)
  /-- A name that is none of the choices. -/
  | unknownChoice (choice given : String)
  /-- A choice that is neither a name nor a table with one key. -/
  | wrongChoice (choice : String)
  /-- A settings file that is not there. -/
  | fileNotFound (name : String)
  /-- A settings file that the system does not let be read, for a reason that it gives. -/
  | refusedFile (reason : String)
  /-- A settings file that is not in the format of settings files. -/
  | unreadableFile (name : String)
  deriving DecidableEq, Repr

namespace SettingsError

/-- The wording of a settings error. -/
def message : SettingsError → String
  | .wrongKind found expected key origin =>
    "invalid type: " ++ found ++ ", expected " ++ expected ++ " for key `" ++ key ++ "`" ++
      match origin with
      | some file => " in " ++ file
      | none => ""
  | .wrongSection found name => "invalid type: " ++ found ++ ", expected struct " ++ name
  | .shortSection length name fields =>
    "invalid length " ++ toString length ++ ", expected struct " ++ name ++ " with " ++
      toString fields ++ (if fields = 1 then " element" else " elements")
  | .missingField field => "missing field `" ++ field ++ "`"
  | .unknownChoice choice given =>
    "enum " ++ choice ++ " does not have variant constructor " ++ given
  | .wrongChoice choice =>
    "value of enum " ++ choice ++
      " should be represented by either string or table with exactly one key"
  | .fileNotFound name => "configuration file \"" ++ name ++ "\" not found"
  | .refusedFile reason => reason
  | .unreadableFile name => "TOML parse error in " ++ name

/-- Puts a step before the key that a value of the wrong kind has. -/
def below (step : String) : SettingsError → SettingsError
  | .wrongKind found expected key origin =>
    .wrongKind found expected
      (step ++ (if key.isEmpty || key.toList.head? = some '[' then "" else ".") ++ key) origin
  | error => error

end SettingsError

end ProjectLens
