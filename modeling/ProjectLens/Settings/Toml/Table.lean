import ProjectLens.Number.Double

/-! # The tables of a settings file

Headers and assignments together define tables. A table may be defined once: by a header, by a value
between braces, or by keys of several parts, which may add to it as long as the table they stand in
is open. A list of tables may be made by headers, one for each table; only its last table can still
be added to.

* `Toml.Datum`: the values of the format;
* `Toml.Item`: what a key stands for while tables are being defined;
* `Toml.assign`, `Toml.openTable`, `Toml.addTable`: what assignments and headers do. -/

namespace ProjectLens.Toml

/-- A value. -/
inductive Datum where
  /-- A text. -/
  | text (value : String)
  /-- A whole number. -/
  | integer (value : Int)
  /-- A number with a fraction or an exponent. -/
  | real (value : Double)
  /-- A truth value. -/
  | boolean (value : Bool)
  /-- A list. -/
  | array (items : List Datum)
  /-- A table between braces. -/
  | table (members : List (String × Datum))
  deriving Repr

/-- How a table came about. -/
inductive Defined where
  /-- A header opened it. -/
  | byHeader
  /-- The header of a table in it named it. -/
  | byInnerHeader
  /-- A key of several parts named it. -/
  | byKey
  deriving DecidableEq, Repr

/-- What a key stands for while tables are being defined. -/
inductive Item where
  /-- A value. -/
  | value (datum : Datum)
  /-- A table. -/
  | table (defined : Defined) (members : List (String × Item))
  /-- A list of tables, `last` being the members of the last one. -/
  | tables (earlier : List Datum) (last : List (String × Item))
  deriving Repr

/-- The members of a table while it is being defined. -/
abbrev Members := List (String × Item)

/-- Sets a member. -/
def setItem (key : String) (item : Item) : Members → Members
  | [] => [(key, item)]
  | (other, old) :: rest =>
    if other = key then (key, item) :: rest else (other, old) :: setItem key item rest

mutual

/-- What a key stands for once all tables are defined. -/
def Item.toDatum : Item → Datum
  | .value datum => datum
  | .table _ members => .table (toData members)
  | .tables earlier last => .array (earlier ++ [.table (toData last)])

/-- `Item.toDatum` for members. -/
def toData : List (String × Item) → List (String × Datum)
  | [] => []
  | (key, item) :: rest => (key, item.toDatum) :: toData rest

end

/-- Gives a value to a key, which must not have one. All but the last part of the key name tables;
these must not have been opened by a header, and the last of them must have come about by such
keys. -/
def assign (datum : Datum) : List String → Members → Option Members
  | [], _ => none
  | [key], members =>
    if (members.lookup key).isSome then none else some (setItem key (.value datum) members)
  | key :: next :: rest, members =>
    match members.lookup key with
    | none =>
      (assign datum (next :: rest) []).map fun inner => setItem key (.table .byKey inner) members
    | some (.value _) => none
    | some (.table defined inner) =>
      if defined = .byHeader ∨ (rest = [] ∧ defined ≠ .byKey) then none
      else
        (assign datum (next :: rest) inner).map fun inner =>
          setItem key (.table defined inner) members
    | some (.tables earlier last) =>
      if rest = [] then none
      else
        (assign datum (next :: rest) last).map fun last =>
          setItem key (.tables earlier last) members

/-- Changes the members of the table at a path. Tables on the way come about unless they are
there. -/
def descend (change : Members → Option Members) : List String → Members → Option Members
  | [], members => change members
  | key :: rest, members =>
    match members.lookup key with
    | none =>
      (descend change rest []).map fun inner => setItem key (.table .byInnerHeader inner) members
    | some (.table defined inner) =>
      (descend change rest inner).map fun inner => setItem key (.table defined inner) members
    | some (.tables earlier last) =>
      (descend change rest last).map fun last => setItem key (.tables earlier last) members
    | some (.value _) => none

/-- Opens a table, which must not have been defined. -/
def openMember (key : String) (members : Members) : Option Members :=
  match members.lookup key with
  | none => some (setItem key (.table .byHeader []) members)
  | some (.table .byInnerHeader inner) => some (setItem key (.table .byHeader inner) members)
  | some _ => none

/-- Adds a table to a list of tables, which comes about unless it is there. -/
def addMember (key : String) (members : Members) : Option Members :=
  match members.lookup key with
  | none => some (setItem key (.tables [] []) members)
  | some (.tables earlier last) =>
    some (setItem key (.tables (earlier ++ [.table (toData last)]) []) members)
  | some _ => none

/-- Does something at the last part of a path, which has to have one. -/
def atLast (change : String → Members → Option Members) (path : List String)
    (members : Members) : Option Members :=
  path.getLast?.bind fun key => descend (change key) path.dropLast members

/-- Opens the table at a path. -/
def openTable : List String → Members → Option Members := atLast openMember

/-- Adds a table to the list of tables at a path. -/
def addTable : List String → Members → Option Members := atLast addMember

/-- Gives values to keys, one after the other. -/
def assignAll : List (List String × Datum) → Members → Option Members
  | [], members => some members
  | (path, datum) :: rest, members => (assign datum path members).bind (assignAll rest)

/-- The table that assignments between braces define. -/
def Datum.ofAssignments (assignments : List (List String × Datum)) : Option Datum :=
  (assignAll assignments []).map fun members => .table (toData members)

end ProjectLens.Toml
