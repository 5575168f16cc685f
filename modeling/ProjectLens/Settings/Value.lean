import ProjectLens.Number.Shortest
import ProjectLens.Text.Lowercase

/-! # Values of settings

The settings of the inspector are a table of tables. Every value knows the file it was read from, so
that complaints can name it. Later values are laid over earlier ones.

* `Scalar`, `Setting`;
* `Setting.overlay`: lays a value over a member of a table, tables member by member;
* `Setting.put`: lays a value over what stands at the end of a path of steps. -/

namespace ProjectLens

/-- A value that has no parts. -/
inductive Scalar where
  /-- Nothing: a place in a list that was never filled. -/
  | nothing
  /-- A truth value. -/
  | bool (value : Bool)
  /-- A whole number. -/
  | integer (value : Int)
  /-- A number with a fraction. -/
  | real (value : Double)
  /-- A text. -/
  | text (value : String)
  deriving DecidableEq, Repr

/-- A value with the name of what it was read from. -/
inductive Setting where
  /-- A value without parts. -/
  | scalar (origin : Option String) (value : Scalar)
  /-- A list. -/
  | list (origin : Option String) (items : List Setting)
  /-- A table; its keys are all different. -/
  | table (origin : Option String) (members : List (String × Setting))
  deriving Repr

/-- One step from a value to one of its parts. -/
inductive Step where
  /-- To the member of a table with a key. -/
  | key (key : String)
  /-- To an item of a list, counted from its end when negative. -/
  | item (index : Int)
  deriving DecidableEq, Repr

/-- Sets the member of a table with a key. -/
def setMember (key : String) (value : Setting) : List (String × Setting) → List (String × Setting)
  | [] => [(key, value)]
  | (other, old) :: rest =>
    if other = key then (key, value) :: rest else (other, old) :: setMember key value rest

namespace Setting

/-- The file a value was read from. -/
def origin : Setting → Option String
  | .scalar origin _ => origin
  | .list origin _ => origin
  | .table origin _ => origin

/-- A place in a list that was never filled. -/
def nothing : Setting := .scalar none .nothing

/-- A table without members. -/
def emptyTable : Setting := .table none []

/-- The members of a table; what is no table has none. -/
def members : Setting → List (String × Setting)
  | .table _ members => members
  | _ => []

/-- The items of a list; what is no list has none. -/
def items : Setting → List Setting
  | .list _ items => items
  | _ => []

/-- The member of a table with a key. -/
def get? (setting : Setting) (key : String) : Option Setting := setting.members.lookup key

/-- Sets a member; what is no table becomes one. -/
def withMember (setting : Setting) (key : String) (value : Setting) : Setting :=
  match setting with
  | .table origin members => .table origin (setMember key value members)
  | _ => .table none [(key, value)]

mutual

/-- Lays a value over the member with a key, in small letters. Tables are laid over each other
member by member, so a table without members changes nothing; anything else replaces what was
there. -/
def overlay (root : Setting) (key : String) : Setting → Setting
  | .table _ members =>
    root.withMember (lowercase key)
      (overlayAll ((root.get? (lowercase key)).getD emptyTable) members)
  | value => root.withMember (lowercase key) value

/-- Lays members over those of a table. -/
def overlayAll (root : Setting) : List (String × Setting) → Setting
  | [] => root
  | (key, value) :: rest => overlayAll (overlay root key value) rest

end

/-- A list made long enough for an index, and the place the index stands for: past the end the list
is filled up behind, before the start in front. -/
def padFor (items : List Setting) (index : Int) : List Setting × Nat :=
  match index with
  | .ofNat place => (items ++ List.replicate (place + 1 - items.length) nothing, place)
  | .negSucc before =>
    if before < items.length then (items, items.length - (before + 1))
    else (List.replicate (before + 1 - items.length) nothing ++ items, 0)

/-- Changes an item; what is no list becomes one. -/
def withItem (setting : Setting) (index : Int) (change : Setting → Setting) : Setting :=
  let (padded, place) := padFor setting.items index
  let origin := match setting with
    | .list origin _ => origin
    | _ => none
  .list origin (padded.modify place change)

/-- Lays a value over what some steps lead to, keys being taken in small letters. What stands in the
way becomes a table or a list. -/
def put (value : Setting) : List Step → Setting → Setting
  | [], root => root
  | [.key key], root => root.overlay key value
  | [.item index], root => root.withItem index fun _ => value
  | .key key :: rest, root =>
    root.withMember (lowercase key) (put value rest ((root.get? (lowercase key)).getD nothing))
  | .item index :: rest, root => root.withItem index (put value rest)

end Setting

end ProjectLens
