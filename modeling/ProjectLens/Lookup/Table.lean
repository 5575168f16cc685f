import ProjectLens.Lookup.Forest

/-! # The forest as rows of numbers

Flat storage for a forest: entries in stored order, the numbers of the members of each level in one
row, and beside them the latest end so far. The rows are laid out in one pass over the entries, with a
stack of those that may still contain what comes.

* `Lookup.Row`, `Row.push`: a level as stored;
* `Lookup.Pass.add`: one turn of the pass; `Table.ofStored`: the whole pass;
* `Level.row`, `Level.rowsBelow`, `Lookup.table`: the rows of a forest that is there already.

The rows are searched from the top level down. On each level halving finds the members that start at or
before the position, and a walk back from the last of them finds the first one that contains it.

* `Lookup.partitionPoint`: halving;
* `Table.walkBack`, `Table.containing`: the search on one level; `Table.findEntry`: all the way down. -/

namespace ProjectLens

namespace Lookup

/-- One level of the forest. -/
structure Row where
  /-- The numbers of the members. -/
  members : List Nat
  /-- For each member the latest end among it and the ones before it. -/
  reach : List Position
  deriving DecidableEq, Repr

namespace Row

/-- The level without members. -/
def empty : Row := ⟨[], []⟩

/-- Adds a member that ends at `stop` after all others. -/
def push (row : Row) (member : Nat) (stop : Position) : Row :=
  ⟨row.members ++ [member], row.reach ++ [match row.reach.getLast? with
    | none => stop
    | some reach => max reach stop]⟩

end Row

/-- Entries in stored order with the rows of their forest. -/
structure Table (α : Type) where
  /-- The ranges and what they stand for. -/
  entries : List (Range × α)
  /-- The top level. -/
  roots : Row
  /-- For each entry the level below it. -/
  below : List Row
  deriving Repr

/-- What is laid out of a forest after some of the entries. -/
structure Pass (α : Type) where
  /-- The top level. -/
  roots : Row
  /-- For each entry, also those to come, the level below it. -/
  below : List Row
  /-- The entries that may still contain what comes, the innermost one first. -/
  opened : List (Entry α)
  deriving Repr

namespace Pass

variable {α : Type}

/-- One turn: gives up the entries that do not contain the next one, and lays that out below the
innermost one left. -/
def add (pass : Pass α) (entry : Entry α) : Pass α :=
  match pass.opened.dropWhile fun top => !top.range.containsRange entry.range with
  | [] => ⟨pass.roots.push entry.index entry.range.stop, pass.below, [entry]⟩
  | parent :: outer =>
    ⟨pass.roots, pass.below.modify parent.index (·.push entry.index entry.range.stop),
      entry :: parent :: outer⟩

end Pass

namespace Table

variable {α : Type}

/-- Lays out the forest of entries in stored order. -/
def ofStored (entries : List (Entry α)) : Table α :=
  let pass := entries.foldl Pass.add ⟨.empty, List.replicate entries.length .empty, []⟩
  ⟨entries.map fun entry => (entry.range, entry.value), pass.roots, pass.below⟩

end Table

/-! ## The search -/

/-- What a search can run into. -/
inductive SearchFault where
  /-- The position cannot be counted from one. -/
  | position (error : PositionError)
  /-- There is nothing at a place of a row or at a number. -/
  | missing
  /-- There are more levels to go down than are allowed. -/
  | unfinished
  deriving DecidableEq, Repr

/-- What stands at a place. -/
def at? {β : Type} (row : List β) (place : Nat) : Except SearchFault β :=
  match row[place]? with
  | some b => .ok b
  | none => .error .missing

/-- The first place from `low` on, but not after `high`, at which a property does not hold any more,
found by halving. -/
def partitionPoint (holds : Nat → Except SearchFault Bool) (low high : Nat) : Except SearchFault Nat :=
  if low < high then
    let middle := low + (high - low) / 2
    match holds middle with
    | .error fault => .error fault
    | .ok true => partitionPoint holds (middle + 1) high
    | .ok false => partitionPoint holds low middle
  else .ok low
termination_by high - low

namespace Table

variable {α : Type}

/-- Whether the member at a place of a row starts at or before a position. -/
def startsBy (t : Table α) (row : Row) (p : Position) (place : Nat) : Except SearchFault Bool := do
  let member ← at? row.members place
  let entry ← at? t.entries member
  return entry.1.start ≤ p

/-- Goes back along a row, `place` members being left, to the first one that contains a position. Where
no member from there on back reaches the position the walk ends. -/
def walkBack (t : Table α) (row : Row) (p : Position) : Nat → Except SearchFault (Option Nat)
  | 0 => return none
  | place + 1 => do
    let reach ← at? row.reach place
    if reach < p then return none
    let member ← at? row.members place
    let entry ← at? t.entries member
    if entry.1.contains p then return some member
    walkBack t row p place

/-- The member of a row that contains a position and starts last. -/
def containing (t : Table α) (row : Row) (p : Position) : Except SearchFault (Option Nat) := do
  let upto ← partitionPoint (t.startsBy row p) 0 row.members.length
  t.walkBack row p upto

/-- Goes down from a level, at most some number of times, `found` being the member above it. -/
def descend (t : Table α) (p : Position) :
    Nat → Row → Option Nat → Except SearchFault (Option Nat)
  | 0, _, _ => .error .unfinished
  | turns + 1, row, found => do
    match ← t.containing row p with
    | none => return found
    | some member =>
      let below ← at? t.below member
      descend t p turns below (some member)

/-- The number of the innermost entry at a position, which may be in either basis. -/
def findNumber (t : Table α) (p : Position) : Except SearchFault (Option Nat) := do
  match p.toOneBased with
  | .error error => throw (.position error)
  | .ok p => t.descend p (t.entries.length + 1) t.roots none

/-- The innermost entry at a position, which may be in either basis. -/
def findEntry (t : Table α) (p : Position) : Except SearchFault (Option (Range × α)) := do
  match ← t.findNumber p with
  | none => return none
  | some number => return some (← at? t.entries number)

end Table

end Lookup

namespace Level

variable {α : Type}

/-- The members of a level. -/
def siblings : Level α → List (Entry α)
  | .nil => []
  | .snoc earlier entry _ _ => earlier.siblings ++ [entry]

/-- The reaches of a level. -/
def reaches : Level α → List Position
  | .nil => []
  | .snoc earlier _ _ reach => earlier.reaches ++ [reach]

/-- A level as stored. -/
def row (level : Level α) : Lookup.Row := ⟨level.siblings.map Entry.index, level.reaches⟩

/-- Each entry with the level below it, in stored order. -/
def families : Level α → List (Entry α × Level α)
  | .nil => []
  | .snoc earlier entry below _ => earlier.families ++ (entry, below) :: below.families

/-- For each entry the level below it as stored. -/
def rowsBelow (level : Level α) : List Lookup.Row := level.families.map fun family => family.2.row

end Level

/-- The entries and the forest of a lookup in flat form. -/
def Lookup.table {α : Type} (lookup : Lookup α) : Lookup.Table α :=
  ⟨lookup.entries.map fun entry => (entry.range, entry.value), lookup.roots.row,
    lookup.roots.rowsBelow⟩

end ProjectLens
