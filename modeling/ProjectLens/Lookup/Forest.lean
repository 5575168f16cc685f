import ProjectLens.Text.Range

/-! # Finding the innermost range at a position

A lookup answers which of many closed ranges is the most specific one at a position. The ranges are
arranged once into a containment forest: sorted by start, longer ones first, each placed below the
last range of the level that still contains it.

At each level the answer is the containing member that starts last, so where two ranges touch, the
one that begins there wins; among identical ranges the one added last is the innermost.

* `Entry`: a range with its payload, counted from one, and its place in the sorted order;
* `Level`: the members of one level of the forest, each with the level below it and the farthest end
  reached so far;
* `Lookup.ofEntries`, `Lookup.findEntry`. -/

namespace ProjectLens

/-- A range with what it stands for. -/
structure Entry (α : Type) where
  /-- Place in the stored order. -/
  index : Nat
  /-- The range, counted from one. -/
  range : Range
  /-- What the range stands for. -/
  value : α
  deriving Repr

/-- One level of the forest, read from its last member back. -/
inductive Level (α : Type) where
  /-- No member. -/
  | nil
  /-- A member after `earlier` ones, with the level below it; `reach` is the latest end among it and
  the earlier members. -/
  | snoc (earlier : Level α) (entry : Entry α) (below : Level α) (reach : Position)
  deriving Repr

namespace Level

variable {α : Type}

/-- The latest end among the members, if there are any. -/
def reach? : Level α → Option Position
  | .nil => none
  | .snoc _ _ _ reach => some reach

/-- Adds a member after all others. -/
def push (level : Level α) (entry : Entry α) : Level α :=
  .snoc level entry .nil <| match level.reach? with
    | none => entry.range.stop
    | some reach => max reach entry.range.stop

/-- Places an entry that starts no earlier than all others: below the last member if that contains
it, and otherwise after it. -/
def place (entry : Entry α) : Level α → Level α
  | .nil => push .nil entry
  | .snoc earlier last below reach =>
    if last.range.containsRange entry.range then .snoc earlier last (place entry below) reach
    else push (.snoc earlier last below reach) entry

/-- The innermost entry at a position: from the last member back, the first one that contains it,
and then the same below that member. Once no earlier member reaches the position the walk ends. -/
def find? (p : Position) : Level α → Option (Entry α)
  | .nil => none
  | .snoc earlier entry below reach =>
    if p < entry.range.start then find? p earlier
    else if reach < p then none
    else if entry.range.contains p then some ((find? p below).getD entry)
    else find? p earlier

/-- The entries in stored order: a member, what is below it, then the next member. -/
def toList : Level α → List (Entry α)
  | .nil => []
  | .snoc earlier entry below _ => earlier.toList ++ entry :: below.toList

end Level

/-- Entries in stored order together with their forest. -/
structure Lookup (α : Type) where
  /-- By start, longer ranges first, identical ranges in the order they were given. -/
  entries : List (Entry α)
  /-- The top level of the forest. -/
  roots : Level α
  deriving Repr

namespace Lookup

variable {α : Type}

/-- Whether a range may stand before another in the stored order: it starts earlier, or starts
together with it and does not end earlier. -/
def storedBefore (a b : Range) : Bool := a.start < b.start ∨ (a.start = b.start ∧ b.stop ≤ a.stop)

/-- The lookup over ranges that are counted from one already. -/
def ofOneBased (ranges : List (Range × α)) : Lookup α :=
  let sorted := ranges.mergeSort fun a b => storedBefore a.1 b.1
  let entries := sorted.mapIdx fun index entry => ⟨index, entry.1, entry.2⟩
  ⟨entries, entries.foldl (fun level entry => level.place entry) .nil⟩

/-- The lookup over ranges in either basis. -/
def ofEntries (ranges : List (Range × α)) : Except PositionError (Lookup α) := do
  let recounted ← ranges.mapM fun (range, value) => do return ((← range.toOneBased), value)
  return ofOneBased recounted

/-- Number of entries. -/
def size (lookup : Lookup α) : Nat := lookup.entries.length

/-- The innermost entry at a position, which may be in either basis. -/
def findEntry (lookup : Lookup α) (p : Position) : Except PositionError (Option (Entry α)) := do
  let p ← p.toOneBased
  return lookup.roots.find? p

/-- What the innermost range at a position stands for. -/
def find (lookup : Lookup α) (p : Position) : Except PositionError (Option α) := do
  return (← lookup.findEntry p).map Entry.value

end Lookup

end ProjectLens
