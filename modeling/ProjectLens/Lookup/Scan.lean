import ProjectLens.Lookup.Forest

/-! # Finding the innermost range by scanning

The plain form of the lookup's rule: look at every entry in the order of its range and keep the best
one so far. Where any two ranges are nested, disjoint or touching it answers as the forest does. -/

namespace ProjectLens.Lookup

variable {α : Type}

/-- Whether a range may stand before another when sorted by start, then end. -/
def scannedBefore (a b : Range) : Bool := a.order b ≠ .gt

/-- Goes through entries, `best` being the best one so far. An entry that contains the position
replaces it when it lies inside it or starts later. The scan ends at a range that reaches further
than the best one without containing the position. -/
def scanFrom (p : Position) (best : Option (Entry α)) : List (Entry α) → Option (Entry α)
  | [] => best
  | entry :: rest =>
    if p < entry.range.start then scanFrom p best rest
    else match best with
      | none => scanFrom p (if entry.range.contains p then some entry else none) rest
      | some current =>
        if current.range.stop < entry.range.stop ∧ entry.range.contains p = false then some current
        else if entry.range.contains p ∧
            (current.range.containsRange entry.range ∨ current.range.start < entry.range.start) then
          scanFrom p (some entry) rest
        else scanFrom p (some current) rest

/-- The entry that the scan over all entries ends with. -/
def scanEntry (lookup : Lookup α) (p : Position) : Except PositionError (Option (Entry α)) := do
  let p ← p.toOneBased
  return scanFrom p none (lookup.entries.mergeSort fun a b => scannedBefore a.range b.range)

end ProjectLens.Lookup
