/-! # Sets of characters given by their boundaries

A property of characters is stored as the increasing list of code points at which it changes: it
does not hold before the first one, holds from the first to the second, and so on. -/

namespace ProjectLens

/-- A set of characters, given by the code points where membership changes. -/
structure CharSet where
  /-- Increasing; membership starts out as `false`. -/
  boundaries : List Nat
  deriving Repr

namespace CharSet

/-- Membership of a code point among the remaining boundaries, `inside` holding before the first. -/
def holdsFrom (inside : Bool) : List Nat → Nat → Bool
  | [], _ => inside
  | boundary :: rest, code => if code < boundary then inside else holdsFrom (!inside) rest code

/-- Whether a character is in the set. -/
def contains (set : CharSet) (c : Char) : Bool := holdsFrom false set.boundaries c.toNat

end CharSet

end ProjectLens
