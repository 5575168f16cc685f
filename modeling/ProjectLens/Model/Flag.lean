/-! # Parts of nodes that a position falls on

A set of flags says which parts of a node a position falls on. Several may hold together.

* `Flag`, with the weight and the name of each;
* `Flags`: a set of them. -/

namespace ProjectLens

/-- One part of a node, or one thing to be said of it. -/
inductive Flag where
  /-- On an element, or on text in it. -/
  | element
  /-- In the start tag of an element. -/
  | openingTag
  /-- In the end tag of an element. -/
  | closingTag
  /-- On an attribute. -/
  | attribute
  /-- Among the attributes of an element. -/
  | attributes
  /-- On a name. -/
  | name
  /-- On a value: that of an attribute, or what stands between tags. -/
  | value
  /-- On text. -/
  | text
  /-- On blanks. -/
  | whitespace
  /-- The element closes itself. -/
  | empty
  /-- The parts of the node could not be told apart. -/
  | invalid
  deriving DecidableEq, Repr

namespace Flag

/-- All flags, in the order they are listed in. -/
def all : List Flag :=
  [.element, .openingTag, .closingTag, .attribute, .attributes, .name, .value, .text, .whitespace,
    .empty, .invalid]

/-- The weight of a flag in a set written as a number. -/
def weight : Flag → Nat
  | .element => 1
  | .openingTag => 2
  | .closingTag => 4
  | .attribute => 8
  | .attributes => 16
  | .name => 32
  | .value => 64
  | .text => 128
  | .whitespace => 256
  | .empty => 1024
  | .invalid => 2048

/-- The name of a flag. -/
def label : Flag → String
  | .element => "element"
  | .openingTag => "opening-tag"
  | .closingTag => "closing-tag"
  | .attribute => "attribute"
  | .attributes => "attributes"
  | .name => "name"
  | .value => "value"
  | .text => "text"
  | .whitespace => "whitespace"
  | .empty => "empty"
  | .invalid => "invalid"

/-- The flag with a name. -/
def ofLabel? (label : String) : Option Flag := all.find? (·.label = label)

end Flag

/-- A set of flags. -/
structure Flags where
  /-- Its members; order and repetition mean nothing. -/
  members : List Flag
  deriving Repr

namespace Flags

/-- Whether a flag is set. -/
def has (flags : Flags) (flag : Flag) : Bool := flags.members.contains flag

/-- Whether every flag of another set is set. -/
def contains (flags other : Flags) : Bool := other.members.all flags.has

/-- The flags that are set, in the order they are listed in. -/
def listed (flags : Flags) : List Flag := Flag.all.filter flags.has

/-- Whether no flag is set. -/
def isEmpty (flags : Flags) : Bool := flags.members.isEmpty

/-- The set as a number. -/
def bits (flags : Flags) : Nat := flags.listed.foldr (fun flag bits => flag.weight + bits) 0

/-- The names of the flags that are set. -/
def display (flags : Flags) : String :=
  if flags.isEmpty then "none" else " | ".intercalate (flags.listed.map Flag.label)

end Flags

end ProjectLens
