/-! # Outlines

An outline draws a tree of items, one a line: below an item those that belong to it, each behind a
connector, and further left a rule for every item around it that has more to come beside it.

* `Outline`: the tree of items to draw; `Outline.grow`: the one that numbered items make up;
* `Outline.layout`: draws what waits on a stack, one line after the other; `Outline.draw`;
* `Outline.line`: a line from an icon, a label that is cut when long, and a detail. -/

namespace ProjectLens

/-- A tree of items. -/
inductive Outline (α : Type) where
  /-- An item with the outlines below it. -/
  | node (item : α) (children : List (Outline α))
  deriving Repr

namespace Outline

/-- The greatest number of characters of a label. -/
def labelWidth : Nat := 30

/-- A label cut to its greatest width, with dots where it was cut. -/
def clip (label : String) : String :=
  let chars := label.toList
  if labelWidth < chars.length then String.ofList (chars.take labelWidth) ++ "..." else label

/-- One line: icon, label, detail. -/
def line (icon label : String) (detail : Option String) : String :=
  icon ++ " " ++ clip label ++
    match detail with
    | some detail => " " ++ detail
    | none => ""

section Layout

variable {α : Type}

/-- The outline of the item with a number. Items know those below them by their numbers, which are
greater than their own, so this ends. -/
def grow (get? : Nat → Option α) (below : α → List Nat) (size id : Nat) : Option (Outline α) :=
  (get? id).map fun item =>
    .node item ((below item).filterMap fun next =>
      if id < next ∧ next < size then grow get? below size next else none)
termination_by size - id

mutual

/-- Number of items. -/
def size : Outline α → Nat
  | .node _ children => sizeAll children + 1

/-- Number of items of several outlines. -/
def sizeAll : List (Outline α) → Nat
  | [] => 0
  | outline :: rest => outline.size + sizeAll rest

end

/-- An outline that waits to be drawn. -/
structure Waiting (α : Type) where
  /-- The outline. -/
  outline : Outline α
  /-- What is drawn left of it. -/
  margin : String
  /-- Whether nothing comes after it among those below one item; the topmost outline is below none. -/
  last : Option Bool

/-- The outlines below one item, in order, with the same margin. -/
def queue (margin : String) : List (Outline α) → List (Waiting α)
  | [] => []
  | outline :: rest => ⟨outline, margin, some rest.isEmpty⟩ :: queue margin rest

/-- What is drawn before the item of an outline. -/
def connector (margin : String) : Option Bool → String
  | none => ""
  | some last => margin ++ if last then "└─ " else "├─ "

/-- What is drawn left of the outlines below an item. -/
def innerMargin (margin : String) : Option Bool → String
  | none => margin
  | some last => margin ++ if last then "  " else "│ "

/-- The outlines of a queue are those it was made of. -/
theorem map_outline_queue (margin : String) (outlines : List (Outline α)) :
    (queue margin outlines).map Waiting.outline = outlines := by
  induction outlines with
  | nil => rfl
  | cons outline rest ih => rw [queue, List.map_cons, ih]

/-- `sizeAll (outlines ++ others) = sizeAll outlines + sizeAll others`. -/
theorem sizeAll_append (outlines others : List (Outline α)) :
    sizeAll (outlines ++ others) = sizeAll outlines + sizeAll others := by
  induction outlines with
  | nil => simp [sizeAll]
  | cons outline rest ih => rw [List.cons_append, sizeAll, sizeAll, ih, Nat.add_assoc]

/-- Draws the outlines that wait, behind what is drawn already. What is below an item comes next, so
it is put before all that waits. Every line takes an item away, so this ends. -/
def layout (render : α → String) (drawn : String) : List (Waiting α) → String
  | [] => drawn
  | ⟨.node item children, margin, last⟩ :: waiting =>
    layout render (drawn ++ connector margin last ++ render item ++ "\n")
      (queue (innerMargin margin last) children ++ waiting)
termination_by waiting => sizeAll (waiting.map Waiting.outline)
decreasing_by
  rw [List.map_append, map_outline_queue, sizeAll_append, List.map_cons, sizeAll, size]
  omega

/-- The drawing of an outline, one line per item in preorder. -/
def draw (render : α → String) (outline : Outline α) : String :=
  layout render "" [⟨outline, "", none⟩]

end Layout

end Outline

/-- Whether a named option is on: it is given, and not as `false`. -/
def isOn (options : List (String × String)) (name : String) : Bool :=
  match options.lookup name with
  | some value => value ≠ "false"
  | none => false

end ProjectLens
