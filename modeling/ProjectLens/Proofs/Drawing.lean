import ProjectLens.Outline

/-! # What an outline looks like

An outline is drawn with a stack: the next outline on it gives a line, and those below it go on top of
the stack, with a margin that was worked out when their parent was drawn. The lines that come of this
can be told from the tree alone. A node is known by its path, the places among siblings that lead down
to it, and what stands left of it depends on which nodes on that path have siblings that come later.

* `Outline.drawing`, `Outline.layout_eq`: the drawing by recursion, and that the stack gives it;
* `Outline.at?`, `Outline.paths`: nodes by their paths, and the paths of all nodes in preorder;
* `Outline.rule`, `Outline.row`: what stands left of a node, and its line;
* `Outline.draw_eq_rows`: the drawing of an outline is the lines of its nodes;
* `Outline.items`, `Outline.draw_eq_lines`: the items in preorder, each with its line;
* `Outline.rulesAll`, `Outline.join_draw`: the same for several outlines. -/

namespace ProjectLens.Outline

variable {α : Type}

/-! ## The drawing by recursion -/

mutual

/-- The drawing of an outline behind a margin, by recursion. -/
def drawing (render : α → String) (margin : String) (last : Option Bool) : Outline α → String
  | .node item children =>
    connector margin last ++ render item ++ "\n" ++
      drawingAll render (innerMargin margin last) children

/-- The drawing of all outlines below one item. -/
def drawingAll (render : α → String) (margin : String) : List (Outline α) → String
  | [] => ""
  | outline :: rest =>
    drawing render margin (some rest.isEmpty) outline ++ drawingAll render margin rest

end

/-- Outlines that wait together are drawn together. -/
theorem join_map_queue (render : α → String) (margin : String) (outlines : List (Outline α)) :
    String.join ((queue margin outlines).map fun w => drawing render w.margin w.last w.outline) =
      drawingAll render margin outlines := by
  induction outlines with
  | nil => rfl
  | cons outline rest ih => rw [queue, List.map_cons, String.join_cons, ih, drawingAll]

/-- **The stack gives the drawing by recursion**: whatever waits is drawn behind what is drawn already,
each outline on its own. -/
theorem layout_eq (render : α → String) (drawn : String) (waiting : List (Waiting α)) :
    layout render drawn waiting = drawn ++
      String.join (waiting.map fun w => drawing render w.margin w.last w.outline) := by
  fun_induction layout render drawn waiting with
  | case1 drawn => simp
  | case2 drawn item children margin last waiting ih =>
    rw [ih, List.map_append, String.join_append, join_map_queue, List.map_cons, String.join_cons,
      drawing]
    simp only [String.append_assoc]

/-- `draw render outline = drawing render "" none outline`: the loop over the explicit stack draws
what the recursion draws. -/
theorem draw_eq_drawing (render : α → String) (outline : Outline α) :
    draw render outline = drawing render "" none outline := by
  rw [draw, layout_eq]
  simp

/-! ## Nodes by their paths -/

/-- The item on top. -/
def root : Outline α → α
  | .node item _ => item

/-- The outlines directly below. -/
def children : Outline α → List (Outline α)
  | .node _ children => children

/-- The outline at the end of a path: every step goes to the child at a place. -/
def at? (outline : Outline α) : List Nat → Option (Outline α)
  | [] => some outline
  | place :: path => outline.children[place]?.bind fun child => child.at? path

mutual

/-- The paths of all nodes in preorder. -/
def paths : Outline α → List (List Nat)
  | .node _ children => [] :: pathsFrom 0 children

/-- The paths that lead through siblings, the first of which is at a place. -/
def pathsFrom (place : Nat) : List (Outline α) → List (List Nat)
  | [] => []
  | outline :: rest => outline.paths.map (place :: ·) ++ pathsFrom (place + 1) rest

end

/-- The paths through siblings lead to one of them and on in its outline. -/
theorem mem_pathsFrom {first : Nat} {path : List Nat} {outlines : List (Outline α)} :
    path ∈ pathsFrom first outlines ↔ ∃ place child, outlines[place]? = some child ∧
      ∃ inner ∈ child.paths, path = (first + place) :: inner := by
  induction outlines generalizing first with
  | nil => simp [pathsFrom]
  | cons outline rest ih =>
    rw [pathsFrom, List.mem_append, List.mem_map, ih]
    constructor
    · rintro (⟨inner, hinner, rfl⟩ | ⟨place, child, hchild, inner, hinner, rfl⟩)
      · exact ⟨0, outline, rfl, inner, hinner, rfl⟩
      · exact ⟨place + 1, child, hchild, inner, hinner, by rw [Nat.add_assoc, Nat.add_comm 1]⟩
    · rintro ⟨place, child, hchild, inner, hinner, rfl⟩
      cases place with
      | zero =>
        cases hchild
        exact .inl ⟨inner, hinner, rfl⟩
      | succ place => exact .inr ⟨place, child, hchild, inner, hinner, by
          rw [Nat.add_assoc, Nat.add_comm 1]⟩

/-- **Every node has its path.** -/
theorem mem_paths {path : List Nat} {outline : Outline α} :
    path ∈ outline.paths ↔ (outline.at? path).isSome = true := by
  induction path generalizing outline with
  | nil =>
    obtain ⟨item, outlines⟩ := outline
    simp [paths, at?]
  | cons place path ih =>
    obtain ⟨item, outlines⟩ := outline
    -- the first place of a path chooses the child, the others are a path in it
    rw [paths, List.mem_cons, mem_pathsFrom, at?, children]
    cases hchild : outlines[place]? with
    | none =>
      simp only [reduceCtorEq, false_or, Option.bind_none, Option.isSome_none, Bool.false_eq_true,
        iff_false]
      rintro ⟨other, child, hother, inner, -, heq⟩
      rw [Nat.zero_add] at heq
      obtain ⟨rfl, -⟩ := List.cons.inj heq
      cases hchild.symm.trans hother
    | some child =>
      rw [Option.bind_some, ← ih]
      constructor
      · rintro (hnil | ⟨other, found, hfound, inner, hinner, heq⟩)
        · cases hnil
        · rw [Nat.zero_add] at heq
          obtain ⟨rfl, rfl⟩ := List.cons.inj heq
          obtain rfl : child = found := Option.some.inj (hchild.symm.trans hfound)
          exact hinner
      · exact fun hpath => .inr ⟨place, child, hchild, path, hpath, by rw [Nat.zero_add]⟩

/-- A path to a child is not empty. -/
theorem ne_nil_of_mem {first : Nat} {path : List Nat} {outlines : List (Outline α)}
    (h : path ∈ pathsFrom first outlines) : path ≠ [] := by
  obtain ⟨place, child, -, inner, -, rfl⟩ := mem_pathsFrom.mp h
  exact List.cons_ne_nil _ _

mutual

/-- **Paths stand in the order of a dictionary**: a node before those below it, and siblings in
order. -/
theorem pairwise_paths : (outline : Outline α) → outline.paths.Pairwise (· < ·)
  | .node item outlines => by
    rw [paths, List.pairwise_cons]
    refine ⟨fun path hpath => ?_, pairwise_pathsFrom 0 outlines⟩
    obtain ⟨place, inner, rfl⟩ := List.exists_cons_of_ne_nil (ne_nil_of_mem hpath)
    exact List.nil_lt_cons _ _

/-- The paths below a node come in lexicographic order. -/
theorem pairwise_pathsFrom (first : Nat) : (outlines : List (Outline α)) →
    (pathsFrom first outlines).Pairwise (· < ·)
  | [] => .nil
  | outline :: rest => by
    rw [pathsFrom, List.pairwise_append, List.pairwise_map]
    refine ⟨(pairwise_paths outline).imp fun hlt => List.cons_lt_cons_self.mpr hlt,
      pairwise_pathsFrom (first + 1) rest, fun path hpath other hother => ?_⟩
    obtain ⟨inner, -, rfl⟩ := List.mem_map.mp hpath
    obtain ⟨place, child, -, inner, -, rfl⟩ := mem_pathsFrom.mp hother
    exact List.Lex.rel (by omega)

end

/-- Whether the node at the end of a path has a sibling that comes later. -/
def hasLater (outline : Outline α) (path : List Nat) : Bool :=
  path.getLast?.any fun place => (outline.at? (path.dropLast ++ [place + 1])).isSome

/-- **What stands left of a node**: nothing left of the topmost one. For any other there is a cell for
each node on the way to it, with a rule in it where that node has a sibling that comes later, and then a
connector, which is a corner at the last sibling. -/
def rule (outline : Outline α) (path : List Nat) : String :=
  if path = [] then ""
  else
    String.join ((List.range (path.length - 1)).map fun above =>
      if outline.hasLater (path.take (above + 1)) then "│ " else "  ") ++
    if outline.hasLater path then "├─ " else "└─ "

/-- **The line of a node**, with its end. -/
def row (render : α → String) (outline : Outline α) (path : List Nat) : String :=
  outline.rule path ++ ((outline.at? path).map fun found => render found.root).getD "" ++ "\n"

/-- `outline.rule [] = ""`: the root has no connector. -/
@[simp] theorem rule_nil (outline : Outline α) : outline.rule [] = "" := if_pos rfl

section Rows

variable {item : α} {outlines : List (Outline α)} {child : Outline α} {place : Nat}
  {path : List Nat}

/-- `(node item outlines).at? (place :: path) = child.at? path` for the child at `place`. -/
theorem at?_cons (hchild : outlines[place]? = some child) :
    (node item outlines).at? (place :: path) = child.at? path := by
  rw [at?, children, hchild, Option.bind_some]

/-- A child has later siblings if it is not the last. -/
theorem hasLater_single :
    (node item outlines).hasLater [place] = decide (place + 1 < outlines.length) := by
  have hat : (node item outlines).at? [place + 1] = outlines[place + 1]? := by simp [at?, children]
  show ((node item outlines).at? [place + 1]).isSome = _
  rw [hat, Bool.eq_iff_iff]
  simp

/-- Whether something further down has later siblings is the child's own matter. -/
theorem hasLater_cons (hchild : outlines[place]? = some child) (hpath : path ≠ []) :
    (node item outlines).hasLater (place :: path) = child.hasLater path := by
  rw [hasLater, hasLater, List.getLast?_cons_of_ne_nil hpath, List.dropLast_cons_of_ne_nil hpath]
  simp only [List.cons_append, at?_cons hchild]

/-- What stands left of a child is its connector. -/
theorem rule_single : (node item outlines).rule [place] =
    if place + 1 < outlines.length then "├─ " else "└─ " := by
  simp [rule, hasLater_single]

/-- **What stands left of a node further down** is the cell of the child on the way to it, and then what
stands left of it in the outline of that child. -/
theorem rule_cons (hchild : outlines[place]? = some child) (hpath : path ≠ []) :
    (node item outlines).rule (place :: path) =
      (if place + 1 < outlines.length then "│ " else "  ") ++ child.rule path := by
  obtain ⟨first, rest, rfl⟩ := List.exists_cons_of_ne_nil hpath
  -- the first cell is that of the child, and the others are those in its outline
  have hcells (above : Nat) : (node item outlines).hasLater (place :: (first :: rest).take (above + 1)) =
      child.hasLater ((first :: rest).take (above + 1)) :=
    hasLater_cons hchild (by simp)
  rw [rule, rule, if_neg (List.cons_ne_nil _ _), if_neg (List.cons_ne_nil _ _),
    hasLater_cons hchild (List.cons_ne_nil _ _), List.length_cons, Nat.add_sub_cancel, List.length_cons,
    Nat.add_sub_cancel, List.range_succ_eq_map, List.map_cons, List.map_map, String.join_cons,
    String.append_assoc]
  congr 1
  · simp only [List.take_succ_cons, List.take_zero, hasLater_single, decide_eq_true_eq]
  · congr 2
    apply List.map_congr_left
    intro above _
    show (if (node item outlines).hasLater (place :: (first :: rest).take (above + 1)) then _ else _) = _
    rw [hcells]

end Rows

/-! ## The drawing is the lines -/

/-- The line of a node of an outline that is drawn behind a margin. -/
def rowBehind (render : α → String) (margin : String) (last : Option Bool) (outline : Outline α)
    (path : List Nat) : String :=
  (if path = [] then connector margin last else innerMargin margin last) ++ outline.row render path

/-- In the outline of an item, what is below it is drawn behind its connector or its cell. -/
theorem row_cons {render : α → String} {item : α} {before rest : List (Outline α)} {child : Outline α}
    (margin : String) (path : List Nat) :
    margin ++ (node item (before ++ child :: rest)).row render (before.length :: path) =
      rowBehind render margin (some rest.isEmpty) child path := by
  have hchild : (before ++ child :: rest)[before.length]? = some child := by simp
  -- a child has a sibling that comes later unless it is the last one
  have hlater : before.length + 1 < (before ++ child :: rest).length ↔ ¬ rest.isEmpty = true := by
    rw [List.length_append, List.length_cons, List.isEmpty_iff, ← List.length_eq_zero_iff]
    omega
  rw [row, rowBehind, row, at?_cons hchild]
  by_cases hpath : path = []
  · subst hpath
    simp only [rule_nil, rule_single, if_pos, connector, hlater, ite_not, String.append_assoc,
      String.empty_append]
  · simp only [rule_cons hchild hpath, if_neg hpath, innerMargin, hlater, ite_not, String.append_assoc]

mutual

/-- **The drawing of an outline is the lines of its nodes**, behind its margin. -/
theorem drawing_eq_rows (render : α → String) (margin : String) (last : Option Bool) :
    (outline : Outline α) → drawing render margin last outline =
      String.join (outline.paths.map (rowBehind render margin last outline))
  | .node item outlines => by
    rw [drawing, drawingAll_eq_rows render _ item [] outlines, paths, List.map_cons, String.join_cons]
    congr 1
    · rw [rowBehind, if_pos rfl, row, rule_nil, String.empty_append, String.append_assoc]
      rfl
    · congr 1
      apply List.map_congr_left
      intro path hpath
      rw [rowBehind, if_neg (ne_nil_of_mem hpath)]
      rfl

/-- The drawing below a node is the rows of the paths below it, the margin in front of each. -/
theorem drawingAll_eq_rows (render : α → String) (margin : String) (item : α)
    (before : List (Outline α)) : (outlines : List (Outline α)) →
    drawingAll render margin outlines = String.join ((pathsFrom before.length outlines).map fun path =>
      margin ++ (node item (before ++ outlines)).row render path)
  | [] => rfl
  | outline :: rest => by
    have hrest := drawingAll_eq_rows render margin item (before ++ [outline]) rest
    rw [List.length_append, List.length_singleton, List.append_assoc, List.singleton_append] at hrest
    rw [drawingAll, drawing_eq_rows render margin _ outline, hrest, pathsFrom, List.map_append,
      String.join_append, List.map_map]
    congr 2
    apply List.map_congr_left
    intro path _
    exact (row_cons margin path).symm

end

/-- **The drawing of an outline is the lines of its nodes in preorder.** -/
theorem draw_eq_rows (render : α → String) (outline : Outline α) :
    outline.draw render = String.join (outline.paths.map (outline.row render)) := by
  rw [draw_eq_drawing, drawing_eq_rows]
  congr 1
  apply List.map_congr_left
  intro path _
  rw [rowBehind, connector, innerMargin, ite_self, String.empty_append]

/-! ## Items in preorder -/

mutual

/-- The items of an outline in preorder. -/
def items : Outline α → List α
  | .node item children => item :: itemsAll children

/-- The items of several outlines. -/
def itemsAll : List (Outline α) → List α
  | [] => []
  | outline :: rest => outline.items ++ itemsAll rest

end

mutual

/-- **The items stand in the order of their paths.** -/
theorem map_root_paths : (outline : Outline α) →
    outline.paths.map (fun path => (outline.at? path).map root) = outline.items.map some
  | .node item outlines => by
    rw [paths, List.map_cons, items, List.map_cons]
    exact congrArg (some item :: ·) (map_root_pathsFrom item [] outlines)

/-- The items at the paths below a node are its items, in order. -/
theorem map_root_pathsFrom (item : α) (before : List (Outline α)) :
    (outlines : List (Outline α)) → (pathsFrom before.length outlines).map
      (fun path => ((node item (before ++ outlines)).at? path).map root) =
        (itemsAll outlines).map some
  | [] => rfl
  | outline :: rest => by
    have hchild : (before ++ outline :: rest)[before.length]? = some outline := by simp
    have hrest := map_root_pathsFrom item (before ++ [outline]) rest
    rw [List.length_append, List.length_singleton, List.append_assoc, List.singleton_append] at hrest
    rw [pathsFrom, List.map_append, List.map_map, hrest, itemsAll, List.map_append,
      ← map_root_paths outline]
    congr 1
    apply List.map_congr_left
    intro path _
    rw [Function.comp_apply, at?_cons hchild]

end

/-- `outline.paths.length = outline.items.length`. -/
theorem length_paths (outline : Outline α) : outline.paths.length = outline.items.length := by
  simpa using congrArg List.length (map_root_paths outline)

/-- **Every item has its line**, in preorder. -/
theorem draw_eq_lines (render : α → String) (outline : Outline α) :
    outline.draw render = String.join (List.zipWith (fun path item =>
      outline.rule path ++ render item ++ "\n") outline.paths outline.items) := by
  rw [draw_eq_rows]
  congr 1
  apply List.ext_getElem
  · simp [length_paths]
  · intro i hi hi'
    have hitem := congrArg (fun found => found[i]?) (map_root_paths outline)
    simp only [List.length_map] at hi
    have hlt : i < outline.items.length := length_paths outline ▸ hi
    simp only [List.getElem?_map, List.getElem?_eq_getElem hi, List.getElem?_eq_getElem hlt,
      Option.map_some, Option.some.injEq] at hitem
    obtain ⟨found, hfound, hroot⟩ := Option.map_eq_some_iff.mp hitem
    rw [List.getElem_map, List.getElem_zipWith, row, hfound, ← hroot]
    rfl

/-! ## Several outlines -/

/-- What stands left of the items of several outlines. -/
def rulesAll (outlines : List (Outline α)) : List String :=
  outlines.flatMap fun outline => outline.paths.map outline.rule

/-- **Several outlines are drawn item by item.** -/
theorem join_draw (render : α → String) (outlines : List (Outline α)) :
    String.join (outlines.map (draw render)) = String.join (List.zipWith (fun rule item =>
      rule ++ render item ++ "\n") (rulesAll outlines) (itemsAll outlines)) := by
  induction outlines with
  | nil => rfl
  | cons outline rest ih =>
    have hrules : rulesAll (outline :: rest) = outline.paths.map outline.rule ++ rulesAll rest := rfl
    rw [List.map_cons, String.join_cons, ih, draw_eq_lines, hrules, itemsAll,
      List.zipWith_append (by rw [List.length_map, length_paths]), String.join_append,
      List.zipWith_map_left]

/-- `(rulesAll outlines).length = (itemsAll outlines).length`. -/
theorem length_rulesAll (outlines : List (Outline α)) :
    (rulesAll outlines).length = (itemsAll outlines).length := by
  induction outlines with
  | nil => rfl
  | cons outline rest ih =>
    rw [rulesAll, List.flatMap_cons, List.length_append, List.length_map, length_paths, itemsAll,
      List.length_append, ← ih, rulesAll]

/-- Nothing that stands left of a node breaks its line. -/
theorem unbroken_rule (outline : Outline α) (path : List Nat) : '\n' ∉ (outline.rule path).toList := by
  rw [rule]
  split
  · simp
  · rw [String.toList_append, List.mem_append, String.toList_join, not_or]
    constructor
    · intro hmem
      obtain ⟨cell, hcell, hmem⟩ := List.mem_flatMap.mp hmem
      obtain ⟨above, -, rfl⟩ := List.mem_map.mp hcell
      split at hmem <;> simp at hmem
    · split <;> simp

/-- No connector has a line break. -/
theorem unbroken_rulesAll (outlines : List (Outline α)) :
    ∀ rule ∈ rulesAll outlines, '\n' ∉ rule.toList := by
  intro rule hrule
  obtain ⟨outline, -, hrule⟩ := List.mem_flatMap.mp hrule
  obtain ⟨path, -, rfl⟩ := List.mem_map.mp hrule
  exact unbroken_rule outline path

end ProjectLens.Outline
