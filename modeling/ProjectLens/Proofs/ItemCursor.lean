import ProjectLens.Proofs.ListSlots

/-! # The list item at a cursor

The search for the item at a cursor starts at the last child that does not begin behind it. Where that
child is a separator, the side of its semicolon decides between its two neighbours. In a list, items and
separators alternate without gaps, so the answer can be said without the search: it is the item that has
as many separators in front of it as there are semicolons before the cursor.

* `ListRow`: the children of a list of either kind;
* `exists_listRow`: every list that parses has them;
* `Settles`, `exists_settles`: what the search finds in such a row;
* `itemAt_counts`: the item at every cursor. -/

namespace ProjectLens

open SimpleList

/-! ## Rows of items and separators -/

/-- Where the semicolon of a separator stands. -/
def ListChild.semicolon (child : ListChild) : Nat :=
  match child.kind with
  | .separator shift => child.span.start + shift
  | _ => child.span.start

/-- A separator's `;` does not come before the separator. -/
theorem ListChild.start_le_semicolon (child : ListChild) : child.span.start ≤ child.semicolon := by
  unfold ListChild.semicolon
  split <;> omega

/-- **The child is a separator** with its semicolon in it. -/
structure ListChild.Separates (child : ListChild) (chars : List Char) : Prop where
  /-- It is no item. -/
  isItem : child.kind.isItem = false
  /-- Its semicolon belongs to it. -/
  inside : child.semicolon < child.span.stop
  /-- There is a semicolon. -/
  char : chars[child.semicolon]? = some ';'

/-- **Items and separators in turn**, end to end from one offset to another. -/
inductive ListRow (chars : List Char) : Nat → List ListChild → Nat → Prop where
  /-- The last item. -/
  | last {item : ListChild} : item.kind.isItem = true → item.span.start ≤ item.span.stop →
      ListRow chars item.span.start [item] item.span.stop
  /-- An item, and the separator after it. -/
  | step {item separator : ListChild} {children : List ListChild} {stop : Nat} :
      item.kind.isItem = true → item.span.start ≤ item.span.stop → separator.Separates chars →
      separator.span.start = item.span.stop → ListRow chars separator.span.stop children stop →
      ListRow chars item.span.start (item :: separator :: children) stop

/-- A separator that is spelled out has its semicolon in it. -/
theorem ListChild.separates_of_spelled {child : ListChild} {chars before after : List Char}
    (hkind : child.kind = .separator before.length)
    (hchars : charsOf chars child.span = before ++ ';' :: after) : child.Separates chars := by
  have hsemicolon : child.semicolon = child.span.start + before.length := by
    rw [ListChild.semicolon, hkind]
  have hlength := length_charsOf_le chars child.span
  rw [hchars, List.length_append, List.length_cons, Span.length] at hlength
  refine ⟨by rw [hkind]; rfl, by omega, ?_⟩
  have hchar : (charsOf chars child.span)[before.length]? = some ';' := by
    rw [hchars, List.getElem?_append_right (Nat.le_refl _), Nat.sub_self]
    rfl
  rw [charsOf, List.getElem?_take] at hchar
  split at hchar
  · rw [List.getElem?_drop] at hchar
    rw [hsemicolon]
    exact hchar
  · cases hchar

namespace ListRow

variable {chars : List Char} {start stop : Nat} {children : List ListChild}

/-- Children of a list in turn are a row. -/
theorem of_inTurn (h : InTurn chars start children stop) : ListRow chars start children stop := by
  induction h with
  | last hslot => exact .last hslot.isItem hslot.ordered
  | step hslot hseparator htouches _ ih =>
    obtain ⟨before, after, hkind, hchars, -⟩ := hseparator.spelled
    exact .step hslot.isItem hslot.ordered (ListChild.separates_of_spelled hkind hchars) htouches ih

/-- A child that is an item of the list has an item's kind. -/
theorem isItem_of_isItem {child : ListChild} {piece : List Char} (h : child.IsItem chars piece) :
    child.kind.isItem = true := by
  rw [h.kind]
  split <;> rfl

/-- Children that alternate are a row, to the end of the text. -/
theorem of_alternates {k : Nat} {pieces : List (List Char)}
    (h : Alternates chars k start pieces children) : ListRow chars start children chars.length := by
  induction h with
  | last hitem hstart hordered hstop =>
    rw [← hstart, ← hstop]
    exact .last (isItem_of_isItem hitem) hordered
  | step hitem hstart hordered hseparator htouches _ _ ih =>
    obtain ⟨before, after, hchars, hoffset, -⟩ := hseparator.spelled
    have hkind := hseparator.kind
    rw [← hoffset] at hkind
    rw [← hstart]
    exact .step (isItem_of_isItem hitem) hordered (ListChild.separates_of_spelled hkind hchars)
      htouches ih

/-- A row begins with its first item. -/
theorem exists_first (h : ListRow chars start children stop) :
    ∃ first rest, children = first :: rest ∧ first.kind.isItem = true ∧ first.span.start = start := by
  cases h with
  | last hitem _ => exact ⟨_, _, rfl, hitem, rfl⟩
  | step hitem _ _ _ _ => exact ⟨_, _, rfl, hitem, rfl⟩

/-- Every child of a row starts behind the row's start. -/
theorem start_le (h : ListRow chars start children stop) :
    ∀ child ∈ children, start ≤ child.span.start := by
  induction h with
  | last _ _ => simp
  | step _ hordered hseparator htouches _ ih =>
    have hlt := Nat.lt_of_le_of_lt (ListChild.start_le_semicolon _) hseparator.inside
    refine List.forall_mem_cons.mpr ⟨Nat.le_refl _, List.forall_mem_cons.mpr ⟨by omega, ?_⟩⟩
    intro child hchild
    have := ih child hchild
    omega

/-- `ListRow chars start children stop → start ≤ stop`. -/
theorem le (h : ListRow chars start children stop) : start ≤ stop := by
  induction h with
  | last _ hordered => exact hordered
  | step _ hordered hseparator htouches _ ih =>
    have hlt := Nat.lt_of_le_of_lt (ListChild.start_le_semicolon _) hseparator.inside
    omega

/-- A child of a row that is no item separates. -/
theorem separates (h : ListRow chars start children stop) :
    ∀ child ∈ children, child.kind.isItem = false → child.Separates chars := by
  induction h with
  | last hitem _ => simp [hitem]
  | step hitem _ hseparator _ _ ih =>
    refine List.forall_mem_cons.mpr ⟨fun hkind => ?_, List.forall_mem_cons.mpr ⟨fun _ => hseparator, ih⟩⟩
    rw [hitem] at hkind
    cases hkind

end ListRow

/-- **The children of every list that parses**: they alternate over the text. Only in a list of
expressions can there be anything before the first one, and then it is white space before an item that
is not empty. -/
theorem exists_listRow {form : Form} {text : String} {expr : Expr} (hform : form ≠ .root)
    (h : parseExpr form text = .ok expr) :
    (expr.kind = .list ∨ expr.kind = .simpleList) ∧ ∃ start stop, ListRow text.toList start
      (expr.children.map Expr.asChild) stop ∧ stop ≤ text.length ∧
      (0 < start → form = .list ∧ (∀ c ∈ charsOf text.toList ⟨0, start⟩, Token.isSpace c = true) ∧
        ∀ first ∈ (expr.children.map Expr.asChild).head?,
          first.kind ≠ .emptyItem ∧ first.span.start < first.span.stop) := by
  cases form with
  | root => exact absurd rfl hform
  | list =>
    obtain ⟨parts, hparts, rfl⟩ := parseExpr_list_eq_ok.mp h
    obtain ⟨start, stop, hturn, hstop, hfront, -, hempty⟩ := Grammar.exists_inTurn hparts
    have hrow := ListRow.of_inTurn hturn
    refine ⟨.inl rfl, start, stop, hrow, hstop, fun hpos => ⟨rfl, hfront, ?_⟩⟩
    intro first hfirst
    obtain ⟨first', rest, hchildren, -, hstart⟩ := hrow.exists_first
    have hslot := hturn.isSlot (k := 0) (List.head?_eq_getElem? ▸ hfirst)
    rw [hchildren] at hfirst
    obtain rfl : first' = first := Option.some.inj hfirst
    -- an empty first item would be at the start of the text
    have hkind : first'.kind ≠ .emptyItem := by
      intro hkind
      have hspan := hempty first' (by rw [hchildren]; rfl) hkind
      rw [← hstart, hspan] at hpos
      exact Nat.lt_irrefl 0 hpos
    have hne := mt hslot.emptyItem_iff.mpr hkind
    have hle := hslot.ordered
    exact ⟨hkind, by omega⟩
  | simpleList =>
    rw [parseExpr, Grammar.simpleList_parse] at h
    cases h
    have hsemicolons : semicolonSpans (lex text) = semicolonsFrom 0 text.toList :=
      semicolonSpans_lexFrom 0 text.toList
    have hrow := ListRow.of_alternates (alternates_simpleListExpr text.toList)
    rw [← hsemicolons] at hrow
    refine ⟨.inr rfl, 0, text.toList.length, hrow, Nat.le_of_eq String.length_toList, fun hpos => ?_⟩
    exact absurd hpos (Nat.lt_irrefl 0)

/-! ## The search -/

namespace ExprTree

variable {before after nodes : List ExprNode} {candidate item first : ExprNode} {offset : Nat}

/-- Near an item is that item. -/
theorem itemNear_of_isItem (h : candidate.kind.isItem = true) :
    itemNear before after candidate offset = .ok (some candidate) := by
  unfold itemNear
  split
  · next shift hkind =>
    rw [hkind] at h
    cases h
  · rfl

/-- On a separator, the side of the semicolon decides. -/
theorem itemNear_of_separator (h : candidate.kind.isItem = false)
    (hlength : candidate.asChild.semicolon ≤ Position.greatest) :
    itemNear before after candidate offset =
      .ok (if offset ≤ candidate.asChild.semicolon then before.reverse.find? (·.kind.isItem)
        else after.find? (·.kind.isItem)) := by
  cases hkind : candidate.kind with
  | separator shift =>
    have hsemicolon : candidate.asChild.semicolon = candidate.start + shift := by
      rw [ListChild.semicolon, show candidate.asChild.kind = .separator shift from hkind]
      rfl
    rw [hsemicolon] at hlength ⊢
    have hadd : Position.add candidate.start shift = .ok (candidate.start + shift) := if_pos hlength
    unfold itemNear
    rw [hkind]
    simp only [hadd, bind, Except.bind]
    split <;> rfl
  | _ =>
    rw [hkind] at h
    cases h

/-- **What the search finds** among some nodes: it starts at the last node that does not begin behind
the cursor. -/
inductive Settles (offset : Nat) : List ExprNode → ExprNode → Prop where
  /-- The only form. -/
  | intro (before : List ExprNode) {after : List ExprNode} {candidate item : ExprNode} :
      candidate.start ≤ offset → (∀ node ∈ after, offset < node.start) →
      itemNear before after candidate offset = .ok (some item) →
      Settles offset (before ++ candidate :: after) item

/-- Where the search finds something, nodes in front make no difference. -/
theorem Settles.cons (h : Settles offset nodes item) (first : ExprNode) :
    Settles offset (first :: nodes) item := by
  obtain ⟨before, hcandidate, hafter, hnear⟩ := h
  rename_i after candidate
  refine .intro (first :: before) hcandidate hafter ?_
  unfold itemNear at hnear ⊢
  split at hnear
  · next shift hkind =>
    cases hadd : Position.add candidate.start shift with
    | error _ =>
      rw [hadd] at hnear
      cases hnear
    | ok semicolon =>
      simp only [hadd, bind, Except.bind] at hnear ⊢
      -- the item before a separator is sought from the end, so one more in front does not matter
      by_cases hside : offset ≤ semicolon
      · rw [if_pos hside] at hnear ⊢
        have hfind := Except.ok.inj hnear
        rw [List.reverse_cons, List.find?_append, hfind]
        rfl
      · rwa [if_neg hside] at hnear ⊢
  · exact hnear

/-- **The search starts from the last node that does not begin behind the cursor.** -/
theorem itemAt_of_settles {tree : ExprTree} {root : ExprNode} (hroot : tree.root? = some root)
    (hlist : isList root = true) (h : Settles offset (tree.childrenOf root) item) :
    tree.itemAt offset = .ok (some item) := by
  generalize hnodes : tree.childrenOf root = nodes at h
  obtain ⟨before, hcandidate, hafter, hnear⟩ := h
  rename_i after candidate
  have hlater : ∀ node ∈ after.reverse, decide (offset < node.start) = true := by
    intro node hnode
    exact decide_eq_true (hafter node (List.mem_reverse.mp hnode))
  have hstops : ¬ decide (offset < candidate.start) = true := by
    rw [decide_eq_true_eq]
    omega
  -- from the end on, children that start later are passed over
  have hdrop : (before ++ candidate :: after).reverse.dropWhile
      (fun child => decide (offset < child.start)) = candidate :: before.reverse := by
    rw [List.reverse_append, List.reverse_cons, List.append_assoc,
      List.dropWhile_append_of_pos hlater, List.singleton_append,
      List.dropWhile_cons_of_neg (p := fun child : ExprNode => decide (offset < child.start)) hstops]
  unfold itemAt
  rw [hroot]
  simp only [if_pos hlist, hnodes, hdrop]
  rw [List.reverse_reverse, List.length_reverse, ← List.singleton_append, ← List.append_assoc,
    List.drop_left' (by simp)]
  exact hnear

/-- A cursor before all children belongs to none. -/
theorem itemAt_of_lt {tree : ExprTree} {root : ExprNode} (hroot : tree.root? = some root)
    (h : ∀ child ∈ tree.childrenOf root, offset < child.start) : tree.itemAt offset = .ok none := by
  have hdrop : (tree.childrenOf root).reverse.dropWhile
      (fun child => decide (offset < child.start)) = [] := by
    rw [List.dropWhile_eq_nil_iff]
    intro child hchild
    exact decide_eq_true (h child (List.mem_reverse.mp hchild))
  unfold itemAt
  rw [hroot]
  simp only [hdrop, ite_self]

end ExprTree

/-! ## Counting semicolons -/

/-- Whether a child of a list is a separator whose semicolon stands before an offset. -/
def ExprNode.parts (node : ExprNode) (offset : Nat) : Bool :=
  !node.kind.isItem && node.asChild.semicolon < offset

namespace ExprTree

variable {chars : List Char} {start stop offset : Nat} {row : List ListChild} {nodes : List ExprNode}

/-- In a row behind the cursor there is no semicolon before it. -/
theorem countP_parts_eq_zero (h : ListRow chars start (nodes.map ExprNode.asChild) stop)
    (hoffset : offset ≤ start) : nodes.countP (·.parts offset) = 0 := by
  refine List.countP_eq_zero.mpr fun node hnode => ?_
  have hstart := h.start_le node.asChild (List.mem_map_of_mem hnode)
  have hsemicolon := node.asChild.start_le_semicolon
  have hnot : ¬ node.asChild.semicolon < offset := by omega
  simp [ExprNode.parts, hnot]

/-- An item and the separator after it add a semicolon before the cursor, or none. -/
theorem countP_parts_cons {slot separator : ExprNode} (hslot : slot.kind.isItem = true)
    (hseparator : separator.kind.isItem = false) : (slot :: separator :: nodes).countP (·.parts offset) =
      nodes.countP (·.parts offset) + if separator.asChild.semicolon < offset then 1 else 0 := by
  have hitem : slot.parts offset = false := by rw [ExprNode.parts, hslot]; rfl
  have hmark : separator.parts offset = decide (separator.asChild.semicolon < offset) := by
    rw [ExprNode.parts, hseparator]
    rfl
  rw [List.countP_cons, List.countP_cons, hitem, hmark]
  simp

/-- **In a row of items and separators the search finds the item that has as many separators in front
of it as there are semicolons before the cursor.** -/
theorem exists_settles (h : ListRow chars start row stop) (hrow : nodes.map ExprNode.asChild = row)
    (hstop : stop ≤ Position.greatest) (hoffset : start ≤ offset) : ∃ item,
    Settles offset nodes item ∧
      (nodes.filter (·.kind.isItem))[nodes.countP (·.parts offset)]? = some item := by
  -- the row is cut where the cursor is: behind a separator, on it, or on the item before it
  induction h generalizing nodes with
  | @last only hitem _ =>
    obtain ⟨node, rfl, rfl⟩ := List.map_eq_singleton_iff.mp hrow
    have hitem : node.kind.isItem = true := hitem
    refine ⟨node, .intro [] hoffset (by simp) (itemNear_of_isItem hitem), ?_⟩
    simp [ExprNode.parts, hitem]
  | @step first mark children stop hitem hordered hmark htouches hlater ih =>
    obtain ⟨slot, _, rfl, rfl, hrest⟩ := List.map_eq_cons_iff.mp hrow
    obtain ⟨separator, rest, rfl, rfl, rfl⟩ := List.map_eq_cons_iff.mp hrest
    have hslot : slot.kind.isItem = true := hitem
    have hseparator : separator.kind.isItem = false := hmark.isItem
    have hinside : separator.asChild.semicolon < separator.stop := hmark.inside
    have hedge : separator.start ≤ separator.asChild.semicolon := separator.asChild.start_le_semicolon
    have hfilter : (slot :: separator :: rest).filter (·.kind.isItem) =
        slot :: rest.filter (·.kind.isItem) := by
      simp [hslot, hseparator]
    by_cases hbehind : separator.stop ≤ offset
    · -- the item and its separator are behind the cursor, so one more semicolon is before it
      obtain ⟨item, hsettles, hget⟩ := ih rfl hstop hbehind
      refine ⟨item, (hsettles.cons separator).cons slot, ?_⟩
      have hbefore : separator.asChild.semicolon < offset := by omega
      rw [hfilter, countP_parts_cons hslot hseparator, if_pos hbefore, List.getElem?_cons_succ]
      exact hget
    · have hlt : offset < separator.stop := Nat.lt_of_not_le hbehind
      have hahead : ∀ node ∈ rest, offset < node.start := by
        intro node hnode
        have hstart : separator.stop ≤ node.start :=
          hlater.start_le node.asChild (List.mem_map_of_mem hnode)
        omega
      have hnone := countP_parts_eq_zero hlater (Nat.le_of_lt hlt)
      have hlength : separator.asChild.semicolon ≤ Position.greatest :=
        Nat.le_trans (Nat.le_of_lt hinside) (Nat.le_trans hlater.le hstop)
      by_cases hside : offset ≤ separator.asChild.semicolon
      · -- no semicolon is before the cursor
        have hnot : ¬ separator.asChild.semicolon < offset := by omega
        have hget : (slot :: rest.filter (·.kind.isItem))[(slot :: separator :: rest).countP
            (·.parts offset)]? = some slot := by
          rw [countP_parts_cons hslot hseparator, hnone, if_neg hnot]
          rfl
        refine ⟨slot, ?_, by rw [hfilter, hget]⟩
        by_cases hon : separator.start ≤ offset
        · refine .intro [slot] hon hahead ?_
          rw [itemNear_of_separator hseparator hlength, if_pos hside]
          simp [hslot]
        · refine .intro [] hoffset ?_ (itemNear_of_isItem hslot)
          exact List.forall_mem_cons.mpr ⟨Nat.lt_of_not_le hon, hahead⟩
      · -- the cursor is in the white space after the semicolon, which belongs to the next item
        have hbefore : separator.asChild.semicolon < offset := Nat.lt_of_not_le hside
        obtain ⟨_, _, hfirst, hnext, -⟩ := hlater.exists_first
        obtain ⟨next, more, rfl, rfl, -⟩ := List.map_eq_cons_iff.mp hfirst
        have hnext : next.kind.isItem = true := hnext
        refine ⟨next, ?_, ?_⟩
        · refine .intro [slot] (by omega) hahead ?_
          rw [itemNear_of_separator hseparator hlength, if_neg hside]
          simp [hnext]
        · rw [hfilter, countP_parts_cons hslot hseparator, hnone, if_pos hbefore]
          simp [hnext]

end ExprTree

/-! ## Lists of both kinds -/

/-- **The item at a cursor**, in the list with the children `first :: _` of a text. -/
structure ItemsAt (form : Form) (text : String) (tree : ExprTree) (first : ExprNode) : Prop where
  /-- Each separator has a semicolon of the text. -/
  separated : ∀ separator ∈ tree.separators,
    text.toList[separator.asChild.semicolon]? = some ';'
  /-- A cursor that is not before the first child is at the item that has as many separators in front
  of it as there are semicolons before the cursor. -/
  counted : ∀ offset, first.start ≤ offset → ∃ item, tree.itemAt offset = .ok (some item) ∧
    tree.listItems[tree.separators.countP (·.asChild.semicolon < offset)]? = some item
  /-- Any other cursor is at none, and then it is in the white space in front of the first item of a
  list of expressions, which is not an empty one. -/
  outside : ∀ offset, offset < first.start → tree.itemAt offset = .ok none ∧ form = .list ∧
    first.kind ≠ .emptyItem ∧ first.start < first.stop ∧
    ∀ c ∈ charsOf text.toList ⟨0, first.start⟩, Token.isSpace c = true

/-- **In every list, the item at a cursor is found by counting semicolons.** -/
theorem itemAt_counts {form : Form} {text : String} {tree : ExprTree} (hform : form ≠ .root)
    (hlength : text.length ≤ Position.greatest) (h : parseAs form text = .ok tree) :
    ∃ root first rest, tree.root? = some root ∧ tree.childrenOf root = first :: rest ∧
      ItemsAt form text tree first := by
  obtain ⟨expr, hexpr, rfl⟩ := parseAs_eq_ok.mp h
  obtain ⟨hevery, -⟩ := parseExpr_wellFormed hexpr
  obtain ⟨hlists, start, stop, hrow, hstop, houtside⟩ := exists_listRow hform hexpr
  obtain ⟨root, hroot, hchildren⟩ := ExprTree.exists_root_asChild hevery
  have hlist : ExprTree.isList root = true := by
    have hkind := congrArg ListChild.kind (ExprTree.asChild_of_root? hevery.root.laid.ordered hroot)
    rw [ExprTree.isList, show root.kind = expr.kind from hkind]
    rcases hlists with h | h <;> rw [h]
  -- nodes are looked at as the children of the list that they are
  rw [← hchildren] at hrow houtside
  generalize hnodes : (ExprTree.ofExpr expr).withLinks.childrenOf root = nodes at hrow houtside
  obtain ⟨_, _, hfirst, -, hstart⟩ := hrow.exists_first
  obtain ⟨first, rest, rfl, rfl, rfl⟩ := List.map_eq_cons_iff.mp hfirst
  obtain rfl : first.start = start := hstart
  refine ⟨root, first, rest, hroot, hnodes, ?_, ?_, ?_⟩
  · intro separator hseparator
    rw [ExprTree.separators, hroot] at hseparator
    simp only [hnodes, List.mem_filter, Bool.not_eq_true'] at hseparator
    exact (hrow.separates _ (List.mem_map_of_mem hseparator.1) hseparator.2).char
  · intro offset hoffset
    obtain ⟨item, hsettles, hget⟩ :=
      ExprTree.exists_settles hrow rfl (Nat.le_trans hstop hlength) hoffset
    refine ⟨item, ExprTree.itemAt_of_settles hroot hlist (hnodes ▸ hsettles), ?_⟩
    rw [ExprTree.listItems, ExprTree.separators, hroot]
    simp only [hnodes, List.countP_filter]
    have hparts : (fun node : ExprNode => decide (node.asChild.semicolon < offset) &&
        !node.kind.isItem) = (·.parts offset) := by
      funext node
      exact Bool.and_comm _ _
    rw [hparts]
    exact hget
  · intro offset hoffset
    have hahead : ∀ child ∈ (ExprTree.ofExpr expr).withLinks.childrenOf root,
        offset < child.start := by
      intro child hchild
      rw [hnodes] at hchild
      have hstart : first.start ≤ child.start :=
        hrow.start_le child.asChild (List.mem_map_of_mem hchild)
      omega
    obtain ⟨rfl, hspace, hkind⟩ := houtside (by omega)
    obtain ⟨hkind, hfilled⟩ := hkind first.asChild rfl
    exact ⟨ExprTree.itemAt_of_lt hroot hahead, rfl, hkind, hfilled, hspace⟩

/-- A list of expressions with white space in front, and an empty item between two semicolons. -/
theorem itemAt_counts_emptySlot : ∃ tree, parseAs .list "  A ; ;B" = .ok tree ∧
    ∃ root first rest, tree.root? = some root ∧ tree.childrenOf root = first :: rest ∧
      ItemsAt .list "  A ; ;B" tree first := by
  have hread : (parseAs .list "  A ; ;B").toBool = true := by decide +kernel
  cases h : parseAs .list "  A ; ;B" with
  | error complaint =>
    rw [h] at hread
    cases hread
  | ok tree => exact ⟨tree, rfl, itemAt_counts Form.noConfusion (by decide) h⟩

end ProjectLens
