import ProjectLens.Proofs.Splitting

/-! # How lists of expressions are laid out

White space in a list is read by three rules: before an expression, around a semicolon, and at the end.
A rule that fails gives back what it read, so white space in front of a semicolon or of the end is never
left to an empty slot. What comes out is slots and separators in turn, end to end, with white space only
in the separators, in front of the first slot and behind the last one. Semicolons in quotes belong to
the slot they are in.

* `ListChild.IsSlot`, `ListChild.IsSpacedSemicolon`: what the children of a list are;
* `InTurn`: slots and separators in turn, each starting where the one before it stops;
* `Grammar.exists_inTurn_later`, `Grammar.exists_inTurn`: the children of a list that was read;
* `ListLayout`, `parseAs_listLayout`: the tree of every list. -/

namespace ProjectLens

open SimpleList

/-! ## Slots and separators -/

namespace ListChild

/-- **The child is a slot**: an item that neither begins nor ends with white space of any kind, and an
empty one just if it covers no character. -/
structure IsSlot (child : ListChild) (chars : List Char) : Prop where
  /-- It is an item. -/
  isItem : child.kind.isItem = true
  /-- It is the right way round. -/
  ordered : child.span.start ≤ child.span.stop
  /-- Empty items are over no character, and no others are. -/
  emptyItem_iff : child.kind = .emptyItem ↔ child.span.start = child.span.stop
  /-- Its first character is not white space. -/
  head : ∀ c ∈ (charsOf chars child.span).head?, isBlank c = false
  /-- Its last character is not white space. -/
  last : ∀ c ∈ (charsOf chars child.span).getLast?, isBlank c = false

/-- **The child is a separator**: one semicolon with white space around it, and it says how many
characters there are before the semicolon. -/
structure IsSpacedSemicolon (child : ListChild) (chars : List Char) : Prop where
  /-- It is the right way round. -/
  ordered : child.span.start ≤ child.span.stop
  /-- Its characters. -/
  spelled : ∃ before after, child.kind = .separator before.length ∧
    charsOf chars child.span = before ++ ';' :: after ∧
    ∀ c ∈ before ++ after, Token.isSpace c = true

end ListChild

/-- **Slots and separators in turn**, each of them starting where the one before it stops, from one
offset to another. -/
inductive InTurn (chars : List Char) : Nat → List ListChild → Nat → Prop where
  /-- The last slot. -/
  | last {slot : ListChild} : slot.IsSlot chars →
      InTurn chars slot.span.start [slot] slot.span.stop
  /-- A slot, and the separator after it. -/
  | step {slot separator : ListChild} {children : List ListChild} {stop : Nat} :
      slot.IsSlot chars → separator.IsSpacedSemicolon chars →
      separator.span.start = slot.span.stop → InTurn chars separator.span.stop children stop →
      InTurn chars slot.span.start (slot :: separator :: children) stop

namespace InTurn

variable {chars : List Char} {children : List ListChild} {start stop : Nat}
  (h : InTurn chars start children stop)
include h

/-- There is one slot more than separators. -/
theorem length_odd : children.length % 2 = 1 := by
  induction h with
  | last _ => rfl
  | step _ _ _ _ ih =>
    simp only [List.length_cons]
    omega

/-- The children of a plain list abut. -/
theorem abut : Abut start (children.map ListChild.span) stop := by
  induction h with
  | last hslot => exact ⟨rfl, hslot.ordered, rfl⟩
  | step hslot hseparator htouches _ ih =>
    exact ⟨rfl, hslot.ordered, htouches, hseparator.ordered, ih⟩

/-- **Every other child is a slot**, the first one included. -/
theorem isSlot {k : Nat} {child : ListChild} (hchild : children[2 * k]? = some child) :
    child.IsSlot chars := by
  induction h generalizing k with
  | last hslot =>
    cases k with
    | zero =>
      cases hchild
      exact hslot
    | succ k => cases hchild
  | step hslot _ _ _ ih =>
    cases k with
    | zero =>
      cases hchild
      exact hslot
    | succ k => exact ih hchild

/-- **Between them are separators.** -/
theorem isSpacedSemicolon {k : Nat} {child : ListChild} (hchild : children[2 * k + 1]? = some child) :
    child.IsSpacedSemicolon chars := by
  induction h generalizing k with
  | last _ => cases hchild
  | step _ hseparator _ _ ih =>
    cases k with
    | zero =>
      cases hchild
      exact hseparator
    | succ k => exact ih hchild

end InTurn

/-! ## Lists of expressions -/

namespace Grammar

open ProjectLens.Derivation

variable {text : String} {more blank body : List Lexeme} {tree : Expr} {start stop : Nat}
  {rest : List (SeparatorSpans × Option Expr)}

/-- **An empty slot** covers no character. -/
theorem isSlot_emptyItem (chars : List Char) (offset : Nat) :
    (slotExpr none offset).asChild.IsSlot chars := by
  have hchars : charsOf chars (slotExpr none offset).asChild.span = [] := charsOf_self chars offset
  refine ⟨rfl, Nat.le_refl offset, ?_, ?_, ?_⟩
  · exact iff_of_true rfl rfl
  · simp [hchars]
  · simp [hchars]

/-- No expression has the kind of an empty item. -/
theorem kind_ne_emptyItem (h : Expression anyName body tree) : tree.kind ≠ .emptyItem := by
  intro hkind
  have hexpression := h.isExpression
  rw [hkind] at hexpression
  cases hexpression

/-- **An expression in a slot** has no white space at either side. -/
theorem isSlot_expression (hbody : Expression anyName body tree) (h : Stretch text start body stop) :
    tree.span = ⟨start, stop⟩ ∧ tree.asChild.IsSlot text.toList := by
  have hspan := hbody.good.span_eq h.tiles
  have hlt : start < stop := h.tiles.lt hbody.opens.ne_nil
  have hitem := isItem_slotExpr (.filled blank_nil hbody) start
  -- an expression neither begins nor ends with a blank
  have hhead := h.head?_of_opens hbody.opens
  have hlast := h.getLast?_of_ends hbody.ends
  rw [← hspan] at hhead hlast
  refine ⟨hspan, hitem, ?_, ?_, ?_, ?_⟩
  · show tree.span.start ≤ tree.span.stop
    rw [hspan]
    exact Nat.le_of_lt hlt
  · show tree.kind = .emptyItem ↔ tree.span.start = tree.span.stop
    rw [hspan]
    exact iff_of_false (kind_ne_emptyItem hbody) (Nat.ne_of_lt hlt)
  · intro c hc
    have hc : (charsOf text.toList tree.span).head? = some c := hc
    rwa [hc] at hhead
  · intro c hc
    have hc : (charsOf text.toList tree.span).getLast? = some c := hc
    rwa [hc] at hlast

/-- A semicolon is written in one way. -/
theorem charsOf_semicolon {lexeme : Lexeme} (hmem : lexeme ∈ lex text)
    (htoken : lexeme.token = .semicolon) : charsOf text.toList lexeme.span = [';'] := by
  have hcut := lex_cut text lexeme hmem
  rw [htoken] at hcut
  show (Index.ofText text).sliceChars lexeme.span = [';']
  generalize (Index.ofText text).sliceChars lexeme.span = piece at hcut ⊢
  cases hcut with
  | mark _ => rfl

/-- **A separator** is a semicolon with all the white space around it. -/
theorem isSpacedSemicolon_separatorExpr (semicolon : Spaced (· = .semicolon))
    (h : Stretch text start semicolon.lexemes stop) (hlength : stop ≤ text.toList.length) :
    (separatorExpr semicolon.lexeme.span.start ⟨start, stop⟩).asChild.IsSpacedSemicolon
      text.toList := by
  obtain ⟨_, hbefore, hrest⟩ := stretch_append.mp h
  -- the semicolon stands between its two runs of blanks
  obtain ⟨hmem, rfl, hlt, hafter⟩ := stretch_cons.mp hrest
  have hwritten := charsOf_semicolon hmem semicolon.holds
  have hinside : semicolon.lexeme.span.start ≤ text.toList.length := by
    have := hafter.le
    omega
  refine ⟨h.le, charsOf text.toList ⟨start, semicolon.lexeme.span.start⟩,
    charsOf text.toList ⟨semicolon.lexeme.span.stop, stop⟩, ?_, ?_, ?_⟩
  · rw [length_charsOf hinside]
    rfl
  · show charsOf text.toList ⟨start, stop⟩ = _
    rw [charsOf_append hbefore.le hrest.le, charsOf_append (Nat.le_of_lt hlt) hafter.le]
    exact congrArg (fun piece => _ ++ (piece ++ _)) hwritten
  · intro c hc
    rcases List.mem_append.mp hc with hc | hc
    · exact hbefore.isSpace_of_blank semicolon.blank_before c hc
    · exact hafter.isSpace_of_blank semicolon.blank_after c hc

/-- The slot after a separator: there is no white space between them. -/
theorem isSlot_later {slot left : List Lexeme} {item : Option Expr} (hslot : ListSlot slot item)
    (hsharp : Begins (·.isWhitespace = false) (slot ++ left)) (h : Stretch text start slot stop) :
    (slotExpr item start).span = ⟨start, stop⟩ ∧
      (slotExpr item start).asChild.IsSlot text.toList := by
  cases hslot with
  | empty =>
    obtain rfl : start = stop := h.tiles
    exact ⟨rfl, isSlot_emptyItem text.toList start⟩
  | @filled front body tree hfront hbody =>
    -- the separator took the white space in front of the expression
    rw [List.append_assoc] at hsharp
    obtain rfl := eq_nil_of_begins hfront hsharp
    exact isSlot_expression hbody h

/-- **From a slot on, a list alternates**, and there is white space behind its last slot. -/
theorem exists_inTurn_later (row : Rule.Row SharpRound more rest blank)
    (h : Stretch text start (more ++ blank) text.toList.length) {slot : ListChild}
    (hslot : slot.IsSlot text.toList) (hstop : slot.span.stop = start) :
    ∃ stop, InTurn text.toList slot.span.start (slot :: (rest.flatMap fun (spans, item) =>
        [separatorExpr spans.semicolon.start spans.whole, slotExpr item spans.whole.stop]).map
          Expr.asChild) stop ∧ Stretch text stop blank text.toList.length := by
  -- one round after another, each of which starts where the slot before it stops
  induction row generalizing start slot with
  | nil =>
    rw [List.nil_append, ← hstop] at h
    exact ⟨slot.span.stop, .last hslot, h⟩
  | @cons _ more blank _ rest hround row ih =>
    cases hround with
    | @intro semicolon tokens _ item hitem hsharp =>
    have hfilled : semicolon.lexemes ≠ [] := by simp [Spaced.lexemes]
    -- the tokens of the separator, those of the slot, and the others
    rw [List.append_assoc, List.append_assoc] at h
    obtain ⟨border, hseparator, h⟩ := stretch_append.mp h
    obtain ⟨next, htokens, hmore⟩ := stretch_append.mp h
    have hcover := hseparator.tiles.cover_eq hfilled
    obtain ⟨hspan, hnext⟩ := isSlot_later hitem hsharp htokens
    obtain ⟨stop, hturn, hblank⟩ := ih hmore hnext (congrArg Span.stop hspan)
    have hseparates := isSpacedSemicolon_separatorExpr semicolon hseparator h.le
    have hstart : (slotExpr item border).asChild.span.start = border := congrArg Span.start hspan
    rw [hstart] at hturn
    rw [List.flatMap_cons, hcover]
    exact ⟨stop, .step hslot hseparates hstop.symm hturn, hblank⟩

/-- The first slot: there may be white space before it. -/
theorem exists_isSlot_first {slot : List Lexeme} {item : Option Expr} (hslot : ListSlot slot item)
    (h : Stretch text 0 slot stop) : ∃ start, (slotExpr item 0).span = ⟨start, stop⟩ ∧
      (slotExpr item 0).asChild.IsSlot text.toList ∧
      ∀ c ∈ charsOf text.toList ⟨0, start⟩, Token.isSpace c = true := by
  cases hslot with
  | empty =>
    obtain rfl : 0 = stop := h.tiles
    refine ⟨0, rfl, isSlot_emptyItem text.toList 0, ?_⟩
    simp [charsOf_self]
  | @filled front body tree hfront hbody =>
    obtain ⟨start, hblank, hitem⟩ := stretch_append.mp h
    obtain ⟨hspan, hslot⟩ := isSlot_expression hbody hitem
    exact ⟨start, hspan, hslot, hblank.isSpace_of_blank hfront⟩

/-- An empty slot is where the slot starts. -/
theorem span_of_emptyItem {slot : List Lexeme} {item : Option Expr} (hslot : ListSlot slot item)
    {offset : Nat} (hkind : (slotExpr item offset).kind = .emptyItem) :
    (slotExpr item offset).span = ⟨offset, offset⟩ := by
  cases hslot with
  | empty => rfl
  | filled _ hbody => exact absurd hkind (kind_ne_emptyItem hbody)

/-- **The children of a list that was read alternate**, with white space around all of them. -/
theorem exists_inTurn {parts : ListParts} (h : list.parse text = .ok parts) : ∃ start stop,
    InTurn text.toList start ((listExpr parts text.length).children.map Expr.asChild) stop ∧
      stop ≤ text.length ∧
      (∀ c ∈ charsOf text.toList ⟨0, start⟩, Token.isSpace c = true) ∧
      (∀ c ∈ charsOf text.toList ⟨stop, text.length⟩, Token.isSpace c = true) ∧
      ∀ first ∈ ((listExpr parts text.length).children.map Expr.asChild).head?,
        first.kind = .emptyItem → first.span = ⟨0, 0⟩ := by
  obtain ⟨_, reads, hrest⟩ := Rule.parse_eq_ok.mp h
  obtain ⟨_, left, hlex, rfl, slot, more, blank, rfl, hblank, hslot, row⟩ :=
    list_sharp (lex_tiles text) reads
  obtain rfl : left = [] := hrest
  rw [List.append_nil] at hlex row
  -- the first slot, the rounds and the blanks behind them are three stretches of the text
  have hall := stretch_lex text
  rw [← String.length_toList, hlex] at hall
  obtain ⟨border, hitem, hmore⟩ := stretch_append.mp hall
  obtain ⟨start, hspan, hfirst, hfront⟩ := exists_isSlot_first hslot hitem
  obtain ⟨stop, hturn, hback⟩ := exists_inTurn_later row hmore hfirst (congrArg Span.stop hspan)
  have hstart : (slotExpr parts.first 0).asChild.span.start = start := congrArg Span.start hspan
  rw [hstart] at hturn
  rw [← String.length_toList]
  refine ⟨start, stop, hturn, hback.le, hfront, hback.isSpace_of_blank hblank, ?_⟩
  intro first hfirst hkind
  obtain rfl : (slotExpr parts.first 0).asChild = first := Option.some.inj hfirst
  exact span_of_emptyItem hslot hkind

end Grammar

/-! ## Trees of lists -/

/-- The root of a tree is what its expression is. -/
theorem ExprTree.asChild_of_root? {expr : Expr} {root : ExprNode}
    (hordered : expr.span.start ≤ expr.span.stop)
    (hroot : (ofExpr expr).withLinks.root? = some root) : root.asChild = expr.asChild := by
  obtain ⟨root', hroot', hbare⟩ := exists_root?_of_expr expr
  obtain rfl : root' = root := Option.some.inj (hroot'.symm.trans hroot)
  have hkind : root'.kind = expr.kind := congrArg ExprNode.kind hbare
  have hspan : root'.span = expr.span := by
    rw [← root'.span_bare, hbare, Expr.span_rootNode 0 hordered]
  rw [ExprNode.asChild, hkind, hspan]
  rfl

/-- **How a list of expressions is laid out**: slots and separators in turn, and white space in the
separators and around all of them. -/
structure ListLayout (text : String) (root : ExprNode) (children : List ExprNode) : Prop where
  /-- The root is a list. -/
  kind : root.kind = .list
  /-- It stands over the whole text. -/
  span : root.span = ⟨0, text.length⟩
  /-- There is one slot more than separators. -/
  length : children.length % 2 = 1
  /-- Every other child is a slot, the first and the last one included. -/
  slot : ∀ (k : Nat) (child : ExprNode), children[2 * k]? = some child →
    child.asChild.IsSlot text.toList
  /-- Between them are the separators. -/
  separator : ∀ (k : Nat) (child : ExprNode), children[2 * k + 1]? = some child →
    child.asChild.IsSpacedSemicolon text.toList
  /-- The children stand end to end, with only white space before the first and after the last one. -/
  abut : ∃ start stop, Abut start (children.map ExprNode.span) stop ∧ stop ≤ text.length ∧
    (∀ c ∈ charsOf text.toList ⟨0, start⟩, Token.isSpace c = true) ∧
    ∀ c ∈ charsOf text.toList ⟨stop, text.length⟩, Token.isSpace c = true
  /-- An empty first slot is at the start of the text. -/
  first_empty : ∀ first ∈ children.head?, first.kind = .emptyItem → first.span = ⟨0, 0⟩

/-- **Every list of expressions is laid out so.** -/
theorem parseAs_listLayout {text : String} {tree : ExprTree} (h : parseAs .list text = .ok tree) :
    ∃ root, tree.root? = some root ∧ ListLayout text root (tree.childrenOf root) := by
  obtain ⟨parts, hparts, rfl⟩ := parseAs_list_iff.mp h
  obtain ⟨root, hroot, hchildren⟩ := ExprTree.exists_root_asChild (listExpr_wellFormed hparts)
  have hwhole : root.asChild = ⟨.list, ⟨0, text.length⟩⟩ :=
    ExprTree.asChild_of_root? (Nat.zero_le _) hroot
  obtain ⟨start, stop, hturn, hstop, hfront, hback, hempty⟩ := Grammar.exists_inTurn hparts
  -- nodes are looked at as the children of the list that they are
  rw [← hchildren] at hturn hempty
  refine ⟨root, hroot, congrArg ListChild.kind hwhole, congrArg ListChild.span hwhole,
    ?_, ?_, ?_, ?_, ?_⟩
  · have hodd := hturn.length_odd
    rwa [List.length_map] at hodd
  · intro k child hchild
    refine hturn.isSlot (k := k) ?_
    rw [List.getElem?_map, hchild]
    rfl
  · intro k child hchild
    refine hturn.isSpacedSemicolon (k := k) ?_
    rw [List.getElem?_map, hchild]
    rfl
  · have habut := hturn.abut
    rw [List.map_map] at habut
    exact ⟨start, stop, habut, hstop, hfront, hback⟩
  · intro first hfirst hkind
    refine hempty first.asChild ?_ hkind
    rw [List.head?_map, Option.mem_def.mp hfirst]
    rfl

/-- A list with a semicolon in quotes, an empty slot between white space, and white space at the end. -/
theorem parseAs_listLayout_quoted : ∃ tree, parseAs .list " 'a;b' ; ; $(C) " = .ok tree ∧
    ∃ root, tree.root? = some root ∧
      ListLayout " 'a;b' ; ; $(C) " root (tree.childrenOf root) := by
  have hread : (parseAs .list " 'a;b' ; ; $(C) ").toBool = true := by decide +kernel
  cases h : parseAs .list " 'a;b' ; ; $(C) " with
  | error complaint =>
    rw [h] at hread
    cases hread
  | ok tree => exact ⟨tree, rfl, parseAs_listLayout h⟩

end ProjectLens
