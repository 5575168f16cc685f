import Mathlib.Data.List.Forall2
import ProjectLens.Proofs.Semicolons
import ProjectLens.Proofs.SingleItem

/-! # Where lists are separated

A text without quotes that is a list of expressions has its separators where the plain list of it has
them. Both find the same semicolons, as there are none in expressions; and white space next to a
semicolon goes to the separator in both, once token by token and once character by character.

* `Grammar.SharpRound`, `Grammar.list_sharp`: separators take all the white space around them;
* `semicolonSpans`, `Grammar.simpleList_parse`: a plain list is cut at every semicolon;
* `ListChild.Matches`: how a child of a plain list and one of a list of expressions are alike;
* `Grammar.later_matches`, `Grammar.list_matches`: the children of both lists, one by one;
* `SameSeparators`, `separators_agree`: the trees of both lists. -/

namespace ProjectLens

open ProjectLens.Derivation

/-! ## Lists of expressions -/

namespace Grammar

open Rule

/-- A separator and the slot after it, the separator with all the white space there is. -/
inductive SharpRound : List Lexeme → SeparatorSpans × Option Expr → List Lexeme → Prop where
  /-- The only form. -/
  | intro (semicolon : Spaced (· = .semicolon)) {slot left : List Lexeme} {item : Option Expr} :
      ListSlot slot item → Begins (·.isWhitespace = false) (slot ++ left) →
      SharpRound (semicolon.lexemes ++ slot)
        (⟨semicolon.lexeme.span, cover semicolon.lexemes⟩, item) left

/-- **A separator takes the white space after it.** -/
theorem separator_sharp : separator.Sound fun used spans left =>
    (∃ s : Spaced (· = .semicolon), used = s.lexemes ∧
      spans = ⟨s.lexeme.span, cover s.lexemes⟩) ∧ Begins (·.isWhitespace = false) left := by
  intro start stop lexemes spans rest tiles reads
  obtain ⟨used, left, rfl, rfl, hmeans⟩ := separator_sound tiles reads
  refine ⟨used, left, rfl, rfl, hmeans, ?_⟩
  obtain ⟨_, hinside, -⟩ := reads_spanned.mp reads
  obtain ⟨_, ⟨middle, stop'⟩, -, hws⟩ := reads_thenSkip.mp hinside
  cases reads_ws.mp hws
  exact skipBlank_begins middle

/-- A list is its first slot, then separators with the slots after them, then white space. -/
theorem list_sharp : list.Sound fun used parts left =>
    ∃ slot more blank, used = slot ++ (more ++ blank) ∧ Blank blank ∧ ListSlot slot parts.first ∧
      Row SharpRound more parts.rest (blank ++ left) := by
  refine (list_sound_of separator_sharp).mono ?_
  rintro _ parts left ⟨slot, more, blank, rfl, hblank, hslot, row⟩
  refine ⟨slot, more, blank, rfl, hblank, hslot, row.mono ?_⟩
  rintro _ ⟨_, item⟩ left ⟨_, slot, rfl, ⟨⟨semicolon, rfl, rfl⟩, hsharp⟩, hslot⟩
  exact .intro semicolon hslot hsharp

end Grammar

/-! ## Plain lists -/

/-- Blank tokens have no separators. -/
theorem semicolonSpans_blank {lexemes : List Lexeme} (h : Blank lexemes) :
    semicolonSpans lexemes = [] :=
  semicolonSpans_eq_nil (ne_semicolon_of_blank h)

/-- A spaced `;` has the one of its lexeme. -/
theorem semicolonSpans_spaced (s : Spaced (· = .semicolon)) :
    semicolonSpans s.lexemes = [s.lexeme.span] := by
  rw [Spaced.lexemes, semicolonSpans_append, semicolonSpans_blank s.blank_before,
    semicolonSpans_cons s.holds, semicolonSpans_blank s.blank_after]
  rfl

namespace Grammar

open Rule

/-- **A plain list is cut at every semicolon of its text.** -/
theorem simpleList_parse (text : String) :
    simpleList.parse text = .ok (semicolonSpans (lex text)) := by
  obtain ⟨spans, hparse⟩ := simpleList_total text
  obtain ⟨rest, reads, hrest⟩ := Rule.parse_eq_ok.mp hparse
  obtain ⟨used, left, hlex, rfl, rfl⟩ := simpleList_spans (lex_tiles text) reads
  obtain rfl : left = [] := hrest
  rw [List.append_nil] at hlex
  rw [hparse, hlex]

/-! ## White space around the slots -/

open SimpleList

/-- `(Span.emptyAt offset).isEmpty = true`. -/
theorem isEmpty_emptyAt (offset : Nat) : (Span.emptyAt offset).isEmpty = true :=
  decide_eq_true (Nat.le_refl offset)

/-- `start < stop → Span.isEmpty ⟨start, stop⟩ = false`. -/
theorem isEmpty_eq_false_of_lt {start stop : Nat} (h : start < stop) :
    Span.isEmpty ⟨start, stop⟩ = false :=
  decide_eq_false (Nat.not_le_of_lt h)

variable {text : String} {tokens front body gap more blank : List Lexeme} {a b c d : Nat}
  {rest : List (SeparatorSpans × Option Expr)}

section Cores

variable (hd : d ≤ text.toList.length)
include hd

/-- **A slot of white space is left to the separator before it.** -/
theorem laterCore_blank (last : Bool) (h : Stretch text a tokens d) (hblank : Blank tokens) :
    laterCore text.toList last ⟨a, d⟩ = Span.emptyAt d := by
  have htrim : trimStart text.toList ⟨a, d⟩ = ⟨d, d⟩ := by
    refine trimStart_eq h.le (Nat.le_refl d) hd (h.isBlank_of_blank hblank) ?_
    rw [charsOf_self]
    rfl
  rw [laterCore, htrim]
  exact if_pos (isEmpty_emptyAt d)

/-- **An expression in a later slot** is left of it, with what follows it at the end of the list. -/
theorem laterCore_filled (last : Bool) (hfront : Stretch text a front b) (hblank : Blank front)
    (hbody : Stretch text b body c) (hopens : Opens (·.isSolid = true) body)
    (hends : Ends (·.isSolid = true) body) (hgap : Stretch text c gap d) (hspace : Blank gap) :
    laterCore text.toList last ⟨a, d⟩ = ⟨b, if last then d else c⟩ := by
  have hboth : Stretch text b (body ++ gap) d := stretch_append.mpr ⟨c, hbody, hgap⟩
  have hlt : b < c := hbody.tiles.lt hopens.ne_nil
  have hfilled : Span.isEmpty ⟨b, d⟩ = false :=
    isEmpty_eq_false_of_lt (Nat.lt_of_lt_of_le hlt hgap.le)
  have hstart : trimStart text.toList ⟨a, d⟩ = ⟨b, d⟩ :=
    trimStart_eq hfront.le hboth.le hd (hfront.isBlank_of_blank hblank)
      (hboth.head?_of_opens (hopens.append gap))
  have hstop : trimStop text.toList ⟨b, d⟩ = ⟨b, c⟩ :=
    trimStop_eq hbody.le hgap.le hd (hgap.isBlank_of_blank hspace) (hbody.getLast?_of_ends hends)
  rw [laterCore, hstart, hfilled, hstop]
  cases last <;> rfl

/-- The first slot, up to a semicolon, if it is white space. -/
theorem firstCore_blank (h : Stretch text a tokens d) (hblank : Blank tokens) :
    firstCore text.toList false ⟨a, d⟩ = Span.emptyAt a := by
  refine trimStop_eq (Nat.le_refl a) h.le hd (h.isBlank_of_blank hblank) ?_
  rw [charsOf_self]
  rfl

/-- The first slot, up to a semicolon, if there is something else in it. -/
theorem firstCore_filled (hfront : Stretch text a front c) (hends : Ends (·.isSolid = true) front)
    (hgap : Stretch text c gap d) (hspace : Blank gap) :
    firstCore text.toList false ⟨a, d⟩ = ⟨a, c⟩ :=
  trimStop_eq hfront.le hgap.le hd (hgap.isBlank_of_blank hspace) (hfront.getLast?_of_ends hends)

end Cores

/-- Nothing is white space where no white space begins. -/
theorem eq_nil_of_begins (hblank : Blank gap) (h : Begins (·.isWhitespace = false) (gap ++ tokens)) :
    gap = [] := by
  cases gap with
  | nil => rfl
  | cons lexeme gap =>
    have hspace := (blank_cons.mp hblank).1
    rw [begins_cons.mp h] at hspace
    cases hspace

/-- There is no semicolon in a slot. -/
theorem semicolonSpans_slot {slot : List Lexeme} {item : Option Expr} (h : ListSlot slot item)
    (hquote : ∀ lexeme ∈ slot, lexeme.token ≠ .quote) : semicolonSpans slot = [] := by
  cases h with
  | empty => rfl
  | filled hblank hbody =>
    refine semicolonSpans_eq_nil ?_
    exact ((guarded_blank hblank).append hbody.guarded) hquote

/-- After a slot there is a separator or nothing. -/
theorem row_nil_or_spaced (row : Rule.Row SharpRound more rest blank) :
    more = [] ∨ ∃ (s : Spaced (· = .semicolon)) (tail : List Lexeme), more = s.lexemes ++ tail := by
  cases row with
  | nil => exact .inl rfl
  | cons h _ =>
    obtain ⟨semicolon, -, -⟩ := h
    exact .inr ⟨semicolon, _, List.append_assoc ..⟩

/-- There are semicolons just where there are separators. -/
theorem isEmpty_semicolonSpans (row : Rule.Row SharpRound more rest blank) (hblank : Blank blank) :
    (semicolonSpans (more ++ blank)).isEmpty = true ↔ more = [] := by
  rcases row_nil_or_spaced row with rfl | ⟨semicolon, tail, rfl⟩
  · simp [semicolonSpans_blank hblank]
  · have hfilled : semicolon.lexemes ≠ [] := by simp [Spaced.lexemes]
    simp [semicolonSpans_spaced, hfilled]

/-- **From a slot to the next semicolon**, or to the end of the text, there is white space. -/
theorem exists_gap (row : Rule.Row SharpRound more rest blank) (hblank : Blank blank)
    (h : Stretch text c (more ++ blank) d) :
    ∃ gap tail, more ++ blank = gap ++ tail ∧ Blank gap ∧
      Stretch text c gap (slotStop d (semicolonSpans (more ++ blank))) ∧
      slotStop d (semicolonSpans (more ++ blank)) ≤ d := by
  -- up to the first semicolon, if there is one, there are only blanks
  rcases row_nil_or_spaced row with rfl | ⟨semicolon, tail, rfl⟩
  · rw [List.nil_append] at h ⊢
    rw [semicolonSpans_blank hblank]
    exact ⟨blank, [], by simp, hblank, h, Nat.le_refl d⟩
  · have hstop : slotStop d (semicolonSpans (semicolon.lexemes ++ tail ++ blank)) =
        semicolon.lexeme.span.start := by
      rw [semicolonSpans_append, semicolonSpans_append, semicolonSpans_spaced]
      rfl
    have hsplit : semicolon.lexemes ++ tail ++ blank =
        semicolon.before ++ (semicolon.lexeme :: (semicolon.after ++ (tail ++ blank))) := by
      simp [Spaced.lexemes]
    rw [hstop, hsplit]
    rw [hsplit] at h
    obtain ⟨border, hbefore, hbehind⟩ := stretch_append.mp h
    obtain ⟨-, rfl, hlt, hbehind⟩ := stretch_cons.mp hbehind
    have hle : semicolon.lexeme.span.start ≤ d := Nat.le_trans (Nat.le_of_lt hlt) hbehind.le
    exact ⟨_, _, rfl, semicolon.blank_before, hbefore, hle⟩

end Grammar

/-! ## Children one by one -/

/-- A child of a list: what it is, and where it stands. -/
structure ListChild where
  /-- What it is. -/
  kind : Kind
  /-- Where it stands. -/
  span : Span

/-- **A child of a plain list is matched** by an item if it is one; by the same at the same place if it
is a separator or an empty item. -/
structure ListChild.Matches (plain other : ListChild) : Prop where
  /-- Items are matched by items, and separators by separators. -/
  isItem : other.kind.isItem = plain.kind.isItem
  /-- Separators and empty items are matched by themselves. -/
  same : plain.kind.isItem = false ∨ plain.kind = .emptyItem → other = plain

/-- An expression as a child of a list. -/
def Expr.asChild (e : Expr) : ListChild := ⟨e.kind, e.span⟩

/-- `child.Matches child`. -/
theorem ListChild.Matches.refl (child : ListChild) : child.Matches child := ⟨rfl, fun _ => rfl⟩

/-- Any item matches an item of some text. -/
theorem ListChild.matches_item {chars : List Char} {core span : Span} {kind : Kind}
    (hcore : core.isEmpty = false) (hkind : kind.isItem = true) :
    (SimpleList.item chars core).asChild.Matches ⟨kind, span⟩ := by
  rw [SimpleList.item, hcore]
  refine ⟨hkind, ?_⟩
  rintro (h | h) <;> cases h

namespace Grammar

open SimpleList

variable {text : String} {more blank slot : List Lexeme} {item : Option Expr} {start : Nat}
  {rest : List (SeparatorSpans × Option Expr)}

/-- What stands in a slot is an item. -/
theorem isItem_slotExpr (h : ListSlot slot item) (offset : Nat) :
    (slotExpr item offset).kind.isItem = true := by
  cases h with
  | empty => rfl
  | @filled _ _ tree _ hbody =>
    have hexpression : tree.kind.isExpression = true := hbody.isExpression
    show tree.kind.isItem = true
    cases hkind : tree.kind with
    | separator offset =>
      rw [hkind] at hexpression
      cases hexpression
    | _ => rfl

/-- What cutting white space off a slot leaves: it starts and stops where the tokens of the slot do,
and is matched by what the list of expressions has there. The white space after the last slot stays. -/
structure CutAt (text : String) (item : Option Expr) (more : List Lexeme) (start stop : Nat)
    (core : Span) : Prop where
  start_eq : core.start = start
  stop_eq : more ≠ [] → core.stop = stop
  matched : (SimpleList.item text.toList core).asChild.Matches (slotExpr item start).asChild

/-- **One round**: the slot after a separator is cut where its tokens start and stop. -/
theorem laterCore_cutAt {semicolon : Spaced (· = .semicolon)} {border stop : Nat}
    (hslot : ListSlot slot item) (hsharp : Begins (·.isWhitespace = false) (slot ++ (more ++ blank)))
    (row : Rule.Row SharpRound more rest blank) (hblank : Blank blank)
    (hafter : Stretch text semicolon.lexeme.span.stop semicolon.after border)
    (hitem : Stretch text border slot stop)
    (hmore : Stretch text stop (more ++ blank) text.toList.length) :
    CutAt text item more border stop
      (laterCore text.toList (semicolonSpans (more ++ blank)).isEmpty
        ⟨semicolon.lexeme.span.stop,
          slotStop text.toList.length (semicolonSpans (more ++ blank))⟩) := by
  obtain ⟨gap, tail, hsplit, hspace, hgap, hd⟩ := exists_gap row hblank hmore
  cases hslot with
  | empty =>
    -- the separator took all the white space, so the next semicolon or the end is right here
    obtain rfl : border = stop := hitem.tiles
    rw [List.nil_append, hsplit] at hsharp
    obtain rfl := eq_nil_of_begins hspace hsharp
    have hhere : border = slotStop text.toList.length (semicolonSpans (more ++ blank)) := hgap.tiles
    rw [← hhere] at hd ⊢
    rw [laterCore_blank hd _ hafter semicolon.blank_after]
    refine ⟨rfl, fun _ => rfl, ?_⟩
    rw [SimpleList.item, if_pos (isEmpty_emptyAt border)]
    exact ListChild.Matches.refl _
  | @filled front body tree hfront hbody =>
    rw [List.append_assoc] at hsharp
    obtain rfl := eq_nil_of_begins hfront hsharp
    rw [List.nil_append] at hitem
    rw [laterCore_filled hd _ hafter semicolon.blank_after hitem hbody.opens hbody.ends hgap hspace]
    refine ⟨rfl, ?_, ?_⟩
    · intro hne
      have hlast := mt (isEmpty_semicolonSpans row hblank).mp hne
      rw [if_neg hlast]
    · refine ListChild.matches_item ?_ (isItem_slotExpr (.filled blank_nil hbody) border)
      have hlt := hitem.tiles.lt hbody.opens.ne_nil
      have hle := hgap.le
      apply isEmpty_eq_false_of_lt
      split <;> omega

/-- A slot over no character is empty. -/
theorem eq_none_of_listSlot (hslot : ListSlot slot item) (h : Stretch text start slot start) :
    item = none := by
  cases hslot with
  | empty => rfl
  | @filled front body _ _ hbody =>
    have hfilled : front ++ body ≠ [] := by simp [hbody.opens.ne_nil]
    exact absurd (h.tiles.lt hfilled) (Nat.lt_irrefl start)

/-- The first slot of a list is cut where its tokens stop. -/
theorem firstCore_cutAt {stop : Nat} (hslot : ListSlot slot item)
    (row : Rule.Row SharpRound more rest blank) (hblank : Blank blank)
    (hitem : Stretch text 0 slot stop)
    (hmore : Stretch text stop (more ++ blank) text.toList.length) :
    CutAt text item more 0 stop
      (firstCore text.toList (semicolonSpans (more ++ blank)).isEmpty
        ⟨0, slotStop text.toList.length (semicolonSpans (more ++ blank))⟩) := by
  by_cases halone : more = []
  · -- without a semicolon the whole text is the item
    subst halone
    rw [List.nil_append, semicolonSpans_blank hblank]
    refine ⟨rfl, fun hne => absurd rfl hne, ?_⟩
    by_cases hempty : text.toList.length = 0
    · obtain rfl : stop = 0 := by
        have hle := hmore.le
        omega
      obtain rfl := eq_none_of_listSlot hslot hitem
      show (SimpleList.item text.toList ⟨0, text.toList.length⟩).asChild.Matches _
      rw [hempty]
      exact ListChild.Matches.refl _
    · refine ListChild.matches_item ?_ (isItem_slotExpr hslot 0)
      exact isEmpty_eq_false_of_lt (Nat.pos_of_ne_zero hempty)
  · -- up to a semicolon, white space is cut off at the back only
    have hsemicolon := mt (isEmpty_semicolonSpans row hblank).mp halone
    obtain ⟨gap, tail, -, hspace, hgap, hd⟩ := exists_gap row hblank hmore
    rw [Bool.eq_false_iff.mpr hsemicolon]
    cases hslot with
    | empty =>
      obtain rfl : 0 = stop := hitem.tiles
      rw [firstCore_blank hd hgap hspace]
      exact ⟨rfl, fun _ => rfl, ListChild.Matches.refl _⟩
    | @filled front body tree hfront hbody =>
      -- what is left ends with the item, and may begin with white space
      rw [firstCore_filled hd hitem (hbody.ends.append front) hgap hspace]
      have hlt : 0 < stop := hitem.tiles.lt (by simp [hbody.opens.ne_nil])
      refine ⟨rfl, fun _ => rfl, ?_⟩
      exact ListChild.matches_item (isEmpty_eq_false_of_lt hlt)
        (isItem_slotExpr (.filled hfront hbody) 0)

/-- **Separators and items after the first slot match one by one.** -/
theorem later_matches (hquote : ∀ lexeme ∈ lex text, lexeme.token ≠ .quote)
    (row : Rule.Row SharpRound more rest blank) (hblank : Blank blank)
    (h : Stretch text start (more ++ blank) text.toList.length) {previous : Nat}
    (hprevious : more ≠ [] → previous = start) :
    List.Forall₂ (fun plain other => plain.asChild.Matches other.asChild)
      (later text.toList text.toList.length previous (semicolonSpans (more ++ blank)))
      (rest.flatMap fun (spans, item) =>
        [separatorExpr spans.semicolon.start spans.whole, slotExpr item spans.whole.stop]) := by
  -- one round after another, each of which starts where the item before it stops
  induction row generalizing start previous with
  | nil =>
    rw [List.nil_append, semicolonSpans_blank hblank]
    exact .nil
  | @cons _ more blank _ rest hround row ih =>
    cases hround with
    | @intro semicolon slot _ item hslot hsharp =>
    have hfilled : semicolon.lexemes ≠ [] := by simp [Spaced.lexemes]
    obtain rfl : previous = start := hprevious (by simp [hfilled])
    -- the tokens of the separator, those of the slot, and the others
    rw [List.append_assoc, List.append_assoc] at h
    obtain ⟨border, hseparator, h⟩ := stretch_append.mp h
    obtain ⟨stop, hitem, hmore⟩ := stretch_append.mp h
    have hcover := hseparator.tiles.cover_eq hfilled
    obtain ⟨_, -, hbehind⟩ := stretch_append.mp hseparator
    obtain ⟨-, -, -, hafter⟩ := stretch_cons.mp hbehind
    have hfree := semicolonSpans_slot hslot fun lexeme hmem => hquote lexeme (hitem.mem lexeme hmem)
    obtain ⟨hstart, hstop, hmatched⟩ := laterCore_cutAt hslot hsharp row hblank hafter hitem hmore
    have hspans : semicolonSpans (semicolon.lexemes ++ slot ++ more ++ blank) =
        semicolon.lexeme.span :: semicolonSpans (more ++ blank) := by
      simp [semicolonSpans_spaced, hfree]
    rw [hspans, later, List.flatMap_cons, hcover, hstart]
    refine .cons (ListChild.Matches.refl _) (.cons hmatched ?_)
    exact ih hblank hmore hstop

/-- **The children of both lists of a text match one by one.** -/
theorem list_matches (hquote : ∀ lexeme ∈ lex text, lexeme.token ≠ .quote) {parts : ListParts}
    (h : list.parse text = .ok parts) :
    List.Forall₂ (fun plain other => plain.asChild.Matches other.asChild)
      (simpleListExpr text.toList (semicolonSpans (lex text))).children
      (listExpr parts text.length).children := by
  obtain ⟨_, reads, hrest⟩ := Rule.parse_eq_ok.mp h
  obtain ⟨_, left, hlex, rfl, slot, more, blank, rfl, hblank, hslot, row⟩ :=
    list_sharp (lex_tiles text) reads
  obtain rfl : left = [] := hrest
  rw [List.append_nil] at hlex row
  have hall := stretch_lex text
  rw [← String.length_toList, hlex] at hall
  obtain ⟨stop, hitem, hmore⟩ := stretch_append.mp hall
  have hfree := semicolonSpans_slot hslot fun lexeme hmem => hquote lexeme (hitem.mem lexeme hmem)
  have hspans : semicolonSpans (lex text) = semicolonSpans (more ++ blank) := by
    rw [hlex, semicolonSpans_append, hfree, List.nil_append]
  obtain ⟨-, hstop, hmatched⟩ := firstCore_cutAt hslot row hblank hitem hmore
  rw [hspans, simpleListExpr, listExpr]
  exact .cons hmatched (later_matches hquote row hblank hmore hstop)

end Grammar

/-! ## Trees of lists -/

/-- A node as a child of a list. -/
def ExprNode.asChild (node : ExprNode) : ListChild := ⟨node.kind, node.span⟩

namespace ExprTree

open ProjectLens.Expr

/-- The children of the root that are separators. -/
def separators (tree : ExprTree) : List ExprNode :=
  match tree.root? with
  | none => []
  | some root => (tree.childrenOf root).filter fun child => !child.kind.isItem

/-- Linking a tree changes nothing of children but links. -/
theorem map_bare_childrenOf_withLinks (tree : ExprTree) (node : ExprNode) :
    (tree.withLinks.childrenOf node).map ExprNode.bare = (tree.childrenOf node).map ExprNode.bare := by
  rw [childrenOf, childrenOf, List.map_filterMap, List.map_filterMap]
  congr 1
  funext id
  exact get?_withLinks tree id

/-- The nodes of a row are the children its expressions are. -/
theorem map_asChild_rootNodes (id : Nat) {es : List Expr}
    (h : ∀ e ∈ es, e.span.start ≤ e.span.stop) :
    (rootNodes id es).map ExprNode.asChild = es.map Expr.asChild := by
  induction es generalizing id with
  | nil => rfl
  | cons e es ih =>
    obtain ⟨he, hes⟩ := List.forall_mem_cons.mp h
    have hfirst : (rootNode id e).asChild = e.asChild := by
      rw [ExprNode.asChild, span_rootNode id he]
      rfl
    rw [rootNodes, List.map_cons, List.map_cons, hfirst, ih (id + e.size) hes]

/-- **The children of the root of a tree are those of its expression.** -/
theorem exists_root_asChild {expr : Expr} (h : expr.Every WellFormed) :
    ∃ root, (ofExpr expr).withLinks.root? = some root ∧
      ((ofExpr expr).withLinks.childrenOf root).map ExprNode.asChild =
        expr.children.map Expr.asChild := by
  obtain ⟨root, hroot, hbare⟩ := exists_root?_of_expr expr
  refine ⟨root, hroot, ?_⟩
  have hordered : ∀ child ∈ expr.children, child.span.start ≤ child.span.stop :=
    fun child hc => (h.children child hc).root.laid.ordered
  have hsits : Sits (expr.nodesFrom 0) 0 expr := ⟨[], [], by simp, rfl⟩
  have hnodes : (ofExpr expr).childrenOf root = rootNodes 1 expr.children := by
    rw [childrenOf, ← root.children_bare, hbare]
    exact childrenOf_rootNode hsits
  -- links are not looked at
  have hlinks : ExprNode.asChild = ExprNode.asChild ∘ ExprNode.bare := rfl
  rw [hlinks, ← List.map_map, map_bare_childrenOf_withLinks, List.map_map, ← hlinks, hnodes,
    map_asChild_rootNodes 1 hordered]

end ExprTree

/-- **Both lists of a text have the same separators.** -/
structure SameSeparators (plain list : ExprTree) : Prop where
  /-- Separators are the same, with their semicolons at the same places. -/
  separators : plain.separators.map ExprNode.asChild = list.separators.map ExprNode.asChild
  /-- So there are as many slots. -/
  slots : plain.listItems.length = list.listItems.length
  /-- A slot that is empty in the plain list is empty in the other, at the same place. -/
  empty : ∀ (i : Nat) (item : ExprNode), plain.listItems[i]? = some item → item.kind = .emptyItem →
    ∃ other, list.listItems[i]? = some other ∧ other.kind = .emptyItem ∧ other.span = item.span

/-- Nodes that match one by one have the same separators among them. -/
theorem separators_of_matches {plain list : List ExprNode}
    (h : List.Forall₂ (fun a b => a.asChild.Matches b.asChild) plain list) :
    (plain.filter fun child => !child.kind.isItem).map ExprNode.asChild =
      (list.filter fun child => !child.kind.isItem).map ExprNode.asChild := by
  induction h with
  | nil => rfl
  | @cons a b plain list hfirst _ ih =>
    have hitem : b.kind.isItem = a.kind.isItem := hfirst.isItem
    rw [List.filter_cons, List.filter_cons, hitem]
    by_cases ha : a.kind.isItem = true
    · simp [ha, ih]
    · have hsame : b.asChild = a.asChild := hfirst.same (.inl (Bool.eq_false_iff.mpr ha))
      simp [ha, ih, hsame]

/-- Trees whose children match one by one have the same separators. -/
theorem sameSeparators_of_matches {plain list : ExprTree} {root root' : ExprNode}
    (hroot : plain.root? = some root) (hroot' : list.root? = some root')
    (h : List.Forall₂ (fun a b => a.asChild.Matches b.asChild) (plain.childrenOf root)
      (list.childrenOf root')) : SameSeparators plain list := by
  -- items match items, since matching keeps which children are items
  have hitems : List.Forall₂ (fun a b : ExprNode => a.asChild.Matches b.asChild)
      plain.listItems list.listItems := by
    rw [ExprTree.listItems, ExprTree.listItems, hroot, hroot']
    refine List.rel_filter ?_ h
    intro a b hmatches
    have hitem : b.kind.isItem = a.kind.isItem := hmatches.isItem
    show a.kind.isItem = true ↔ b.kind.isItem = true
    rw [hitem]
  refine ⟨?_, hitems.length_eq, ?_⟩
  · rw [ExprTree.separators, ExprTree.separators, hroot, hroot']
    exact separators_of_matches h
  · intro i item hget hempty
    obtain ⟨hi, rfl⟩ := List.getElem?_eq_some_iff.mp hget
    have hi' : i < list.listItems.length := hitems.length_eq ▸ hi
    have hsame := (hitems.get hi hi').same (.inr hempty)
    refine ⟨list.listItems[i], List.getElem?_eq_getElem hi', ?_, ?_⟩
    · exact (congrArg ListChild.kind hsame).trans hempty
    · exact congrArg ListChild.span hsame

/-- Without quotes in a text there are none among its tokens. -/
theorem token_ne_quote {text : String} (h : '\x27' ∉ text.toList) :
    ∀ lexeme ∈ lex text, lexeme.token ≠ .quote := by
  intro lexeme hmem htoken
  have hcut := lex_cut text lexeme hmem
  rw [htoken] at hcut
  generalize hpiece : (Index.ofText text).sliceChars lexeme.span = piece at hcut
  -- a quote is cut off as it is written, so it is one of the characters
  cases hcut with
  | mark _ =>
    have hpresent : '\x27' ∈ (Index.ofText text).sliceChars lexeme.span := by
      rw [hpiece]
      decide
    exact h (List.mem_of_mem_drop (List.mem_of_mem_take hpresent))

/-- **Both lists of a text without quotes are separated at the same places.** -/
theorem separators_agree {text : String} {list : ExprTree} (hquote : '\x27' ∉ text.toList)
    (h : parseAs .list text = .ok list) :
    ∃ plain, parseAs .simpleList text = .ok plain ∧ SameSeparators plain list := by
  obtain ⟨parts, hparts, rfl⟩ := parseAs_list_iff.mp h
  have hplain : parseExpr .simpleList text =
      .ok (simpleListExpr text.toList (semicolonSpans (lex text))) := by
    rw [parseExpr, Grammar.simpleList_parse]
    rfl
  refine ⟨_, parseAs_eq_ok.mpr ⟨_, hplain, rfl⟩, ?_⟩
  obtain ⟨root, hroot, hchildren⟩ := ExprTree.exists_root_asChild (parseExpr_wellFormed hplain).1
  obtain ⟨root', hroot', hchildren'⟩ := ExprTree.exists_root_asChild (listExpr_wellFormed hparts)
  refine sameSeparators_of_matches hroot hroot' ?_
  -- nodes are compared by what the expressions below the roots are
  have hmatches := Grammar.list_matches (token_ne_quote hquote) hparts
  have hviews : List.Forall₂ ListChild.Matches
      ((simpleListExpr text.toList (semicolonSpans (lex text))).children.map Expr.asChild)
      ((listExpr parts text.length).children.map Expr.asChild) :=
    List.forall₂_map_left_iff.mpr (List.forall₂_map_right_iff.mpr hmatches)
  rw [← hchildren, ← hchildren'] at hviews
  exact List.forall₂_map_right_iff.mp (List.forall₂_map_left_iff.mp hviews)

/-- A list with a slot of white space, which is empty, and with white space around the others. -/
theorem separators_agree_blankSlot : '\x27' ∉ " A ; ;$(B) ;".toList ∧
    ∃ list, parseAs .list " A ; ;$(B) ;" = .ok list ∧
      ∃ plain, parseAs .simpleList " A ; ;$(B) ;" = .ok plain ∧ SameSeparators plain list := by
  have hquote : '\x27' ∉ " A ; ;$(B) ;".toList := by decide
  have hread : (parseAs .list " A ; ;$(B) ;").toBool = true := by decide +kernel
  refine ⟨hquote, ?_⟩
  cases h : parseAs .list " A ; ;$(B) ;" with
  | error complaint =>
    rw [h] at hread
    cases hread
  | ok list => exact ⟨list, rfl, separators_agree hquote h⟩

end ProjectLens
