import ProjectLens.Expression.Parse
import ProjectLens.Proofs.Soundness

/-! # Where the parts of a list stand

The children of a list of either kind stand in a row over the text, slots and separators in turn.

* `ListSlot`, `ListRound`: what a slot of a list and a separator with the slot after it are read from;
* `Grammar.listItem_sound`, `Grammar.separator_sound`, `Grammar.list_sound`: lists of expressions;
* `semicolonSpans`, `Grammar.simpleList_spans`: a plain list is read as the semicolons of its text, which
  stand in a row; `SimpleList.laterCore_within`: cutting white space off a slot stays inside the slot;
* `parseExpr_wellFormed`: the trees of all three forms of text. -/

namespace ProjectLens

open ProjectLens.Derivation ProjectLens.Expr

/-- What stands in a slot of a list. -/
inductive ListSlot : List Lexeme → Option Expr → Prop where
  /-- Nothing. -/
  | empty : ListSlot [] none
  /-- An expression with white space in front of it. -/
  | filled {blank body : List Lexeme} {tree : Expr} :
      Blank blank → Expression anyName body tree → ListSlot (blank ++ body) (some tree)

/-- A separator and the slot after it. -/
inductive ListRound : List Lexeme → Grammar.SeparatorSpans × Option Expr → Prop where
  /-- The only form. -/
  | intro (semicolon : Spaced (· = .semicolon)) {slot : List Lexeme} {item : Option Expr} :
      ListSlot slot item →
      ListRound (semicolon.lexemes ++ slot)
        (⟨semicolon.lexeme.span, cover semicolon.lexemes⟩, item)

/-- The places of the semicolons among some tokens. -/
def semicolonSpans (lexemes : List Lexeme) : List Span :=
  (lexemes.filter fun lexeme => lexeme.token = .semicolon).map Lexeme.span

section Semicolons

variable {lexemes left right : List Lexeme} {lexeme : Lexeme}

/-- `semicolonSpans (left ++ right) = semicolonSpans left ++ semicolonSpans right`. -/
@[simp] theorem semicolonSpans_append :
    semicolonSpans (left ++ right) = semicolonSpans left ++ semicolonSpans right := by
  simp [semicolonSpans]

/-- A `;` in front counts with its span. -/
theorem semicolonSpans_cons (h : lexeme.token = .semicolon) :
    semicolonSpans (lexeme :: lexemes) = lexeme.span :: semicolonSpans lexemes := by
  simp [semicolonSpans, h]

/-- Any other token in front does not count. -/
theorem semicolonSpans_cons_of_ne (h : lexeme.token ≠ .semicolon) :
    semicolonSpans (lexeme :: lexemes) = semicolonSpans lexemes := by
  simp [semicolonSpans, h]

/-- Tokens without `;` have no separators. -/
theorem semicolonSpans_eq_nil (h : ∀ lexeme ∈ lexemes, lexeme.token ≠ .semicolon) :
    semicolonSpans lexemes = [] := by
  rw [semicolonSpans, List.map_eq_nil_iff, List.filter_eq_nil_iff]
  intro lexeme hmem
  simpa using h lexeme hmem

/-- The semicolons of a text stand in a row. -/
theorem Tiles.semicolonSpans_spread {start stop : Nat} (tiles : Tiles start lexemes stop) :
    Spread start (semicolonSpans lexemes) stop := by
  induction lexemes generalizing start with
  | nil => exact tiles.le
  | cons lexeme rest ih =>
    obtain ⟨rfl, hlt, hrest⟩ := tiles
    by_cases h : lexeme.token = .semicolon
    · rw [semicolonSpans_cons h]
      exact ⟨Nat.le_refl _, Nat.le_of_lt hlt, ih hrest⟩
    · rw [semicolonSpans_cons_of_ne h]
      exact (ih hrest).widen (Nat.le_of_lt hlt) (Nat.le_refl stop)

end Semicolons

namespace Grammar

open Rule

/-- What `listItem` reads is a `ListSlot` over the tokens it takes, none for an empty slot. -/
theorem listItem_sound : listItem.Sound fun used item _ => ListSlot used item := by
  refine (optional_sound (p := fun used tree => ∃ blank body, used = blank ++ body ∧ Blank blank ∧
    Expression anyName body tree) ?_).mono ?_
  · refine (ws_sound.skipThen expression_sound).mono ?_
    rintro _ tree left ⟨blank, body, -, rfl, hblank, hbody⟩
    exact ⟨blank, body, rfl, hblank, hbody⟩
  · rintro _ _ left h
    cases h with
    | none => exact .empty
    | some h =>
      obtain ⟨blank, body, rfl, hblank, hbody⟩ := h
      exact .filled hblank hbody

/-- What `separator` reads is one `;` with the blanks around it: its own span and that of all. -/
theorem separator_sound : separator.Sound fun used spans _ =>
    ∃ s : Spaced (· = .semicolon), used = s.lexemes ∧
      spans = ⟨s.lexeme.span, cover s.lexemes⟩ := by
  have semicolon := (sound_just .semicolon).spanned (f := fun _ span => span) <| by
    rintro _ _ _ ⟨lexeme, rfl, -⟩
    exact List.cons_ne_nil _ _
  have whole := ((ws_sound.skipThen semicolon).thenSkip ws_sound).spanned
    (f := SeparatorSpans.mk) <| by
    rintro _ _ _ ⟨_, after, -, rfl, ⟨before, _, -, rfl, -, _, ⟨lexeme, rfl, -⟩, -⟩, -⟩
    simp
  refine whole.mono ?_
  rintro _ _ left ⟨_, ⟨_, after, -, rfl, ⟨before, _, -, rfl, hbefore, _, ⟨lexeme, rfl, htoken⟩, rfl⟩,
    hafter⟩, rfl⟩
  refine ⟨⟨before, lexeme, after, hbefore, htoken, hafter⟩, ?_, ?_⟩
  · simp [Spaced.lexemes]
  · simp [Spaced.lexemes]

/-- A list is its first slot, then separators with the slots after them, then white space, whatever is
said of a separator. -/
theorem list_sound_of {Separates : List Lexeme → SeparatorSpans → List Lexeme → Prop}
    (h : separator.Sound Separates) : list.Sound fun used parts left =>
    ∃ slot more blank, used = slot ++ (more ++ blank) ∧ Blank blank ∧ ListSlot slot parts.first ∧
      Row (fun used value left => ∃ l r, used = l ++ r ∧ Separates l value.1 (r ++ left) ∧
        ListSlot r value.2) more parts.rest (blank ++ left) := by
  refine ((listItem_sound.andThen (h.andThen listItem_sound).many).thenSkip ws_sound).map.mono ?_
  rintro _ _ left ⟨⟨first, rest⟩, ⟨_, blank, -, rfl, ⟨slot, more, rfl, hslot, row⟩, hblank⟩, rfl⟩
  exact ⟨slot, more, blank, by simp, hblank, hslot, row⟩

/-- What `list` reads is a slot, then rounds of a separator and a slot, then blanks. -/
theorem list_sound : list.Sound fun used parts left =>
    ∃ slot more blank, used = slot ++ (more ++ blank) ∧ Blank blank ∧ ListSlot slot parts.first ∧
      Row (fun used value _ => ListRound used value) more parts.rest (blank ++ left) := by
  refine (list_sound_of separator_sound).mono ?_
  rintro _ parts left ⟨slot, more, blank, rfl, hblank, hslot, row⟩
  refine ⟨slot, more, blank, rfl, hblank, hslot, row.mono ?_⟩
  rintro _ ⟨_, item⟩ left ⟨_, slot, rfl, ⟨semicolon, rfl, rfl⟩, hslot⟩
  exact .intro semicolon hslot

/-- What is read as a plain list are the places of its semicolons. -/
theorem simpleList_spans : simpleList.Sound fun used spans _ => spans = semicolonSpans used := by
  have semicolon := (sound_just .semicolon).spanned (f := fun _ span => span) <| by
    rintro _ _ _ ⟨lexeme, rfl, -⟩
    exact List.cons_ne_nil _ _
  have text : listText.Sound fun used _ _ => semicolonSpans used = [] := by
    refine (run_sound _).mono ?_
    rintro used _ _ ⟨hused, -, -⟩
    exact semicolonSpans_eq_nil fun lexeme hmem => by simpa using hused lexeme hmem
  refine (text.skipThen (semicolon.thenSkip text).many).mono ?_
  rintro _ spans left ⟨front, back, -, rfl, hfront, row⟩
  rw [semicolonSpans_append, hfront, List.nil_append]
  clear hfront
  induction row with
  | nil => rfl
  | cons h _ ih =>
    obtain ⟨_, after, -, rfl, ⟨_, ⟨lexeme, rfl, htoken⟩, rfl⟩, hafter⟩ := h
    rw [semicolonSpans_append, semicolonSpans_append, semicolonSpans_cons htoken, hafter, ← ih]
    rfl

end Grammar

/-! ## Lists of expressions -/

/-- A node without children is well-formed wherever it stands. -/
theorem leaf_wellFormed {kind : Kind} {span : Span} (hspan : span.start ≤ span.stop)
    (hkind : ∀ connective, kind ≠ .logical connective) : (Expr.leaf kind span).Every WellFormed := by
  have hlaid : Spread span.start ([].map Expr.span) span.stop := hspan
  exact .node ⟨laid_of_spread hlaid, layered_of_kind hkind⟩ (by simp)

/-- The slot of a list stands over its tokens. -/
theorem slotExpr_placed {used : List Lexeme} {item : Option Expr} {start stop : Nat}
    (h : ListSlot used item) (tiles : Tiles start used stop) :
    Spread start [(slotExpr item start).span] stop ∧
      (slotExpr item start).Every WellFormed := by
  cases h with
  | empty =>
    -- an empty expression at the place where the slot would be
    have hstart : start = stop := tiles
    refine ⟨⟨Nat.le_refl _, Nat.le_refl _, Nat.le_of_eq hstart⟩, ?_⟩
    exact leaf_wellFormed (Nat.le_refl _) (by simp)
  | filled _ hbody =>
    obtain ⟨border, hblank, tiles⟩ := tiles_append.mp tiles
    refine ⟨(hbody.good.spread tiles).widen hblank.le (Nat.le_refl _), ?_⟩
    exact hbody.good.every tiles

/-- A separator stands over its tokens, and the slot after it over the ones that follow. -/
theorem listRound_placed {used : List Lexeme} {value : Grammar.SeparatorSpans × Option Expr}
    {start stop : Nat} (h : ListRound used value) (tiles : Tiles start used stop) :
    Spread start [value.1.whole, (slotExpr value.2 value.1.whole.stop).span] stop ∧
      (separatorExpr value.1.semicolon.start value.1.whole).Every WellFormed ∧
      (slotExpr value.2 value.1.whole.stop).Every WellFormed := by
  obtain ⟨semicolon, hslot⟩ := h
  obtain ⟨border, tiles, tiles'⟩ := tiles_append.mp tiles
  have hfilled : semicolon.lexemes ≠ [] := by simp [Spaced.lexemes]
  have hle := tiles.le
  rw [tiles.cover_eq hfilled]
  obtain ⟨hspread, hevery⟩ := slotExpr_placed hslot tiles'
  refine ⟨⟨Nat.le_refl _, hle, hspread⟩, ?_, hevery⟩
  exact leaf_wellFormed hle (by simp)

/-- The separators of a list and the slots after them stand in a row. -/
theorem listRounds_placed {used left : List Lexeme}
    {rest : List (Grammar.SeparatorSpans × Option Expr)} {start stop : Nat}
    (row : Rule.Row (fun used value _ => ListRound used value) used rest left)
    (tiles : Tiles start used stop) :
    Spread start ((rest.flatMap fun (spans, item) =>
      [separatorExpr spans.semicolon.start spans.whole,
        slotExpr item spans.whole.stop]).map Expr.span) stop ∧
    ∀ e ∈ rest.flatMap fun (spans, item) =>
      [separatorExpr spans.semicolon.start spans.whole, slotExpr item spans.whole.stop],
      e.Every WellFormed := by
  induction row generalizing start with
  | nil => exact ⟨tiles.le, by simp⟩
  | @cons used more left value values h _ ih =>
    obtain ⟨border, hused, hmore⟩ := tiles_append.mp tiles
    obtain ⟨hspread, hseparator, hslot⟩ := listRound_placed h hused
    obtain ⟨hlater, hlater'⟩ := ih hmore
    refine ⟨hspread.append hlater, ?_⟩
    simp only [List.flatMap_cons, List.cons_append, List.nil_append, List.forall_mem_cons]
    exact ⟨hseparator, hslot, hlater'⟩

/-- **The children of a list stand in a row over its text**, each of them well-formed. -/
theorem listExpr_wellFormed {text : String} {parts : Grammar.ListParts}
    (h : Grammar.list.parse text = .ok parts) :
    (listExpr parts text.length).Every WellFormed := by
  obtain ⟨rest, reads, hrest⟩ := Rule.parse_eq_ok.mp h
  have tiles := lex_tiles text
  obtain ⟨used, left, hlex, rfl, slot, more, blank, rfl, -, hslot, row⟩ :=
    Grammar.list_sound tiles reads
  obtain rfl : left = [] := hrest
  rw [hlex, List.append_nil] at tiles
  obtain ⟨border, tiles, hmore⟩ := tiles_append.mp tiles
  obtain ⟨border', hmore, hblank⟩ := tiles_append.mp hmore
  obtain ⟨hfirst, hfirst'⟩ := slotExpr_placed hslot tiles
  obtain ⟨hlater, hlater'⟩ := listRounds_placed row hmore
  -- the list also covers the white space at its end, which belongs to no child
  have hspread := (hfirst.append hlater).widen (Nat.le_refl 0) hblank.le
  refine .node ⟨laid_of_spread hspread, layered_of_kind (by simp)⟩ ?_
  exact List.forall_mem_cons.mpr ⟨hfirst', hlater'⟩

/-! ## Lists of plain texts -/

namespace SimpleList

variable (chars : List Char)

/-- A part of a text has no more characters than its span has places. -/
theorem length_charsOf_le (span : Span) : (charsOf chars span).length ≤ span.length := by
  rw [charsOf, List.length_take]
  exact Nat.min_le_left ..

/-- A span lies inside a slot. -/
structure Within (slot core : Span) : Prop where
  start_le : slot.start ≤ core.start
  ordered : core.start ≤ core.stop
  le_stop : core.stop ≤ slot.stop

/-- `Within slot (trimStart chars slot)`. -/
theorem trimStart_within {slot : Span} (h : slot.start ≤ slot.stop) :
    Within slot (trimStart chars slot) := by
  have hcut := (List.takeWhile_sublist isBlank (l := charsOf chars slot)).length_le
  have hlength := length_charsOf_le chars slot
  rw [Span.length] at hlength
  constructor <;> simp only [trimStart] <;> omega

/-- `Within slot (trimStop chars slot)`. -/
theorem trimStop_within {slot : Span} (h : slot.start ≤ slot.stop) :
    Within slot (trimStop chars slot) := by
  have hcut := (List.takeWhile_sublist isBlank (l := (charsOf chars slot).reverse)).length_le
  have hlength := length_charsOf_le chars slot
  rw [List.length_reverse] at hcut
  rw [Span.length] at hlength
  constructor <;> simp only [trimStop] <;> omega

/-- `Within slot middle → Within middle core → Within slot core`. -/
theorem Within.trans {slot middle core : Span} (h : Within slot middle) (h' : Within middle core) :
    Within slot core where
  start_le := Nat.le_trans h.start_le h'.start_le
  ordered := h'.ordered
  le_stop := Nat.le_trans h'.le_stop h.le_stop

/-- The core of the first slot lies in the slot, alone or not. -/
theorem firstCore_within {slot : Span} (alone : Bool) (h : slot.start ≤ slot.stop) :
    Within slot (firstCore chars alone slot) := by
  unfold firstCore
  split
  · exact ⟨Nat.le_refl _, h, Nat.le_refl _⟩
  · exact trimStop_within chars h

/-- **Cutting white space off a slot stays inside it**, also where nothing else is in it. -/
theorem laterCore_within {slot : Span} (last : Bool) (h : slot.start ≤ slot.stop) :
    Within slot (laterCore chars last slot) := by
  have hfront := trimStart_within chars h
  unfold laterCore
  simp only
  split
  · -- a slot of white space only: an empty span at its end
    exact ⟨h, Nat.le_refl _, Nat.le_refl _⟩
  split
  · exact hfront
  · exact hfront.trans (trimStop_within chars hfront.ordered)

/-- `(item chars core).span = core`. -/
@[simp] theorem span_item (core : Span) : (item chars core).span = core := by
  unfold item
  split <;> rfl

/-- An item of a plain list is well formed, empty or not: it has no children. -/
theorem item_wellFormed {core : Span} (h : core.start ≤ core.stop) :
    (item chars core).Every WellFormed := by
  unfold item
  split <;> exact leaf_wellFormed h (by simp)

/-- A slot ends where the next semicolon stands, so no later than the text. -/
theorem slotStop_le {start length : Nat} {semicolons : List Span}
    (h : Spread start semicolons length) :
    start ≤ slotStop length semicolons ∧
      Spread (slotStop length semicolons) semicolons length := by
  cases semicolons with
  | nil => exact ⟨h, Nat.le_refl _⟩
  | cons semicolon rest => exact ⟨h.1, Nat.le_refl _, h.2.1, h.2.2⟩

/-- **Separators and items after the first one stand in a row.** -/
theorem later_placed {length previous : Nat} {semicolons : List Span}
    (h : Spread previous semicolons length) :
    Spread previous ((later chars length previous semicolons).map Expr.span) length ∧
      ∀ e ∈ later chars length previous semicolons, e.Every WellFormed := by
  induction semicolons generalizing previous with
  | nil => exact ⟨h, by simp [later]⟩
  | cons semicolon rest ih =>
    obtain ⟨hprevious, hsemicolon, hrest⟩ := h
    obtain ⟨hslot, hnext⟩ := slotStop_le hrest
    have hcore : Within ⟨semicolon.stop, slotStop length rest⟩
        (laterCore chars rest.isEmpty ⟨semicolon.stop, slotStop length rest⟩) :=
      laterCore_within chars rest.isEmpty hslot
    obtain ⟨hlater, hlater'⟩ := ih (hnext.widen hcore.le_stop (Nat.le_refl _))
    -- a separator runs from the item before it to the item after it, white space included
    have hseparator : previous ≤
        (laterCore chars rest.isEmpty ⟨semicolon.stop, slotStop length rest⟩).start := by
      have := hcore.start_le
      simp only at this
      omega
    rw [later]
    refine ⟨⟨Nat.le_refl _, hseparator, ?_⟩, ?_⟩
    · simp only [List.map_cons, span_item]
      exact ⟨Nat.le_refl _, hcore.ordered, hlater⟩
    · refine List.forall_mem_cons.mpr ⟨leaf_wellFormed hseparator (by simp), ?_⟩
      exact List.forall_mem_cons.mpr ⟨item_wellFormed chars hcore.ordered, hlater'⟩

end SimpleList

/-- **The children of a simple list stand in a row over its text**, each of them well-formed. -/
theorem simpleListExpr_wellFormed {chars : List Char} {semicolons : List Span}
    (h : Spread 0 semicolons chars.length) :
    (simpleListExpr chars semicolons).Every WellFormed := by
  obtain ⟨hslot, hnext⟩ := SimpleList.slotStop_le h
  have hcore : SimpleList.Within ⟨0, SimpleList.slotStop chars.length semicolons⟩
      (SimpleList.firstCore chars semicolons.isEmpty
        ⟨0, SimpleList.slotStop chars.length semicolons⟩) :=
    SimpleList.firstCore_within chars semicolons.isEmpty hslot
  obtain ⟨hlater, hlater'⟩ := SimpleList.later_placed chars
    (hnext.widen hcore.le_stop (Nat.le_refl _))
  refine .node ⟨laid_of_spread ?_, layered_of_kind (by simp)⟩ ?_
  · rw [List.map_cons, SimpleList.span_item]
    exact ⟨Nat.zero_le _, hcore.ordered, hlater⟩
  · exact List.forall_mem_cons.mpr ⟨SimpleList.item_wellFormed chars hcore.ordered, hlater'⟩

/-- The semicolons of a simple list stand in a row over its text. -/
theorem simpleList_spread {text : String} {semicolons : List Span}
    (h : Grammar.simpleList.parse text = .ok semicolons) : Spread 0 semicolons text.length := by
  obtain ⟨rest, reads, hrest⟩ := Rule.parse_eq_ok.mp h
  have tiles := lex_tiles text
  obtain ⟨used, left, hlex, rfl, rfl⟩ := Grammar.simpleList_spans tiles reads
  obtain rfl : left = [] := hrest
  rw [hlex, List.append_nil] at tiles
  exact tiles.semicolonSpans_spread

/-! ## Texts of any form -/

/-- **Every node of a parsed text is well-formed**, and the root lies in the text. -/
theorem parseExpr_wellFormed {form : Form} {text : String} {expr : Expr}
    (h : parseExpr form text = .ok expr) :
    expr.Every WellFormed ∧ expr.span.stop ≤ text.length := by
  cases form with
  | root =>
    obtain ⟨before, body, after, hlex, -, -, hbody⟩ := (Grammar.root_of_parse h).body
    -- the expression takes a middle part of tokens that tile the text
    have tiles := lex_tiles text
    rw [hlex] at tiles
    obtain ⟨start, -, tiles⟩ := tiles_append.mp tiles
    obtain ⟨stop, tiles, hafter⟩ := tiles_append.mp tiles
    refine ⟨hbody.good.every tiles, ?_⟩
    rw [hbody.good.span_eq tiles]
    exact hafter.le
  | list =>
    obtain ⟨parts, hparse, rfl⟩ := parseExpr_list_eq_ok.mp h
    exact ⟨listExpr_wellFormed hparse, Nat.le_refl _⟩
  | simpleList =>
    obtain ⟨semicolons, hparse, rfl⟩ := parseExpr_simpleList_eq_ok.mp h
    have hspread := simpleList_spread hparse
    rw [← String.length_toList] at hspread ⊢
    exact ⟨simpleListExpr_wellFormed hspread, Nat.le_refl _⟩

end ProjectLens
