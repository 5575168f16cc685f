import ProjectLens.Expression.Rule

/-! # How tokens are laid out

The tokens of a text stand end to end: each starts where the one before it stops, and none is empty.
So the place where reading goes on is also the place where the last token that was read stops.

* `Tiles start lexemes stop`: tokens that stand end to end from `start` to `stop`;
* `cover`: the span from the first of some tokens to the last one;
* `Spread`: spans in a row that need not touch each other;
* `Blank`, `skipBlank`: white space between the parts of a construct;
* `lex_tiles`: the tokens of a text tile it. -/

namespace ProjectLens

/-- **Tokens that stand end to end** from `start` to `stop`, none of them empty. -/
def Tiles : Nat → List Lexeme → Nat → Prop
  | start, [], stop => start = stop
  | start, lexeme :: rest, stop =>
    lexeme.span.start = start ∧ start < lexeme.span.stop ∧ Tiles lexeme.span.stop rest stop

/-- No tokens tile from a place to itself. -/
@[simp] theorem tiles_nil {start stop : Nat} : Tiles start [] stop ↔ start = stop := Iff.rfl

/-- A token that is not empty stands at the start, and the others tile on from its end. -/
@[simp] theorem tiles_cons {start stop : Nat} {lexeme : Lexeme} {rest : List Lexeme} :
    Tiles start (lexeme :: rest) stop ↔
      lexeme.span.start = start ∧ start < lexeme.span.stop ∧ Tiles lexeme.span.stop rest stop :=
  Iff.rfl

/-- Tokens in a row tile a stretch that splits where the rows meet. -/
theorem tiles_append {start stop : Nat} {left right : List Lexeme} :
    Tiles start (left ++ right) stop ↔
      ∃ middle, Tiles start left middle ∧ Tiles middle right stop := by
  induction left generalizing start with
  | nil => simp
  | cons lexeme left ih => simp [ih, and_assoc]

namespace Tiles

variable {start stop : Nat} {lexemes : List Lexeme}

/-- `Tiles start lexemes stop → start ≤ stop`. -/
theorem le (tiles : Tiles start lexemes stop) : start ≤ stop := by
  induction lexemes generalizing start with
  | nil => exact Nat.le_of_eq tiles
  | cons lexeme rest ih =>
    have := ih tiles.2.2
    have := tiles.2.1
    omega

/-- Every token takes up room. -/
theorem lt (tiles : Tiles start lexemes stop) (filled : lexemes ≠ []) : start < stop := by
  cases lexemes with
  | nil => exact absurd rfl filled
  | cons lexeme rest =>
    have := le tiles.2.2
    have := tiles.2.1
    omega

/-- Reading goes on where the tokens that are left start. -/
theorem offset_eq (tiles : Tiles start lexemes stop) : Input.offset ⟨lexemes, stop⟩ = start := by
  cases lexemes with
  | nil => exact tiles.symm
  | cons lexeme rest => exact tiles.1

end Tiles

/-- **The span of some tokens**: from the start of the first one to the end of the last one. -/
def cover (lexemes : List Lexeme) : Span :=
  ⟨(lexemes.head?.map fun lexeme => lexeme.span.start).getD 0,
    (lexemes.getLast?.map fun lexeme => lexeme.span.stop).getD 0⟩

/-- `cover [lexeme] = lexeme.span`. -/
@[simp] theorem cover_singleton (lexeme : Lexeme) : cover [lexeme] = lexeme.span := rfl

/-- The span of two rows of tokens runs from the first to the second. -/
theorem cover_append {left right : List Lexeme} (hl : left ≠ []) (hr : right ≠ []) :
    cover (left ++ right) = ⟨(cover left).start, (cover right).stop⟩ := by
  obtain ⟨first, left, rfl⟩ := List.exists_cons_of_ne_nil hl
  have hlast : (first :: left ++ right).getLast? = right.getLast? := by
    rw [List.getLast?_append]
    obtain ⟨last, h⟩ := Option.ne_none_iff_exists'.mp (mt List.getLast?_eq_none_iff.mp hr)
    rw [h]
    rfl
  unfold cover
  rw [hlast]
  rfl

/-- Tokens that stand end to end cover just that stretch. -/
theorem Tiles.cover_eq {start stop : Nat} {lexemes : List Lexeme} (tiles : Tiles start lexemes stop)
    (filled : lexemes ≠ []) : cover lexemes = ⟨start, stop⟩ := by
  induction lexemes generalizing start with
  | nil => exact absurd rfl filled
  | cons lexeme rest ih =>
    obtain ⟨hstart, -, htail⟩ := tiles
    cases rest with
    | nil =>
      obtain rfl : lexeme.span.stop = stop := htail
      rw [cover_singleton, ← hstart]
    | cons next rest =>
      have hrest := ih htail (List.cons_ne_nil next rest)
      rw [← List.singleton_append, cover_append (by simp) (by simp), hrest, cover_singleton, hstart]

/-! ## Spans in a row -/

/-- **Spans in a row**: they stand in order between two offsets, and none overlaps the next. -/
def Spread : Nat → List Span → Nat → Prop
  | start, [], stop => start ≤ stop
  | start, span :: rest, stop =>
    start ≤ span.start ∧ span.start ≤ span.stop ∧ Spread span.stop rest stop

/-- No spans are spread over any range. -/
@[simp] theorem spread_nil {start stop : Nat} : Spread start [] stop ↔ start ≤ stop := Iff.rfl

/-- A span lies behind the start, and the others are spread behind it. -/
@[simp] theorem spread_cons {start stop : Nat} {span : Span} {rest : List Span} :
    Spread start (span :: rest) stop ↔
      start ≤ span.start ∧ span.start ≤ span.stop ∧ Spread span.stop rest stop := Iff.rfl

namespace Spread

variable {start stop : Nat} {spans : List Span}

/-- `Spread start spans stop → start ≤ stop`. -/
theorem le (h : Spread start spans stop) : start ≤ stop := by
  induction spans generalizing start with
  | nil => exact h
  | cons span rest ih =>
    have := ih h.2.2
    have := h.1
    have := h.2.1
    omega

/-- A row stands between any two offsets around it. -/
theorem widen (h : Spread start spans stop) {start' stop' : Nat} (hstart : start' ≤ start)
    (hstop : stop ≤ stop') : Spread start' spans stop' := by
  induction spans generalizing start start' with
  | nil => exact Nat.le_trans hstart (Nat.le_trans h hstop)
  | cons span rest ih => exact ⟨Nat.le_trans hstart h.1, h.2.1, ih h.2.2 (Nat.le_refl _)⟩

/-- A row may go on where it stops. -/
theorem append (h : Spread start spans stop) {more : List Span} {stop' : Nat}
    (h' : Spread stop more stop') : Spread start (spans ++ more) stop' := by
  induction spans generalizing start with
  | nil => exact h'.widen h (Nat.le_refl _)
  | cons span rest ih => exact ⟨h.1, h.2.1, ih h.2.2⟩

/-- Spread spans lie within their range. -/
theorem inside (h : Spread start spans stop) {span : Span} (hs : span ∈ spans) :
    start ≤ span.start ∧ span.stop ≤ stop := by
  induction spans generalizing start with
  | nil => cases hs
  | cons first rest ih =>
    obtain ⟨hstart, horder, hrest⟩ := h
    have hle := le hrest
    rcases List.mem_cons.mp hs with rfl | hs
    · exact ⟨hstart, hle⟩
    · have := ih hrest hs
      omega

/-- Spread spans are the right way round. -/
theorem ordered (h : Spread start spans stop) {span : Span} (hs : span ∈ spans) :
    span.start ≤ span.stop := by
  induction spans generalizing start with
  | nil => cases hs
  | cons first rest ih =>
    rcases List.mem_cons.mp hs with rfl | hs
    · exact h.2.1
    · exact ih h.2.2 hs

/-- Spread spans follow each other: `spans.Pairwise fun a b => a.stop ≤ b.start`. -/
theorem apart (h : Spread start spans stop) :
    spans.Pairwise fun a b => a.stop ≤ b.start := by
  induction spans generalizing start with
  | nil => exact .nil
  | cons span rest ih => exact .cons (fun other ho => (inside h.2.2 ho).1) (ih h.2.2)

end Spread

/-! ## White space -/

/-- Tokens of white space only. -/
def Blank (lexemes : List Lexeme) : Prop := ∀ lexeme ∈ lexemes, lexeme.token.isWhitespace = true

/-- No tokens are blank. -/
@[simp] theorem blank_nil : Blank [] := by simp [Blank]

/-- Tokens are blank if the first is white space and the others are blank. -/
@[simp] theorem blank_cons {lexeme : Lexeme} {rest : List Lexeme} :
    Blank (lexeme :: rest) ↔ lexeme.token.isWhitespace = true ∧ Blank rest := by
  simp [Blank]

/-- `Blank (left ++ right) ↔ Blank left ∧ Blank right`. -/
@[simp] theorem blank_append {left right : List Lexeme} :
    Blank (left ++ right) ↔ Blank left ∧ Blank right := by
  simp only [Blank, List.mem_append]
  constructor
  · intro h
    exact ⟨fun lexeme hl => h lexeme (Or.inl hl), fun lexeme hr => h lexeme (Or.inr hr)⟩
  · rintro ⟨hleft, hright⟩ lexeme (hl | hr)
    · exact hleft lexeme hl
    · exact hright lexeme hr

/-- What is left after white space. -/
def skipBlank (lexemes : List Lexeme) : List Lexeme :=
  lexemes.dropWhile fun lexeme => lexeme.token.isWhitespace

/-- White space in front is skipped. -/
theorem skipBlank_append {blank rest : List Lexeme} (h : Blank blank) :
    skipBlank (blank ++ rest) = skipBlank rest := by
  unfold skipBlank
  rw [List.dropWhile_append_of_pos h]

/-- Nothing is skipped in front of a token that is not white space. -/
theorem skipBlank_cons {lexeme : Lexeme} {rest : List Lexeme}
    (h : lexeme.token.isWhitespace = false) : skipBlank (lexeme :: rest) = lexeme :: rest := by
  unfold skipBlank
  rw [List.dropWhile_cons_of_neg (by simp [h])]

/-- What is skipped is white space, and the rest does not start with any. -/
theorem exists_blank_append_skipBlank (lexemes : List Lexeme) :
    ∃ blank, Blank blank ∧ lexemes = blank ++ skipBlank lexemes := by
  refine ⟨lexemes.takeWhile fun lexeme => lexeme.token.isWhitespace, ?_, ?_⟩
  · intro lexeme hl
    exact List.all_eq_true.mp List.all_takeWhile lexeme hl
  · exact List.takeWhile_append_dropWhile.symm

/-- The first token after white space is not white space. -/
theorem isWhitespace_of_skipBlank {lexemes rest : List Lexeme} {lexeme : Lexeme}
    (h : skipBlank lexemes = lexeme :: rest) : lexeme.token.isWhitespace = false := by
  have := List.head_dropWhile_not (fun lexeme : Lexeme => lexeme.token.isWhitespace) (l := lexemes)
  unfold skipBlank at h
  simp only [h] at this
  simpa using this

/-! ## The tokens of a text -/

/-- The tokens of a text that starts at `offset` tile it. -/
theorem lexFrom_tiles (offset : Nat) (chars : List Char) :
    Tiles offset (lexFrom offset chars) (offset + chars.length) := by
  induction offset, chars using lexFrom.induct with
  | case1 offset => simp [lexFrom]
  | case2 offset c rest found stop ih =>
    rw [lexFrom]
    have hle := Token.next_length_le c rest
    refine ⟨rfl, ?_, ?_⟩
    · -- at least the first character is taken
      show offset < offset + (rest.length + 1 - (Token.next c rest).2.length)
      omega
    · have hstop : offset + (c :: rest).length = stop + found.2.length := by
        simp only [List.length_cons, stop, found]
        omega
      rw [hstop]
      exact ih

/-- **The tokens of a text tile it.** -/
theorem lex_tiles (text : String) : Tiles 0 (lex text) text.length := by
  have := lexFrom_tiles 0 text.toList
  rw [Nat.zero_add, String.length_toList] at this
  exact this

end ProjectLens
