import ProjectLens.Proofs.WrittenGrammar

/-! # Texts that start further on

Rules look at tokens and not at where these stand, and every span they give is put together from
places of tokens. So if all tokens stand further on by some characters, they are read as the same
tree, all of whose spans stand further on by as many.

* `Span.moved`, `Lexeme.moved`, `Input.moved`, `Expr.moved`;
* `lexFrom_moved`: a text that starts further on has the same tokens further on;
* `Rule.Moves`: a rule ends on moved tokens as it does on the tokens themselves; one law for each way of
  putting rules together, which instance search applies;
* `Grammar.*_moves`: the functions that put values together go along with moving;
* `Grammar.root_moves`: so a whole text is read alike further on. -/

namespace ProjectLens

/-- The span some places further on. -/
def Span.moved (places : Nat) (s : Span) : Span := ⟨s.start + places, s.stop + places⟩

/-- The token some places further on. -/
def Lexeme.moved (places : Nat) (lexeme : Lexeme) : Lexeme :=
  ⟨lexeme.token, lexeme.span.moved places⟩

/-- `(lexeme.moved places).token = lexeme.token`: the token stays the same. -/
@[simp] theorem Lexeme.token_moved (places : Nat) (lexeme : Lexeme) :
    (lexeme.moved places).token = lexeme.token := rfl

namespace Input

/-- The tokens left, and the end of the text, some places further on. -/
def moved (places : Nat) (input : Input) : Input :=
  ⟨input.lexemes.map (Lexeme.moved places), input.stop + places⟩

/-- `(input.moved places).left = input.left`: as many tokens are left. -/
@[simp] theorem left_moved (places : Nat) (input : Input) :
    (input.moved places).left = input.left := by
  simp [moved, left]

/-- `(input.moved places).offset = input.offset + places`: the next token, or the end, stands further
on. -/
@[simp] theorem offset_moved (places : Nat) (input : Input) :
    (input.moved places).offset = input.offset + places := by
  obtain ⟨lexemes, stop⟩ := input
  cases lexemes with
  | nil => rfl
  | cons lexeme rest => rfl

end Input

/-- **A text that starts further on has the same tokens** as far on. -/
theorem lexFrom_moved (places offset : Nat) (chars : List Char) :
    lexFrom (offset + places) chars = (lexFrom offset chars).map (Lexeme.moved places) := by
  induction offset, chars using lexFrom.induct with
  | case1 offset => simp [lexFrom]
  | case2 offset c rest found stop ih =>
    rw [lexFrom, lexFrom, List.map_cons, ← ih]
    have hstop : offset + places + (rest.length + 1 - (Token.next c rest).2.length) =
        stop + places := by
      simp only [stop, found]
      omega
    rw [hstop]
    rfl

namespace Expr

mutual

/-- The expression with every span some places further on. -/
def moved (places : Nat) : Expr → Expr
  | .node kind span children => .node kind (span.moved places) (movedAll places children)

/-- Several expressions, each some places further on. -/
def movedAll (places : Nat) : List Expr → List Expr
  | [] => []
  | expr :: exprs => moved places expr :: movedAll places exprs

end

variable (places : Nat)

/-- `movedAll places exprs = exprs.map (moved places)`. -/
theorem movedAll_eq (exprs : List Expr) : movedAll places exprs = exprs.map (moved places) := by
  induction exprs with
  | nil => rfl
  | cons expr exprs ih => rw [movedAll, ih, List.map_cons]

/-- A node is moved with its children. -/
@[simp] theorem moved_node (kind : Kind) (span : Span) (children : List Expr) :
    (node kind span children).moved places =
      .node kind (span.moved places) (children.map (moved places)) := by
  rw [moved, movedAll_eq]

/-- A leaf is moved with its span. -/
@[simp] theorem moved_leaf (kind : Kind) (span : Span) :
    (leaf kind span).moved places = leaf kind (span.moved places) := rfl

/-- A symbol is moved with its span. -/
@[simp] theorem moved_symbol (name : String) (span : Span) :
    (symbol name span).moved places = symbol name (span.moved places) := rfl

/-- An expression over another span is moved with that span. -/
theorem moved_withSpan (span : Span) (expr : Expr) :
    (expr.withSpan span).moved places = (expr.moved places).withSpan (span.moved places) := by
  cases expr
  simp [withSpan]

/-- Conditions that are joined are joined further on. -/
theorem moved_join (connective : Connective) (left right : Expr) :
    (join connective left right).moved places =
      join connective (left.moved places) (right.moved places) := by
  cases left
  cases right
  simp [join, span, Span.moved]

/-- A row of conditions that is joined is joined further on. -/
theorem moved_foldl_join (connective : Connective) (first : Expr) (rest : List Expr) :
    (rest.foldl (join connective) first).moved places =
      (rest.map (moved places)).foldl (join connective) (first.moved places) := by
  induction rest generalizing first with
  | nil => rfl
  | cons expr rest ih => rw [List.foldl_cons, List.map_cons, List.foldl_cons, ih, moved_join]

end Expr

namespace Rule

variable {α β : Type}

/-- **A rule that does not depend on places**: on tokens that are moved it reads the value that is
moved, or fails as before. How a value is moved follows from the rule, so it is found together with the
proof. -/
class Moves (places : Nat) (move : outParam (α → α)) (rule : Rule α) : Prop where
  reads : ∀ {input rest : Input} {value : α}, rule.Reads input value rest →
    rule.Reads (input.moved places) (move value) (rest.moved places)
  fails : ∀ {input : Input}, rule.Fails input → rule.Fails (input.moved places)

namespace Moves

variable {places : Nat} {move : α → α} {move' : β → β} {first rule : Rule α} {second : Rule β}

/-- Which token `token expected select` takes does not depend on where it stands. -/
instance token (expected : List (Option Token)) (select : Token → Option α) :
    (Rule.token expected select).Moves places id where
  reads h := by
    obtain ⟨lexeme, after, hl, hselect, rfl⟩ := reads_token.mp h
    refine reads_token.mpr ⟨lexeme.moved places, after.map (Lexeme.moved places), ?_, hselect, rfl⟩
    rw [Input.moved, hl, List.map_cons]
  fails {input} h := by
    refine fails_token.mpr fun lexeme after hl => ?_
    obtain ⟨original, rest, hinput, rfl, -⟩ := List.map_eq_cons_iff.mp hl
    exact fails_token.mp h original rest hinput

/-- `just t` takes the same token. -/
instance just (t : Token) : (Rule.just t).Moves places id := token _ _

/-- `satisfying p` takes the same token. -/
instance satisfying (p : Token → Bool) : (Rule.satisfying p).Moves places id := token _ _

/-- The end of the input is the end of the input that is moved. -/
instance endOfInput : Rule.endOfInput.Moves places id where
  reads h := by
    obtain ⟨hend, rfl⟩ := reads_endOfInput.mp h
    exact reads_endOfInput.mpr ⟨by rw [Input.moved, hend]; rfl, rfl⟩
  fails h := fails_endOfInput.mpr fun hend => fails_endOfInput.mp h (List.map_eq_nil_iff.mp hend)

/-- `rule.map f` moves where `f` goes along with moving: `f (move v) = move' (f v)`. -/
theorem map {f : α → β} (h : rule.Moves places move) (hf : ∀ v, f (move v) = move' (f v)) :
    (rule.map f).Moves places move' where
  reads hreads := by
    obtain ⟨v, hv, rfl⟩ := reads_map.mp hreads
    exact reads_map.mpr ⟨move v, h.reads hv, hf v⟩
  fails hfails := fails_map.mpr (h.fails (fails_map.mp hfails))

/-- A name for what is missing does not depend on places. -/
instance labelled {text : String} [h : rule.Moves places move] :
    (rule.labelled text).Moves places move where
  reads hreads := reads_labelled.mpr (h.reads (reads_labelled.mp hreads))
  fails hfails := fails_labelled.mpr (h.fails (fails_labelled.mp hfails))

/-- `rule.spanned f` moves where `f` goes along with moving its value and its span. -/
theorem spanned {f : α → Span → β} (h : rule.Moves places move)
    (hf : ∀ v span, f (move v) (span.moved places) = move' (f v span)) :
    (rule.spanned f).Moves places move' where
  reads hreads := by
    obtain ⟨v, hv, rfl⟩ := reads_spanned.mp hreads
    refine reads_spanned.mpr ⟨move v, h.reads hv, ?_⟩
    rw [Input.offset_moved, Input.offset_moved]
    exact hf v ⟨_, _⟩
  fails hfails := fails_spanned.mpr (h.fails (fails_spanned.mp hfails))

/-- Of `first.andThen second` both parts are moved. -/
instance andThen [hfirst : first.Moves places move] [hsecond : second.Moves places move'] :
    (first.andThen second).Moves places (Prod.map move move') where
  reads hreads := by
    obtain ⟨middle, ha, hb⟩ := reads_andThen.mp hreads
    exact reads_andThen.mpr ⟨middle.moved places, hfirst.reads ha, hsecond.reads hb⟩
  fails hfails := by
    rcases fails_andThen.mp hfails with ha | ⟨value, middle, ha, hb⟩
    · exact fails_andThen.mpr (Or.inl (hfirst.fails ha))
    · exact fails_andThen.mpr (Or.inr ⟨_, _, hfirst.reads ha, hsecond.fails hb⟩)

/-- Of `first.skipThen second` the second part is moved. -/
instance skipThen [first.Moves places move] [second.Moves places move'] :
    (first.skipThen second).Moves places move' :=
  map andThen fun _ => rfl

/-- Of `first.thenSkip second` the first part is moved. -/
instance thenSkip [first.Moves places move] [second.Moves places move'] :
    (first.thenSkip second).Moves places move :=
  map andThen fun _ => rfl

/-- Alternatives fail and succeed as before, so the same one is taken. -/
instance orElse {other : Rule α} [h : rule.Moves places move] [hother : other.Moves places move] :
    (rule.orElse other).Moves places move where
  reads hreads := by
    rcases reads_orElse.mp hreads with hreads | ⟨hfails, hreads⟩
    · exact reads_orElse.mpr (Or.inl (h.reads hreads))
    · exact reads_orElse.mpr (Or.inr ⟨h.fails hfails, hother.reads hreads⟩)
  fails hfails := by
    obtain ⟨ha, hb⟩ := fails_orElse.mp hfails
    exact fails_orElse.mpr ⟨h.fails ha, hother.fails hb⟩

/-- The last of several alternatives is one on its own. -/
instance choice_single [h : rule.Moves places move] : (Rule.choice [rule]).Moves places move where
  reads hreads := by
    rcases reads_choice_cons.mp hreads with hreads | ⟨-, hreads⟩
    · exact reads_choice_cons.mpr (Or.inl (h.reads hreads))
    · exact (reads_choice_nil.mp hreads).elim
  fails hfails := by
    have hrule := (List.forall_mem_cons.mp (fails_choice.mp hfails)).1
    exact fails_choice.mpr (List.forall_mem_singleton.mpr (h.fails hrule))

/-- Of several alternatives the same one is taken. -/
instance choice {rules : List (Rule α)} [h : rule.Moves places move]
    [hrules : (Rule.choice rules).Moves places move] :
    (Rule.choice (rule :: rules)).Moves places move where
  reads hreads := by
    rcases reads_choice_cons.mp hreads with hreads | ⟨hfails, hreads⟩
    · exact reads_choice_cons.mpr (Or.inl (h.reads hreads))
    · exact reads_choice_cons.mpr (Or.inr ⟨h.fails hfails, hrules.reads hreads⟩)
  fails hfails := by
    obtain ⟨hrule, hlater⟩ := List.forall_mem_cons.mp (fails_choice.mp hfails)
    have hmoved := fails_choice.mp (hrules.fails (fails_choice.mpr hlater))
    exact fails_choice.mpr (List.forall_mem_cons.mpr ⟨h.fails hrule, hmoved⟩)

/-- What is there is moved, and what is missing is missing further on. -/
instance optional [h : rule.Moves places move] : rule.optional.Moves places (Option.map move) where
  reads hreads := by
    rcases reads_optional.mp hreads with ⟨v, rfl, hv⟩ | ⟨rfl, hfails, rfl⟩
    · exact reads_optional.mpr (Or.inl ⟨move v, rfl, h.reads hv⟩)
    · exact reads_optional.mpr (Or.inr ⟨rfl, h.fails hfails, rfl⟩)
  fails {input} hfails := by
    obtain ⟨failure, hrun⟩ := hfails
    unfold Rule.optional at hrun
    cases h : rule.run input <;> simp [h] at hrun

/-- Repetitions have the same rounds: each takes a token or none, wherever they stand. -/
theorem repeats (h : rule.Moves places move) {input rest : Input} {values : List α}
    (rounds : Repeats rule input values rest) :
    Repeats rule (input.moved places) (values.map move) (rest.moved places) := by
  induction rounds with
  | done hfails => exact .done (h.fails hfails)
  | stuck hreads hle =>
    refine .stuck (h.reads hreads) ?_
    rwa [Input.left_moved, Input.left_moved]
  | step hreads hlt _ ih =>
    refine .step (h.reads hreads) ?_ ih
    rwa [Input.left_moved, Input.left_moved]

/-- Of `rule.many` every round is moved. -/
instance many [h : rule.Moves places move] : rule.many.Moves places (List.map move) where
  reads hreads := reads_many.mpr (h.repeats (reads_many.mp hreads))
  fails hfails := by
    obtain ⟨failure, hrun⟩ := hfails
    cases hrun

/-- Of `rule.oneOrMore` every round is moved. -/
instance oneOrMore [h : rule.Moves places move] : rule.oneOrMore.Moves places (List.map move) where
  reads hreads := by
    obtain ⟨first, middle, later, hfirst, hlater, rfl⟩ := reads_oneOrMore.mp hreads
    exact reads_oneOrMore.mpr ⟨_, _, _, h.reads hfirst, h.repeats hlater, rfl⟩
  fails hfails := fails_oneOrMore.mpr (h.fails (fails_oneOrMore.mp hfails))

/-- Of items with separators between them the items are moved. -/
instance sepByOne {separator : Rule β} [h : rule.Moves places move]
    [separator.Moves places move'] : (Rule.sepByOne rule separator).Moves places (List.map move) where
  reads hreads := by
    obtain ⟨first, middle, later, hfirst, hlater, rfl⟩ := reads_sepByOne.mp hreads
    exact reads_sepByOne.mpr ⟨_, _, _, h.reads hfirst, skipThen.repeats hlater, rfl⟩
  fails hfails := fails_sepByOne.mpr (h.fails (fails_sepByOne.mp hfails))

/-- So they are if there may be none. -/
instance sepBy {separator : Rule β} [rule.Moves places move] [separator.Moves places move'] :
    (Rule.sepBy rule separator).Moves places (List.map move) :=
  map optional fun values => by cases values <;> rfl

/-- A rule whose levels are counted by the tokens left has as many of them further on. -/
theorem byTokens {levels : Nat → Rule α} (h : ∀ n, (levels n).Moves places move) :
    Moves places move (⟨fun input => (levels (input.left + 1)).run input⟩ : Rule α) where
  reads {input rest value} hreads := by
    have hmoved := (h (input.left + 1)).reads hreads
    rw [← Input.left_moved places input] at hmoved
    exact hmoved
  fails {input} hfails := by
    have hmoved := (h (input.left + 1)).fails hfails
    rw [← Input.left_moved places input] at hmoved
    exact hmoved

end Moves

end Rule

namespace Grammar

open Rule

variable {places : Nat}

/-! ## Constructs without expressions inside

What is left to show of a rule is that the function that puts its value together goes along with
moving. -/

/-- White space between parts has no value to move. -/
instance ws_moves : ws.Moves places id := Moves.map inferInstance fun _ => rfl

/-- The text of an identifier stays the same. -/
instance identifier_moves : identifier.Moves places id := Moves.labelled

/-- A keyword has no value to move. -/
instance keyword_moves (word : String) : (keyword word).Moves places id :=
  Moves.labelled (h := Moves.map inferInstance fun _ => rfl)

/-- A symbol is made from its span alone. -/
instance symbol_moves : symbol.Moves places (Expr.moved places) :=
  Moves.spanned inferInstance fun _ _ => rfl

/-- The text of a run of digits stays the same. -/
instance digits_moves : digits.Moves places id := Moves.token _ _

/-- The text of a number stays the same, whatever is missing in it. -/
instance number_moves : number.Moves places (Expr.moved places) := by
  refine Moves.labelled (h := Moves.spanned inferInstance ?_)
  rintro ⟨⟨sign, whole⟩, fraction⟩ span
  simp

/-- The segments of a type stay the same. -/
instance typeRef_moves : typeRef.Moves places (Expr.moved places) :=
  Moves.labelled (h := Moves.spanned inferInstance fun names span => by simp [typeSymbol])

/-- What the tokens between quotes stand for stays the same. -/
instance quotedLiteral_moves : quotedLiteral.Moves places (Expr.moved places) :=
  Moves.labelled (h := Moves.spanned inferInstance fun tokens span => by simp)

/-- White space right after the period counts as a name, which stands further on as the token does. -/
instance metadataName_moves : metadataName.Moves places (Expr.moved places) := by
  have blank : ((satisfying Token.isWhitespace).spanned fun t span => Expr.symbol t.text span).Moves
      places (Expr.moved places) :=
    Moves.spanned inferInstance fun _ _ => rfl
  exact Moves.orElse

/-- The period of a reference is kept as its span, which is moved. -/
instance period_moves :
    ((just .period).spanned fun _ span => span).Moves places (Span.moved places) :=
  Moves.spanned inferInstance fun _ _ => rfl

/-- A name that is missing after the period stands further on as the period does. -/
instance qualifiedMetadata_moves :
    qualifiedMetadata.Moves places (List.map (Expr.moved places)) := by
  refine Moves.map inferInstance ?_
  rintro ⟨⟨itemType, period⟩, name⟩
  cases name with
  | none => rfl
  | some name => rfl

/-- A name without an item type is the only child. -/
instance single_moves : (symbol.map fun name => [name]).Moves places (List.map (Expr.moved places)) :=
  Moves.map inferInstance fun _ => rfl

/-- The names in a reference are its children, if there are any. -/
instance itemMetadata_moves : itemMetadata.Moves places (Expr.moved places) :=
  Moves.labelled (h := Moves.spanned inferInstance fun children span => by cases children <;> simp)

/-- The name in a reference is its child, if there is one. -/
instance itemGroup_moves : itemGroup.Moves places (Expr.moved places) :=
  Moves.labelled (h := Moves.spanned inferInstance fun name span => by cases name <;> simp)

/-- What the tokens of a plain run stand for stays the same. -/
instance plain_moves : plain.Moves places (Expr.moved places) :=
  Moves.spanned inferInstance fun tokens span => by simp

/-- Either operator stays the same. -/
instance comparisonOperator_moves : comparisonOperator.Moves places id := by
  have equality : ((just .equals).map fun _ => Comparison.equality).Moves places id :=
    Moves.map inferInstance fun _ => rfl
  have inequality : ((just .notEquals).map fun _ => Comparison.inequality).Moves places id :=
    Moves.map inferInstance fun _ => rfl
  exact Moves.choice

/-! ## Constructs with expressions inside -/

section Inner

variable {expression : Rule Expr} [expression.Moves places (Expr.moved places)]

/-- Arguments are moved one by one. -/
instance argumentList_moves :
    (argumentList expression).Moves places (List.map (Expr.moved places)) := Moves.labelled

/-- The type and the arguments of a call are its children. -/
instance staticCall_moves : (staticCall expression).Moves places (Expr.moved places) :=
  Moves.spanned inferInstance fun ⟨⟨target, name⟩, trees⟩ span => by simp

/-- The target and the arguments of a call are its children. -/
instance instanceCall_moves : (instanceCall expression).Moves places (Expr.moved places) :=
  Moves.spanned inferInstance fun ⟨⟨target, name⟩, trees⟩ span => by simp

/-- The arguments of a call are its children. -/
instance globalCall_moves : (globalCall expression).Moves places (Expr.moved places) :=
  Moves.spanned inferInstance fun ⟨name, trees⟩ span => by simp

/-- A call of any form is moved. -/
instance functionCall_moves : (functionCall expression).Moves places (Expr.moved places) :=
  Moves.labelled

/-- What a reference is to is its only child. -/
instance evaluate_moves : (evaluate expression).Moves places (Expr.moved places) :=
  Moves.labelled (h := Moves.spanned inferInstance fun inner span => by simp)

/-- The parts of a string are its children. -/
instance quotedString_moves : (quotedString expression).Moves places (Expr.moved places) :=
  Moves.labelled (h := Moves.spanned inferInstance fun children span => by simp)

/-- The separator of a transform is moved. -/
instance transformSeparator_moves : transformSeparator.Moves places (Expr.moved places) :=
  Moves.skipThen

/-- The name, the body and the separator of a transform are its children, as far as they are
there. -/
instance itemTransform_moves : (itemTransform expression).Moves places (Expr.moved places) := by
  refine Moves.labelled (h := Moves.spanned inferInstance ?_)
  rintro ⟨name, body⟩ span
  cases body with
  | none => simp
  | some body =>
    obtain ⟨body, separator⟩ := body
    cases separator <;> simp

/-- Either side of a comparison is moved. -/
instance operand_moves : (operand expression).Moves places (Expr.moved places) := Moves.choice

/-- The two sides of a comparison are its children. -/
instance comparison_moves : (comparison expression).Moves places (Expr.moved places) :=
  Moves.labelled (h := Moves.spanned inferInstance fun ⟨⟨left, relation⟩, right⟩ span => by simp)

/-- Parentheses put the same node over a wider span, there as here. -/
instance grouped_moves : (grouped expression).Moves places (Expr.moved places) :=
  Moves.labelled (h := Moves.spanned inferInstance fun inner span =>
    (Expr.moved_withSpan places span inner).symm)

/-- Every alternative of a primary is moved. -/
instance primary_moves : (primary expression).Moves places (Expr.moved places) := Moves.choice

/-- A negation moves with what stands behind it. -/
theorem negation_moves (unary : Rule Expr) [unary.Moves places (Expr.moved places)] :
    ((((choice [just .bang, keyword "not"]).thenSkip ws).skipThen unary).spanned
      fun inner span => .node (.logical .not) span [inner]).Moves places (Expr.moved places) :=
  Moves.spanned inferInstance fun inner span => by simp

/-- Operands that move may be joined. -/
theorem joined_moves (connective : Connective) (operandRule : Rule Expr)
    [operandRule.Moves places (Expr.moved places)] :
    ((operandRule.andThen
      (((ws.skipThen (keyword connective.tag)).skipThen ws).skipThen operandRule).many).map
      fun (first, rest) => rest.foldl (Expr.join connective) first).Moves places
        (Expr.moved places) := by
  refine Moves.map inferInstance ?_
  rintro ⟨first, rest⟩
  exact (Expr.moved_foldl_join places connective first rest).symm

end Inner

/-! ## Expressions and whole texts -/

/-- Every level of the grammar moves. -/
theorem leveled_moves : Callee.Leveled (Rule.Moves places (Expr.moved places)) where
  stuck := by
    refine ⟨?_, fun _ => ⟨_, rfl⟩⟩
    rintro input rest value ⟨recovered, ran⟩
    cases ran
  byTokens := Moves.byTokens
  written {rules} h := by
    have := h .expression
    have := h .unary
    have primary : (Written.primary.rule rules).Moves places (Expr.moved places) :=
      inferInstanceAs ((primary (rules .expression)).Moves places (Expr.moved places))
    have conjunction : (Written.conjunction.rule rules).Moves places (Expr.moved places) :=
      joined_moves .and (rules .unary)
    refine ⟨primary, fun callee => ?_⟩
    cases callee with
    | expression => exact joined_moves .or (Written.conjunction.rule rules)
    | unary => exact Moves.orElse (h := negation_moves (rules .unary))

/-- An expression is read alike further on. -/
instance expression_moves : expression.Moves places (Expr.moved places) :=
  leveled_moves.rule .expression

/-- **A whole text is read alike further on.** -/
theorem root_moves : root.Moves places (Expr.moved places) := Moves.skipThen

end Grammar

end ProjectLens
