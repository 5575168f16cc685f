import ProjectLens.Proofs.Nesting
import ProjectLens.Proofs.Reading

/-! # Everything that is read is derivable

Whatever a rule reads from tokens that stand end to end is derivable from the tokens it used.

* `Rule.Sound rule Means`: whenever the rule reads `value` from `used` tokens and leaves `left`,
  `Means used value left` holds. What is left is part of it since some rules read as much as they can;
* one law for each way of putting rules together;
* one law for each rule of the grammar, up to `Grammar.expression_sound` and `Grammar.root_sound`;
* `Grammar.root_parse_derivable`: the trees of whole texts. -/

namespace ProjectLens

namespace Rule

variable {α β : Type}

/-- **What the rule reads, means something**: the tokens used, the value, and the tokens left. -/
def Sound (rule : Rule α) (Means : List Lexeme → α → List Lexeme → Prop) : Prop :=
  ∀ ⦃start stop : Nat⦄ ⦃lexemes : List Lexeme⦄ ⦃value : α⦄ ⦃rest : Input⦄,
    Tiles start lexemes stop → rule.Reads ⟨lexemes, stop⟩ value rest →
    ∃ used left, lexemes = used ++ left ∧ rest = ⟨left, stop⟩ ∧ Means used value left

variable {first rule : Rule α} {second : Rule β} {P Q : List Lexeme → α → List Lexeme → Prop}
  {R : List Lexeme → β → List Lexeme → Prop}

/-- What is read also means whatever follows from what it means. -/
theorem Sound.mono (h : rule.Sound P) (hpq : ∀ used value left, P used value left →
    Q used value left) : rule.Sound Q := by
  intro start stop lexemes value rest tiles reads
  obtain ⟨used, left, hsplit, hrest, hp⟩ := h tiles reads
  exact ⟨used, left, hsplit, hrest, hpq used value left hp⟩

/-- `(rule.map f).Sound fun used value left => ∃ v, P used v left ∧ f v = value`. -/
theorem Sound.map {f : α → β} (h : rule.Sound P) :
    (rule.map f).Sound fun used value left => ∃ v, P used v left ∧ f v = value := by
  intro start stop lexemes value rest tiles reads
  obtain ⟨v, inside, rfl⟩ := reads_map.mp reads
  obtain ⟨used, left, hsplit, hrest, hp⟩ := h tiles inside
  exact ⟨used, left, hsplit, hrest, v, hp, rfl⟩

/-- `(rule.labelled text).Sound P`: a label changes failures only. -/
theorem Sound.labelled {text : String} (h : rule.Sound P) : (rule.labelled text).Sound P := by
  intro start stop lexemes value rest tiles reads
  exact h tiles (reads_labelled.mp reads)

/-- The span that is given with a value is the span of the tokens that were used. -/
theorem Sound.spanned {f : α → Span → β} (h : rule.Sound P)
    (filled : ∀ used value left, P used value left → used ≠ []) :
    (rule.spanned f).Sound fun used value left =>
      ∃ v, P used v left ∧ f v (cover used) = value := by
  intro start stop lexemes value rest tiles reads
  obtain ⟨v, inside, rfl⟩ := reads_spanned.mp reads
  obtain ⟨used, left, rfl, rfl, hp⟩ := h tiles inside
  obtain ⟨middle, hused, hleft⟩ := tiles_append.mp tiles
  refine ⟨used, left, rfl, rfl, v, hp, ?_⟩
  rw [tiles.offset_eq, hleft.offset_eq, hused.cover_eq (filled used v left hp)]

/-- The tokens two rules in turn take are those of the first and then those of the second. -/
theorem Sound.andThen (hfirst : first.Sound P) (hsecond : second.Sound R) :
    (first.andThen second).Sound fun used value left =>
      ∃ l r, used = l ++ r ∧ P l value.1 (r ++ left) ∧ R r value.2 left := by
  intro start stop lexemes value rest tiles reads
  obtain ⟨middle, reads, reads'⟩ := reads_andThen.mp reads
  obtain ⟨l, more, rfl, rfl, hp⟩ := hfirst tiles reads
  obtain ⟨border, -, tiles'⟩ := tiles_append.mp tiles
  obtain ⟨r, left, rfl, rfl, hr⟩ := hsecond tiles' reads'
  exact ⟨l ++ r, left, (List.append_assoc l r left).symm, rfl, l, r, rfl, hp, hr⟩

/-- As `Sound.andThen`, with the first value dropped. -/
theorem Sound.skipThen (hfirst : first.Sound P) (hsecond : second.Sound R) :
    (first.skipThen second).Sound fun used value left =>
      ∃ l r skipped, used = l ++ r ∧ P l skipped (r ++ left) ∧ R r value left := by
  refine (hfirst.andThen hsecond).map.mono ?_
  rintro used value left ⟨v, ⟨l, r, hused, hp, hr⟩, rfl⟩
  exact ⟨l, r, v.1, hused, hp, hr⟩

/-- As `Sound.andThen`, with the second value dropped. -/
theorem Sound.thenSkip (hfirst : first.Sound P) (hsecond : second.Sound R) :
    (first.thenSkip second).Sound fun used value left =>
      ∃ l r skipped, used = l ++ r ∧ P l value (r ++ left) ∧ R r skipped left := by
  refine (hfirst.andThen hsecond).map.mono ?_
  rintro used value left ⟨v, ⟨l, r, hused, hp, hr⟩, rfl⟩
  exact ⟨l, r, v.2, hused, hp, hr⟩

/-- `(rule.orElse other).Sound P` from both. -/
theorem Sound.orElse {other : Rule α} (hrule : rule.Sound P) (hother : other.Sound P) :
    (rule.orElse other).Sound P := by
  intro start stop lexemes value rest tiles reads
  rcases reads_orElse.mp reads with reads | ⟨-, reads⟩
  · exact hrule tiles reads
  · exact hother tiles reads

/-- A choice of nothing reads nothing. -/
theorem choice_nil_sound : (choice ([] : List (Rule α))).Sound P := by
  intro start stop lexemes value rest tiles reads
  exact (reads_choice_nil.mp reads).elim

/-- `(choice (rule :: rules)).Sound P` from the rule and the choice of the others. -/
theorem Sound.choice {rules : List (Rule α)} (hrule : rule.Sound P)
    (hrules : (choice rules).Sound P) : (choice (rule :: rules)).Sound P := by
  intro start stop lexemes value rest tiles reads
  rcases reads_choice_cons.mp reads with reads | ⟨-, reads⟩
  · exact hrule tiles reads
  · exact hrules tiles reads

/-- Where an optional thing is missing, its rule fails on what is left. -/
theorem Sound.optional (h : rule.Sound P) :
    rule.optional.Sound fun used value left =>
      (∃ v, value = some v ∧ P used v left) ∨
        value = none ∧ used = [] ∧ ∃ stop, rule.Fails ⟨left, stop⟩ := by
  intro start stop lexemes value rest tiles reads
  rcases reads_optional.mp reads with ⟨v, rfl, inside⟩ | ⟨rfl, fails, rfl⟩
  · obtain ⟨used, left, hsplit, hrest, hp⟩ := h tiles inside
    exact ⟨used, left, hsplit, hrest, Or.inl ⟨v, rfl, hp⟩⟩
  · exact ⟨[], lexemes, rfl, rfl, Or.inr ⟨rfl, rfl, stop, fails⟩⟩

/-- The rounds of a repetition mean what each of them means. -/
theorem Sound.repeats (h : rule.Sound P) {start stop : Nat} {lexemes : List Lexeme}
    {values : List α} {rest : Input} (tiles : Tiles start lexemes stop)
    (rounds : Repeats rule ⟨lexemes, stop⟩ values rest) :
    ∃ used left, lexemes = used ++ left ∧ rest = ⟨left, stop⟩ ∧ Row P used values left := by
  -- the induction is over the rounds, each of which leaves other tokens
  generalize hinput : Input.mk lexemes stop = input at rounds
  induction rounds generalizing start lexemes with
  | done _ =>
    subst hinput
    exact ⟨[], lexemes, rfl, rfl, .nil⟩
  | stuck _ _ =>
    subst hinput
    exact ⟨[], lexemes, rfl, rfl, .nil⟩
  | step reads _ _ ih =>
    subst hinput
    obtain ⟨used, left, rfl, rfl, hp⟩ := h tiles reads
    obtain ⟨border, -, tiles'⟩ := tiles_append.mp tiles
    obtain ⟨used', left', rfl, hrest, hrow⟩ := ih tiles' rfl
    exact ⟨used ++ used', left', (List.append_assoc ..).symm, hrest, .cons hp hrow⟩

/-- `rule.many.Sound (Row P)`: the tokens of a repetition are a row of what the rule takes. -/
theorem Sound.many (h : rule.Sound P) : rule.many.Sound (Row P) := by
  intro start stop lexemes values rest tiles reads
  exact h.repeats tiles (reads_many.mp reads)

/-- One item, then rounds of a separator and an item. -/
theorem Sound.sepByOne {separator : Rule β} (h : rule.Sound P) (hsep : separator.Sound R) :
    (sepByOne rule separator).Sound fun used values left =>
      ∃ l r value more, used = l ++ r ∧ values = value :: more ∧ P l value (r ++ left) ∧
        Row (fun used value left => ∃ s i skipped, used = s ++ i ∧ R s skipped (i ++ left) ∧
          P i value left) r more left := by
  intro start stop lexemes values rest tiles reads
  obtain ⟨value, middle, more, item, rounds, rfl⟩ := reads_sepByOne.mp reads
  obtain ⟨l, left, rfl, rfl, hp⟩ := h tiles item
  obtain ⟨border, -, tiles'⟩ := tiles_append.mp tiles
  obtain ⟨r, left, rfl, rfl, hrow⟩ := (hsep.skipThen h).repeats tiles' rounds
  exact ⟨l ++ r, left, (List.append_assoc ..).symm, rfl, l, r, value, more, rfl, rfl, hp, hrow⟩

/-! ### Rules for one token -/

/-- `just t` takes one lexeme, of the token `t`. -/
theorem sound_just (t : Token) :
    (just t).Sound fun used _ _ => ∃ lexeme, used = [lexeme] ∧ lexeme.token = t := by
  intro start stop lexemes value rest tiles reads
  obtain ⟨lexeme, after, rfl, htoken, rfl⟩ := reads_just.mp reads
  exact ⟨[lexeme], after, rfl, rfl, lexeme, rfl, htoken⟩

/-- `satisfying p` takes one lexeme whose token `p` admits, and its value is that token. -/
theorem sound_satisfying (p : Token → Bool) :
    (satisfying p).Sound fun used value _ =>
      ∃ lexeme, used = [lexeme] ∧ p lexeme.token = true ∧ lexeme.token = value := by
  intro start stop lexemes value rest tiles reads
  obtain ⟨lexeme, after, rfl, hp, hvalue, rfl⟩ := reads_satisfying.mp reads
  exact ⟨[lexeme], after, rfl, rfl, lexeme, rfl, hp, hvalue⟩

end Rule

namespace Grammar

open Rule ProjectLens.Derivation

/-! ## Constructs without expressions inside -/

/-- `ws` takes blank tokens. -/
theorem ws_sound : ws.Sound fun used _ _ => Blank used := by
  intro start stop lexemes value rest tiles reads
  obtain rfl := reads_ws.mp reads
  obtain ⟨blank, hblank, hsplit⟩ := exists_blank_append_skipBlank lexemes
  exact ⟨blank, skipBlank lexemes, hsplit, rfl, hblank⟩

/-- `identifier` takes one name, and its value is that name. -/
theorem identifier_sound :
    identifier.Sound fun used name _ =>
      ∃ lexeme, used = [lexeme] ∧ lexeme.token = .identifier name := by
  intro start stop lexemes value rest tiles reads
  obtain ⟨lexeme, after, rfl, htoken, rfl⟩ := reads_identifier.mp reads
  exact ⟨[lexeme], after, rfl, rfl, lexeme, rfl, htoken⟩

/-- `keyword word` takes one token that is the word in any case. -/
theorem keyword_sound (word : String) :
    (keyword word).Sound fun used _ _ =>
      ∃ lexeme, used = [lexeme] ∧ lexeme.token.isKeyword word = true := by
  intro start stop lexemes value rest tiles reads
  obtain ⟨lexeme, after, rfl, hword, rfl⟩ := reads_keyword.mp reads
  exact ⟨[lexeme], after, rfl, rfl, lexeme, rfl, hword⟩

/-- `digits` takes one number, and its value is its text. -/
theorem digits_sound :
    digits.Sound fun used text _ => ∃ lexeme, used = [lexeme] ∧ lexeme.token = .number text := by
  intro start stop lexemes value rest tiles reads
  obtain ⟨lexeme, after, rfl, htoken, rfl⟩ := reads_digits.mp reads
  exact ⟨[lexeme], after, rfl, rfl, lexeme, rfl, htoken⟩

/-- What `symbol` reads is a `Symbol` over the tokens it takes. -/
theorem symbol_sound : symbol.Sound fun used tree _ => Symbol anyName used tree := by
  refine (identifier_sound.spanned ?_).mono ?_
  · rintro _ _ _ ⟨lexeme, rfl, -⟩
    exact List.cons_ne_nil lexeme []
  · rintro _ _ _ ⟨name, ⟨lexeme, rfl, htoken⟩, rfl⟩
    exact .intro htoken trivial

/-- An opening token and a closing parenthesis around anything, with white space inside. -/
theorem bracket_sound {α : Type} {inside : Rule α} {P : List Lexeme → α → List Lexeme → Prop}
    (opens : Token) (h : inside.Sound P) :
    (((((just opens).skipThen ws).skipThen inside).thenSkip ws).thenSkip
      (just .closeParen)).Sound fun used value left =>
        ∃ (b : Bracket opens) (body : List Lexeme), used = b.around body ∧
          P body value (b.after ++ b.closing :: left) := by
  refine (((((sound_just opens).skipThen ws_sound).skipThen h).thenSkip ws_sound).thenSkip
    (sound_just .closeParen)).mono ?_
  rintro used value left ⟨_, _, -, rfl, ⟨_, after, -, rfl, ⟨_, body, -, rfl,
    ⟨_, before, -, rfl, ⟨opening, rfl, hopening⟩, hbefore⟩, hp⟩, hafter⟩, closing, rfl, hclosing⟩
  refine ⟨⟨opening, before, after, closing, hopening, hbefore, hafter, hclosing⟩, body, ?_, ?_⟩
  · simp [Bracket.around]
  · simpa using hp

/-- A token between two parts, with the white space around it. -/
theorem spaced_sound {α : Type} {middle : Rule α} (p : Token → Prop)
    (h : middle.Sound fun used _ _ => ∃ lexeme, used = [lexeme] ∧ p lexeme.token) :
    ((ws.skipThen middle).skipThen ws).Sound fun used _ _ =>
      ∃ s : Spaced p, used = s.lexemes := by
  refine ((ws_sound.skipThen h).skipThen ws_sound).mono ?_
  rintro used value left ⟨_, after, -, rfl, ⟨before, _, -, rfl, hbefore, lexeme, rfl, hp⟩, hafter⟩
  exact ⟨⟨before, lexeme, after, hbefore, hp, hafter⟩, by simp [Spaced.lexemes]⟩

/-- Something that is optional may be missing. -/
theorem optional_sound {α : Type} {rule : Rule α} {p : List Lexeme → α → Prop}
    (h : rule.Sound fun used value _ => p used value) :
    rule.optional.Sound fun used value _ => Maybe p used value := by
  refine h.optional.mono ?_
  rintro used value left (⟨v, rfl, hp⟩ | ⟨rfl, rfl, -⟩)
  · exact .some hp
  · exact .none

/-- A number alone is an argument. -/
theorem number_sound (inner : List Lexeme → Expr → Prop) :
    number.Sound fun used tree _ => Argument inner used tree := by
  have hsign : (just (.other '-')).Sound fun used value _ => Minus used value := by
    refine (sound_just _).mono ?_
    rintro _ _ _ ⟨lexeme, rfl, htoken⟩
    exact .intro htoken
  have hfraction : ((just .period).skipThen digits).Sound fun used text _ =>
      Fraction used text := by
    refine ((sound_just _).skipThen digits_sound).mono ?_
    rintro _ _ _ ⟨_, _, -, rfl, ⟨period, rfl, hperiod⟩, digits, rfl, hdigits⟩
    exact .intro hperiod hdigits
  have whole := ((optional_sound hsign).andThen digits_sound).andThen (optional_sound hfraction)
  refine ((whole.spanned ?_).mono ?_).labelled
  · rintro _ _ _ ⟨_, _, rfl, ⟨_, _, rfl, -, lexeme, rfl, -⟩, -⟩
    simp
  · rintro _ _ _ ⟨⟨⟨_, _⟩, _⟩, ⟨_, fraction, rfl, ⟨sign, _, rfl, hsign, digits, rfl, hdigits⟩,
      hfraction⟩, rfl⟩
    have number : Argument inner _ _ := .number hsign hdigits hfraction
    simpa using number

/-- What `typeRef` reads is a `TypeRef` over the tokens it takes. -/
theorem typeRef_sound : typeRef.Sound fun used tree _ => TypeRef used tree := by
  have segments : (sepByOne identifier (just .period)).Sound fun used names _ =>
      Segments used names := by
    refine (identifier_sound.sepByOne (sound_just .period)).mono ?_
    rintro _ _ _ ⟨_, rest, name, names, rfl, rfl, ⟨lexeme, rfl, htoken⟩, row⟩
    -- each further round puts a period and a name after the first name
    induction row generalizing name lexeme with
    | nil => exact .last htoken
    | cons h _ ih =>
      obtain ⟨_, _, -, rfl, ⟨period, rfl, hperiod⟩, next, rfl, hnext⟩ := h
      exact .more htoken hperiod (ih _ next hnext)
  refine (((((sound_just .openBracket).skipThen segments).thenSkip
    (sound_just .closeBracket)).spanned ?_).mono ?_).labelled
  · rintro _ _ _ ⟨_, _, -, rfl, -, closing, rfl, -⟩
    simp
  · rintro _ _ _ ⟨names, ⟨_, _, -, rfl, ⟨_, body, -, rfl, ⟨opening, rfl, hopening⟩, hbody⟩,
      closing, rfl, hclosing⟩, rfl⟩
    exact .intro hopening hbody hclosing

/-- The rounds of `satisfying` use tokens with the property, and leave one without it. -/
theorem run_sound (p : Token → Bool) :
    (satisfying p).many.Sound fun used values left =>
      (∀ lexeme ∈ used, p lexeme.token = true) ∧ values = used.map Lexeme.token ∧
        ∀ lexeme ∈ left.head?, p lexeme.token = false := by
  intro start stop lexemes values rest tiles reads
  obtain ⟨rfl, rfl⟩ := repeats_satisfying.mp (reads_many.mp reads)
  refine ⟨_, _, List.takeWhile_append_dropWhile.symm, rfl, ?_, rfl, ?_⟩
  · exact List.all_eq_true.mp List.all_takeWhile
  · intro lexeme hl
    have := List.head?_dropWhile_not (fun lexeme : Lexeme => p lexeme.token) lexemes
    rw [Option.mem_def.mp hl] at this
    simpa using this

/-- What `quotedLiteral` reads is a `QuotedLiteral` over the tokens it takes. -/
theorem quotedLiteral_sound : quotedLiteral.Sound fun used tree _ => QuotedLiteral used tree := by
  refine (((((sound_just .quote).skipThen (run_sound _)).thenSkip (sound_just .quote)).spanned
    ?_).mono ?_).labelled
  · rintro _ _ _ ⟨_, _, -, rfl, -, closing, rfl, -⟩
    simp
  · rintro _ _ _ ⟨_, ⟨_, _, -, rfl, ⟨_, body, -, rfl, ⟨opening, rfl, hopening⟩, hbody, rfl, -⟩,
      closing, rfl, hclosing⟩, rfl⟩
    refine .intro hopening ?_ hclosing
    simpa using hbody

/-- What `metadataName` reads is a `MetadataName` over the tokens it takes. -/
theorem metadataName_sound :
    metadataName.Sound fun used tree _ => MetadataName anyName used tree := by
  refine Sound.orElse ?_ ?_
  · exact symbol_sound.mono fun _ _ _ h => .symbol h
  · refine ((sound_satisfying _).spanned ?_).mono ?_
    · rintro _ _ _ ⟨lexeme, rfl, -⟩
      simp
    · rintro _ _ _ ⟨_, ⟨lexeme, rfl, hblank, rfl⟩, rfl⟩
      exact .blank hblank

/-- What may stand inside a metadata reference, before the white space that ends it. -/
inductive MetadataBody : List Lexeme → List Expr → List Lexeme → Prop where
  /-- A name. -/
  | plain {tokens left : List Lexeme} {name : Expr} :
      Symbol anyName tokens name → MetadataBody tokens [name] left
  /-- A type and a name. -/
  | qualified {type gap name left : List Lexeme} {period : Lexeme} {typeTree nameTree : Expr} :
      Symbol anyName type typeTree → Blank gap → period.token = .period →
      MetadataName anyName name nameTree →
      MetadataBody (type ++ (gap ++ period :: name)) [typeTree, nameTree] left
  /-- A type and a period; no white space is left, since it would be the name. -/
  | unnamed {type gap left : List Lexeme} {period : Lexeme} {typeTree : Expr} :
      Symbol anyName type typeTree → Blank gap → period.token = .period →
      (∀ lexeme ∈ left.head?, lexeme.token.isWhitespace = false) →
      MetadataBody (type ++ (gap ++ [period]))
        [typeTree, Expr.symbol "" (Span.emptyAt period.span.stop)] left

/-- What `qualifiedMetadata` reads is a `MetadataBody`, with an item name before the dot. -/
theorem qualifiedMetadata_sound : qualifiedMetadata.Sound MetadataBody := by
  -- the period is read for its span
  have hperiod : ((just .period).spanned fun _ span => span).Sound fun used span _ =>
      ∃ lexeme, used = [lexeme] ∧ lexeme.token = .period ∧ span = lexeme.span := by
    refine ((sound_just .period).spanned ?_).mono ?_
    · rintro _ _ _ ⟨lexeme, rfl, -⟩
      simp
    · rintro _ _ _ ⟨_, ⟨lexeme, rfl, htoken⟩, rfl⟩
      exact ⟨lexeme, rfl, htoken, cover_singleton lexeme⟩
  refine (((symbol_sound.thenSkip ws_sound).andThen hperiod).andThen
    metadataName_sound.optional).map.mono ?_
  rintro _ _ left ⟨⟨⟨_, _⟩, _⟩, ⟨_, name, rfl, ⟨_, _, rfl, ⟨type, gap, -, rfl, htype, hgap⟩,
    period, rfl, hperiod, rfl⟩, hname⟩, rfl⟩
  rcases hname with ⟨nameTree, rfl, hname⟩ | ⟨rfl, rfl, stop, fails⟩
  · have body : MetadataBody _ _ left := .qualified htype hgap hperiod hname
    simpa using body
  · -- a name is missing only where its rule fails, and that would read white space
    have hleft : ∀ lexeme ∈ left.head?, lexeme.token.isWhitespace = false := by
      intro lexeme hl
      obtain ⟨after, rfl⟩ := List.head?_eq_some_iff.mp hl
      have hblank := (fails_orElse.mp fails).2
      exact fails_satisfying.mp (fails_spanned.mp hblank) lexeme after rfl
    have body := MetadataBody.unnamed htype hgap hperiod hleft
    simpa using body

/-- What `itemMetadata` reads is an `ItemMetadata` over the tokens it takes. -/
theorem itemMetadata_sound :
    itemMetadata.Sound fun used tree _ => ItemMetadata anyName used tree := by
  have body : (qualifiedMetadata.orElse (symbol.map fun name => [name])).Sound MetadataBody := by
    refine qualifiedMetadata_sound.orElse (symbol_sound.map.mono ?_)
    rintro _ _ _ ⟨name, hname, rfl⟩
    exact .plain hname
  refine (((bracket_sound .itemMetadataOpen body.optional).spanned ?_).mono ?_).labelled
  · rintro _ _ _ ⟨b, _, rfl, -⟩
    exact b.around_ne_nil _
  · rintro _ _ _ ⟨_, ⟨b, _, rfl, ⟨_, rfl, hbody⟩ | ⟨rfl, rfl, -⟩⟩, rfl⟩
    · cases hbody with
      | plain hname => exact .plain b hname
      | qualified htype hgap hperiod hname => exact .qualified b htype hgap hperiod hname
      | unnamed htype hgap hperiod hleft =>
        refine .unnamed b ?_ htype hgap hperiod
        -- white space before the closing parenthesis would have been read as the name
        cases hafter : b.after with
        | nil => rfl
        | cons lexeme rest =>
          have hblank := b.blank_after lexeme (by simp [hafter])
          have := hleft lexeme (by simp [hafter])
          rw [hblank] at this
          cases this
    · exact .empty b

/-- What `itemGroup` reads is an `ItemGroup` over the tokens it takes. -/
theorem itemGroup_sound : itemGroup.Sound fun used tree _ => ItemGroup anyName used tree := by
  refine (((bracket_sound .itemGroupOpen (optional_sound symbol_sound)).spanned ?_).mono
    ?_).labelled
  · rintro _ _ _ ⟨b, _, rfl, -⟩
    exact b.around_ne_nil _
  · rintro _ _ _ ⟨_, ⟨b, _, rfl, hname⟩, rfl⟩
    exact .intro b hname

/-- `plain` takes every plain token there is and reads them as one text, decoded. -/
theorem plain_sound :
    plain.Sound fun used tree left => used ≠ [] ∧
      (∀ lexeme ∈ used, isPlain lexeme.token = true) ∧
      (∀ lexeme ∈ left.head?, isPlain lexeme.token = false) ∧
      tree = Expr.leaf (.stringContent (decode (used.map Lexeme.token))) (cover used) := by
  have run : (satisfying isPlain).oneOrMore.Sound fun used values left => used ≠ [] ∧
      (∀ lexeme ∈ used, isPlain lexeme.token = true) ∧
      (∀ lexeme ∈ left.head?, isPlain lexeme.token = false) ∧
      values = used.map Lexeme.token := by
    intro start stop lexemes values rest tiles reads
    obtain ⟨first, middle, later, head, rounds, rfl⟩ := reads_oneOrMore.mp reads
    obtain ⟨lexeme, after, rfl, hplain, rfl, rfl⟩ := reads_satisfying.mp head
    obtain ⟨used, left, rfl, rfl, hused, rfl, hleft⟩ :=
      run_sound isPlain tiles.2.2 (reads_many.mpr rounds)
    exact ⟨lexeme :: used, left, rfl, rfl, by simp, by simpa using ⟨hplain, hused⟩, hleft, rfl⟩
  refine (run.spanned fun _ _ _ h => h.1).mono ?_
  rintro used _ left ⟨_, ⟨hfilled, hplain, hleft, rfl⟩, rfl⟩
  exact ⟨hfilled, hplain, hleft, rfl⟩

/-! ## Constructs with expressions inside -/

section Inner

variable {inner : List Lexeme → Expr → Prop} {expression : Rule Expr}

/-- **Where an expression inside parentheses ends**: after white space there is a comma or the
closing parenthesis. The laws below ask for the meaning of inner expressions there only. -/
inductive Closed : List Lexeme → Prop where
  /-- The only form. -/
  | intro {blank rest : List Lexeme} {lexeme : Lexeme} :
      Blank blank → lexeme.token = .comma ∨ lexeme.token = .closeParen →
      Closed (blank ++ lexeme :: rest)

/-- `Closed left → Blank blank → Closed (blank ++ left)`: blanks before an end keep it an end. -/
theorem Closed.append {blank left : List Lexeme} (h : Closed left) (hblank : Blank blank) :
    Closed (blank ++ left) := by
  obtain ⟨hgap, hclose⟩ := h
  rw [← List.append_assoc]
  exact .intro (blank_append.mpr ⟨hblank, hgap⟩) hclose

/-- `Closed (b.after ++ b.closing :: left)`: a bracket closes what is read before it. -/
theorem Bracket.closed {opens : Token} (b : Bracket opens) (left : List Lexeme) :
    Closed (b.after ++ b.closing :: left) :=
  .intro b.blank_after (Or.inr b.closing_token)

/-- What inner expressions mean wherever they stand they mean there. -/
theorem inner_sound (h : expression.Sound fun used tree _ => inner used tree) :
    expression.Sound fun used tree left => Closed left → inner used tree :=
  h.mono fun _ _ _ h _ => h

/-- A comma and the argument after it, with the white space after each. -/
inductive NextArgument (inner : List Lexeme → Expr → Prop) :
    List Lexeme → Expr → List Lexeme → Prop where
  /-- The only form. -/
  | intro {comma : Lexeme} {before body after left : List Lexeme} {tree : Expr} :
      comma.token = .comma → Blank before → (Closed (after ++ left) → Argument inner body tree) →
      Blank after → NextArgument inner ((comma :: before) ++ (body ++ after)) tree left

/-- An argument and further ones are arguments with commas between them, and white space at last. -/
theorem arguments_of_row {later : List Lexeme} {trees : List Expr} {left : List Lexeme}
    (row : Row (NextArgument inner) later trees left) (hleft : Closed left) {body gap : List Lexeme}
    {tree : Expr} (hbody : Closed (gap ++ (later ++ left)) → Argument inner body tree)
    (hgap : Blank gap) :
    ∃ all blank, (body ++ gap) ++ later = all ++ blank ∧ Arguments inner all (tree :: trees) ∧
      Blank blank := by
  induction row generalizing body gap tree with
  | nil => exact ⟨body, gap, by simp, .last (hbody (hleft.append hgap)), hgap⟩
  | cons h _ ih =>
    obtain ⟨htoken, hbefore, hbody', hafter⟩ := h
    obtain ⟨all, blank, hall, hargs, hblank⟩ := ih hleft hbody' hafter
    -- the white space after an argument is the one before the comma
    let comma : Spaced (· = Token.comma) := ⟨gap, _, _, hgap, htoken, hbefore⟩
    have hfirst := hbody (.intro hgap (Or.inl htoken))
    refine ⟨body ++ (comma.lexemes ++ all), blank, ?_, .more comma hfirst hargs, hblank⟩
    simp only [Spaced.lexemes, comma, List.append_assoc, List.cons_append] at hall ⊢
    rw [hall]

/-- What `argumentList` reads is an `ArgumentList`: each argument is closed by a comma or the
bracket. -/
theorem argumentList_sound
    (h : expression.Sound fun used tree left => Closed left → inner used tree) :
    (argumentList expression).Sound fun used trees _ => ArgumentList inner used trees := by
  have item : ((number.orElse expression).thenSkip ws).Sound fun used tree left =>
      ∃ body gap, used = body ++ gap ∧ (Closed (gap ++ left) → Argument inner body tree) ∧
        Blank gap := by
    have number : number.Sound fun used tree left => Closed left → Argument inner used tree :=
      (number_sound inner).mono fun _ _ _ h _ => h
    have argument := number.orElse (h.mono fun _ _ _ h hleft => .expression (h hleft))
    refine (argument.thenSkip ws_sound).mono ?_
    rintro _ _ _ ⟨body, gap, -, rfl, hbody, hgap⟩
    exact ⟨body, gap, rfl, hbody, hgap⟩
  have comma := (sound_just .comma).thenSkip ws_sound
  have items : (sepBy ((number.orElse expression).thenSkip ws) ((just .comma).thenSkip ws)).Sound
      fun used trees left => Closed left → (used = [] ∧ trees = []) ∨
        ∃ body blank, used = body ++ blank ∧ Arguments inner body trees ∧ Blank blank := by
    intro start stop lexemes trees rest tiles reads
    rcases reads_sepBy.mp reads with reads | ⟨rfl, -, rfl⟩
    · obtain ⟨used, left, hsplit, hrest, l, r, tree, more, rfl, rfl, ⟨body, gap, rfl, hbody, hgap⟩,
        row⟩ := item.sepByOne comma tiles reads
      have further : Row (NextArgument inner) r more left := by
        refine row.mono ?_
        rintro _ _ _ ⟨_, _, _, rfl, ⟨_, before, -, rfl, ⟨lexeme, rfl, htoken⟩, hbefore⟩, body, after,
          rfl, hbody, hafter⟩
        exact .intro htoken hbefore hbody hafter
      refine ⟨_, left, hsplit, hrest, fun hleft => Or.inr ?_⟩
      obtain ⟨all, blank, hall, hargs, hblank⟩ := arguments_of_row further hleft hbody hgap
      exact ⟨all, blank, hall, hargs, hblank⟩
    · exact ⟨[], lexemes, rfl, rfl, fun _ => Or.inl ⟨rfl, rfl⟩⟩
  refine (((((sound_just .openParen).skipThen ws_sound).skipThen items).thenSkip
    (sound_just .closeParen)).mono ?_).labelled
  rintro _ _ _ ⟨_, _, -, rfl, ⟨_, _, -, rfl, ⟨_, before, -, rfl, ⟨opening, rfl, hopening⟩, hbefore⟩,
    hitems⟩, closing, rfl, hclosing⟩
  -- the white space before the closing parenthesis was read with the last argument
  replace hitems := hitems (.intro blank_nil (Or.inr hclosing))
  rcases hitems with ⟨rfl, rfl⟩ | ⟨body, after, rfl, hargs, hafter⟩
  · let b : Bracket .openParen :=
      ⟨opening, before, [], closing, hopening, hbefore, blank_nil, hclosing⟩
    have list : ArgumentList inner _ _ := .empty b
    simpa [Bracket.around, b] using list
  · let b : Bracket .openParen :=
      ⟨opening, before, after, closing, hopening, hbefore, hafter, hclosing⟩
    have list : ArgumentList inner _ _ := .filled b hargs
    simpa [Bracket.around, b] using list

/-- What `functionCall` reads is a `FunctionCall` over the tokens it takes. -/
theorem functionCall_sound
    (h : expression.Sound fun used tree left => Closed left → inner used tree) :
    (functionCall expression).Sound fun used tree _ => FunctionCall anyName inner used tree := by
  have arguments := argumentList_sound h
  -- one rule for each of the three ways to name what is called
  have onType : (staticCall expression).Sound fun used tree _ =>
      FunctionCall anyName inner used tree := by
    refine ((((typeRef_sound.thenSkip (sound_just .doubleColon)).andThen
      identifier_sound).andThen arguments).spanned ?_).mono ?_
    · rintro _ _ _ ⟨_, _, rfl, ⟨_, _, rfl, -, lexeme, rfl, -⟩, -⟩
      simp
    · rintro _ _ _ ⟨⟨⟨_, _⟩, _⟩, ⟨_, _, rfl, ⟨_, _, rfl, ⟨_, _, -, rfl, htarget, colons, rfl,
        hcolons⟩, name, rfl, hname⟩, harguments⟩, rfl⟩
      have call : FunctionCall anyName inner _ _ :=
        .onType htarget hcolons hname trivial harguments
      simpa using call
  have onInstance : (instanceCall expression).Sound fun used tree _ =>
      FunctionCall anyName inner used tree := by
    refine ((((symbol_sound.thenSkip (sound_just .period)).andThen
      identifier_sound).andThen arguments).spanned ?_).mono ?_
    · rintro _ _ _ ⟨_, _, rfl, ⟨_, _, rfl, -, lexeme, rfl, -⟩, -⟩
      simp
    · rintro _ _ _ ⟨⟨⟨_, _⟩, _⟩, ⟨_, _, rfl, ⟨_, _, rfl, ⟨_, _, -, rfl, htarget, period, rfl,
        hperiod⟩, name, rfl, hname⟩, harguments⟩, rfl⟩
      have call : FunctionCall anyName inner _ _ :=
        .onInstance htarget hperiod hname trivial harguments
      simpa using call
  have plain : (globalCall expression).Sound fun used tree _ =>
      FunctionCall anyName inner used tree := by
    refine ((identifier_sound.andThen arguments).spanned ?_).mono ?_
    · rintro _ _ _ ⟨_, _, rfl, ⟨lexeme, rfl, -⟩, -⟩
      simp
    · rintro _ _ _ ⟨⟨_, _⟩, ⟨_, _, rfl, ⟨name, rfl, hname⟩, harguments⟩, rfl⟩
      exact .plain hname trivial harguments
  exact (onType.choice (onInstance.choice (plain.choice choice_nil_sound))).labelled

/-- What `evaluate` reads is an `Evaluate`: its body is closed by the bracket. -/
theorem evaluate_sound (h : expression.Sound fun used tree left => Closed left → inner used tree) :
    (evaluate expression).Sound fun used tree _ => Evaluate anyName inner used tree := by
  have body : (choice [functionCall expression, symbol]).Sound fun used tree _ =>
      FunctionCall anyName inner used tree ∨ Symbol anyName used tree := by
    refine Sound.choice ?_ (Sound.choice ?_ choice_nil_sound)
    · exact (functionCall_sound h).mono fun _ _ _ h => Or.inl h
    · exact symbol_sound.mono fun _ _ _ h => Or.inr h
  refine (((bracket_sound .evaluateOpen body).spanned ?_).mono ?_).labelled
  · rintro _ _ _ ⟨b, _, rfl, -⟩
    exact b.around_ne_nil _
  · rintro _ _ _ ⟨_, ⟨b, _, rfl, hcall | hsymbol⟩, rfl⟩
    · exact .call b hcall
    · exact .symbol b hsymbol

/-- One part of a string, and what is left after it. -/
inductive Part (inner : List Lexeme → Expr → Prop) : List Lexeme → Expr → List Lexeme → Prop where
  /-- A property reference. -/
  | evaluate {tokens left : List Lexeme} {tree : Expr} :
      Evaluate anyName inner tokens tree → Part inner tokens tree left
  /-- A metadata reference. -/
  | metadata {tokens left : List Lexeme} {tree : Expr} :
      ItemMetadata anyName tokens tree → Part inner tokens tree left
  /-- An item reference. -/
  | group {tokens left : List Lexeme} {tree : Expr} :
      ItemGroup anyName tokens tree → Part inner tokens tree left
  /-- A plain run, which does not go on in what is left. -/
  | plain {run left : List Lexeme} :
      run ≠ [] → (∀ lexeme ∈ run, isPlain lexeme.token = true) →
      (∀ lexeme ∈ left.head?, isPlain lexeme.token = false) →
      Part inner run (Expr.leaf (.stringContent (decode (run.map Lexeme.token))) (cover run)) left

/-- Parts in a row are the parts of a string. -/
theorem parts_of_row {used left : List Lexeme} {trees : List Expr}
    (row : Row (Part inner) used trees left) : Parts anyName inner used trees := by
  induction row with
  | nil => exact .nil
  | @cons used more left tree trees h _ ih =>
    cases h with
    | evaluate h => exact .evaluate h ih
    | metadata h => exact .metadata h ih
    | group h => exact .group h ih
    | plain hrun hplain hleft =>
      -- what is left after the run starts with the parts after it
      refine .plain hrun hplain (fun lexeme hl => hleft lexeme ?_) ih
      rw [List.head?_append, Option.mem_def.mp hl]
      rfl

/-- What `quotedString` reads is a `QuotedString` over the tokens it takes. -/
theorem quotedString_sound
    (h : expression.Sound fun used tree left => Closed left → inner used tree) :
    (quotedString expression).Sound fun used tree _ => QuotedString anyName inner used tree := by
  have part : (choice [evaluate expression, itemMetadata, itemGroup, plain]).Sound
      (Part inner) := by
    refine Sound.choice ?_ (Sound.choice ?_ (Sound.choice ?_ (Sound.choice ?_ choice_nil_sound)))
    · exact (evaluate_sound h).mono fun _ _ _ h => .evaluate h
    · exact itemMetadata_sound.mono fun _ _ _ h => .metadata h
    · exact itemGroup_sound.mono fun _ _ _ h => .group h
    · refine plain_sound.mono ?_
      rintro _ _ _ ⟨hrun, hplain, hleft, rfl⟩
      exact .plain hrun hplain hleft
  refine (((((sound_just .quote).skipThen part.many).thenSkip (sound_just .quote)).spanned
    ?_).mono ?_).labelled
  · rintro _ _ _ ⟨_, _, -, rfl, -, closing, rfl, -⟩
    simp
  · rintro _ _ _ ⟨_, ⟨_, _, -, rfl, ⟨_, body, -, rfl, ⟨opening, rfl, hopening⟩, row⟩, closing, rfl,
      hclosing⟩, rfl⟩
    exact .intro hopening (parts_of_row row) hclosing

/-- What `itemTransform` reads is an `ItemTransform` over the tokens it takes. -/
theorem itemTransform_sound
    (h : expression.Sound fun used tree left => Closed left → inner used tree) :
    (itemTransform expression).Sound fun used tree _ => ItemTransform anyName inner used tree := by
  -- first what may follow the arrow, then the whole construct
  have separator : transformSeparator.Sound fun used tree _ =>
      ∃ (comma : Spaced (· = .comma)) (literal : List Lexeme), used = comma.lexemes ++ literal ∧
        QuotedLiteral literal tree := by
    refine ((spaced_sound (· = .comma) (sound_just .comma)).skipThen quotedLiteral_sound).mono ?_
    rintro _ _ _ ⟨_, literal, -, rfl, ⟨comma, rfl⟩, hliteral⟩
    exact ⟨comma, literal, rfl, hliteral⟩
  have text : ((quotedString expression).andThen transformSeparator.optional).Sound
      fun used value _ => TransformText anyName inner used (value.1 :: value.2.toList) := by
    refine ((quotedString_sound h).andThen (optional_sound separator)).mono ?_
    rintro _ ⟨tree, _⟩ _ ⟨body, _, rfl, hbody, hseparator⟩
    cases hseparator with
    | none =>
      have text : TransformText anyName inner _ _ := .body hbody
      simpa using text
    | some hseparator =>
      obtain ⟨comma, literal, rfl, hliteral⟩ := hseparator
      exact .separated comma hbody hliteral
  have whole := ((((((((sound_just .itemGroupOpen).skipThen ws_sound).skipThen
    symbol_sound).thenSkip ws_sound).thenSkip (sound_just .arrow)).thenSkip ws_sound).andThen
      text.optional).thenSkip ws_sound).thenSkip (sound_just .closeParen)
  refine ((whole.spanned ?_).mono ?_).labelled
  · rintro _ _ _ ⟨_, _, -, rfl, -, closing, rfl, -⟩
    simp
  · rintro _ _ _ ⟨⟨nameTree, _⟩, ⟨_, _, -, rfl, ⟨_, after, -, rfl, ⟨_, text, rfl,
      ⟨_, afterArrow, -, rfl, ⟨_, _, -, rfl, ⟨_, beforeArrow, -, rfl, ⟨_, name, -, rfl,
      ⟨_, before, -, rfl, ⟨opening, rfl, hopening⟩, hbefore⟩, hname⟩, hbeforeArrow⟩,
      arrow, rfl, harrow⟩, hafterArrow⟩, htext⟩, hafter⟩, closing, rfl, hclosing⟩, rfl⟩
    -- the brackets and the arrow are put together from the blanks around them
    let b : Bracket .itemGroupOpen :=
      ⟨opening, before, after, closing, hopening, hbefore, hafter, hclosing⟩
    let spaced : Spaced (· = Token.arrow) :=
      ⟨beforeArrow, arrow, afterArrow, hbeforeArrow, harrow, hafterArrow⟩
    -- there is a text behind the arrow or there is none
    rcases htext with ⟨⟨tree, separator⟩, hvalue, htext⟩ | ⟨hvalue, rfl, -⟩
    · have transform : ItemTransform anyName inner _ _ :=
        .intro b spaced hname (.some htext)
      simp only at hvalue
      subst hvalue
      simpa [Bracket.around, Spaced.lexemes, b, spaced] using transform
    · have transform : ItemTransform anyName inner _ _ := .intro b spaced hname .none
      simp only at hvalue
      subst hvalue
      simpa [Bracket.around, Spaced.lexemes, b, spaced] using transform

/-- What `operand` reads is an `Operand` over the tokens it takes. -/
theorem operand_sound (h : expression.Sound fun used tree left => Closed left → inner used tree) :
    (operand expression).Sound fun used tree _ => Operand anyName inner used tree := by
  refine Sound.choice ?_ (Sound.choice ?_ (Sound.choice ?_ choice_nil_sound))
  · exact (quotedString_sound h).mono fun _ _ _ h => .quoted h
  · exact (evaluate_sound h).mono fun _ _ _ h => .evaluate h
  · refine symbol_sound.mono ?_
    rintro _ _ _ ⟨htoken, hname⟩
    exact .symbol htoken hname

/-- `comparisonOperator` takes one token, the one its relation is written with. -/
theorem comparisonOperator_sound :
    comparisonOperator.Sound fun used relation _ =>
      ∃ lexeme, used = [lexeme] ∧ lexeme.token = operatorToken relation := by
  refine Sound.choice ?_ (Sound.choice ?_ choice_nil_sound)
  · refine (sound_just .equals).map.mono ?_
    rintro _ _ _ ⟨_, ⟨lexeme, rfl, htoken⟩, rfl⟩
    exact ⟨lexeme, rfl, htoken⟩
  · refine (sound_just .notEquals).map.mono ?_
    rintro _ _ _ ⟨_, ⟨lexeme, rfl, htoken⟩, rfl⟩
    exact ⟨lexeme, rfl, htoken⟩

/-- What `comparison` reads is `Compared`: two operands and a relation between them. -/
theorem comparison_sound
    (h : expression.Sound fun used tree left => Closed left → inner used tree) :
    (comparison expression).Sound fun used tree _ => Compared anyName inner used tree := by
  have side := operand_sound h
  refine ((((((side.thenSkip ws_sound).andThen comparisonOperator_sound).thenSkip
    ws_sound).andThen side).spanned ?_).mono ?_).labelled
  · rintro _ _ _ ⟨_, _, rfl, ⟨_, _, -, rfl, ⟨_, _, rfl, -, lexeme, rfl, -⟩, -⟩, -⟩
    simp
  · rintro _ _ _ ⟨⟨⟨_, relation⟩, _⟩, ⟨_, right, rfl, ⟨_, after, -, rfl, ⟨_, _, rfl,
      ⟨left, before, -, rfl, hleft, hbefore⟩, lexeme, rfl, htoken⟩, hafter⟩, hright⟩, rfl⟩
    let operator : Spaced (· = operatorToken relation) :=
      ⟨before, lexeme, after, hbefore, htoken, hafter⟩
    have compared : Compared anyName inner _ _ := .intro operator hleft hright
    simpa [Spaced.lexemes, operator] using compared

/-- What `grouped` reads is `Grouped`: an expression closed by its bracket. -/
theorem grouped_sound (h : expression.Sound fun used tree left => Closed left → inner used tree) :
    (grouped expression).Sound fun used tree _ => Grouped inner used tree := by
  refine (((bracket_sound .openParen h).spanned ?_).mono ?_).labelled
  · rintro _ _ _ ⟨b, _, rfl, -⟩
    exact b.around_ne_nil _
  · rintro _ _ left ⟨_, ⟨b, _, rfl, hbody⟩, rfl⟩
    exact .intro b (hbody (Bracket.closed b left))

/-- What `primary` reads is a `Primary`: one case for each alternative of the rule. -/
theorem primary_sound (h : expression.Sound fun used tree left => Closed left → inner used tree) :
    (primary expression).Sound fun used tree _ => Primary anyName inner used tree := by
  refine Sound.choice ?_ (Sound.choice ?_ (Sound.choice ?_ (Sound.choice ?_ (Sound.choice ?_
    (Sound.choice ?_ ?_)))))
  · exact (grouped_sound h).mono fun _ _ _ h => .grouped h
  · exact (comparison_sound h).mono fun _ _ _ h => .compared h
  · exact (functionCall_sound h).mono fun _ _ _ h => .call h
  · exact (itemTransform_sound h).mono fun _ _ _ h => .transform h
  · exact itemGroup_sound.mono fun _ _ _ h => .group h
  · exact itemMetadata_sound.mono fun _ _ _ h => .metadata h
  · -- the last three alternatives are those of an operand
    refine (operand_sound h).mono ?_
    rintro _ _ _ (h | h | ⟨htoken, hname⟩)
    · exact .quoted h
    · exact .evaluate h
    · exact .symbol htoken hname

/-- A negation is a word or a mark, white space, and what is negated. -/
theorem negation_sound {rule : Rule Expr} {P : List Lexeme → Expr → List Lexeme → Prop}
    (h : rule.Sound P) :
    ((((choice [just .bang, keyword "not"]).thenSkip ws).skipThen rule).spanned
      fun inner span => Expr.node (.logical .not) span [inner]).Sound fun used tree left =>
        ∃ word gap tokens inner, used = word :: (gap ++ tokens) ∧ negates word.token ∧ Blank gap ∧
          P tokens inner left ∧ tree = Expr.node (.logical .not) (cover used) [inner] := by
  -- either spelling of the negation
  have word : (choice [just .bang, keyword "not"]).Sound fun used _ _ =>
      ∃ lexeme, used = [lexeme] ∧ negates lexeme.token := by
    refine Sound.choice ?_ (Sound.choice ?_ choice_nil_sound)
    · refine (sound_just .bang).mono ?_
      rintro _ _ _ ⟨lexeme, rfl, htoken⟩
      exact ⟨lexeme, rfl, Or.inl htoken⟩
    · refine (keyword_sound "not").mono ?_
      rintro _ _ _ ⟨lexeme, rfl, hword⟩
      exact ⟨lexeme, rfl, Or.inr hword⟩
  refine (((word.thenSkip ws_sound).skipThen h).spanned ?_).mono ?_
  · rintro _ _ _ ⟨_, _, -, rfl, ⟨_, _, -, rfl, ⟨lexeme, rfl, -⟩, -⟩, -⟩
    simp
  · rintro _ _ _ ⟨inner, ⟨_, tokens, -, rfl, ⟨_, gap, -, rfl, ⟨lexeme, rfl, hword⟩, hgap⟩, hinner⟩,
      rfl⟩
    exact ⟨lexeme, gap, tokens, inner, by simp, hword, hgap, hinner, rfl⟩

/-- What `unaryWithin expression depth` reads is a `Unary`, by induction on the depth. -/
theorem unaryWithin_sound (h : expression.Sound fun used tree left => Closed left → inner used tree)
    (depth : Nat) :
    (unaryWithin expression depth).Sound fun used tree _ => Unary anyName inner used tree := by
  have primary := (primary_sound h).mono fun _ _ _ h => Unary.primary h
  induction depth with
  | zero => exact primary
  | succ depth ih =>
    refine Sound.orElse ((negation_sound ih).mono ?_) primary
    rintro _ _ _ ⟨word, gap, tokens, tree, rfl, hword, hgap, hunary, rfl⟩
    exact .not hword hgap hunary

/-- What `unary` reads is a `Unary` over the tokens it takes. -/
theorem unary_sound (h : expression.Sound fun used tree left => Closed left → inner used tree) :
    (unary expression).Sound fun used tree _ => Unary anyName inner used tree := by
  intro start stop lexemes tree rest tiles reads
  exact unaryWithin_sound h (Input.left ⟨lexemes, stop⟩ + 1) tiles reads

/-- Operands with a keyword between them, folded to the left. -/
theorem joined_sound {operandRule : Rule Expr} {operand : List Lexeme → Expr → Prop}
    (connective : Connective) (h : operandRule.Sound fun used tree _ => operand used tree)
    (covers : ∀ tokens tree, operand tokens tree → Covers tokens tree) :
    ((operandRule.andThen
      (((ws.skipThen (keyword connective.tag)).skipThen ws).skipThen operandRule).many).map
      fun (first, rest) => rest.foldl (Expr.join connective) first).Sound
        fun used tree _ => Joined connective operand used tree := by
  have word := spaced_sound (fun token => token.isKeyword connective.tag = true)
    (keyword_sound connective.tag)
  have further := (word.skipThen h).many
  refine (h.andThen further).map.mono ?_
  rintro _ _ _ ⟨⟨first, trees⟩, ⟨used, more, rfl, hfirst, row⟩, rfl⟩
  replace row : Row _ more trees _ := row
  -- what has been folded so far is a derivation of the tokens so far
  have fold : ∀ {so : List Lexeme} {tree : Expr}, Joined connective operand so tree →
      Joined connective operand (so ++ more) (trees.foldl (Expr.join connective) tree) := by
    clear hfirst
    induction row with
    | nil =>
      intro so tree hso
      simpa using hso
    | cons h _ ih =>
      intro so tree hso
      obtain ⟨_, right, -, rfl, ⟨word, rfl⟩, hright⟩ := h
      have joined := Joined.join word hso hright
      -- the rule takes the span from the operands, the derivation from the tokens
      rw [← join_eq (hso.covers covers) (covers _ _ hright)] at joined
      have := ih joined
      simpa using this
  exact fold (.single hfirst)

/-- What `disjunction` reads is joined by `or` from what is joined by `and` from unary
expressions. -/
theorem disjunction_sound
    (h : expression.Sound fun used tree left => Closed left → inner used tree) :
    (disjunction expression).Sound fun used tree _ =>
      Joined .or (Joined .and (Unary anyName inner)) used tree := by
  have conjunction : (conjunction expression).Sound fun used tree _ =>
      Joined .and (Unary anyName inner) used tree :=
    joined_sound .and (unary_sound h) fun _ _ h => h.covers
  exact joined_sound .or conjunction fun _ _ h => h.covers fun _ _ h => h.covers

end Inner

/-! ## Expressions and whole texts -/

/-- What `expressionWithin depth` reads is an `Expression`, by induction on the depth. -/
theorem expressionWithin_sound (depth : Nat) :
    (expressionWithin depth).Sound fun used tree _ => Expression anyName used tree := by
  induction depth with
  | zero =>
    rintro start stop lexemes tree rest tiles ⟨recovered, ran⟩
    cases ran
  | succ depth ih =>
    intro start stop lexemes tree rest tiles reads
    obtain ⟨used, left, hsplit, hrest, h⟩ := disjunction_sound (inner_sound ih) tiles reads
    exact ⟨used, left, hsplit, hrest, .intro h⟩

/-- **Every expression that is read is derivable** from the tokens that were used. -/
theorem expression_sound :
    expression.Sound fun used tree _ => Expression anyName used tree := by
  intro start stop lexemes tree rest tiles reads
  exact expressionWithin_sound (Input.left ⟨lexemes, stop⟩ + 1) tiles reads

/-- Anything up to the end of the text, with white space before the end. -/
theorem toEnd_sound {rule : Rule Expr} {p : List Lexeme → Expr → Prop}
    (h : rule.Sound fun used tree _ => p used tree) :
    ((rule.thenSkip ws).thenSkip endOfInput).Sound fun used tree left =>
      left = [] ∧ ∃ body after, used = body ++ after ∧ p body tree ∧ Blank after := by
  have ends : endOfInput.Sound fun used _ left => used = [] ∧ left = [] := by
    intro start stop lexemes value rest tiles reads
    obtain ⟨hend, rfl⟩ := reads_endOfInput.mp reads
    exact ⟨[], lexemes, rfl, rfl, rfl, hend⟩
  refine ((h.thenSkip ws_sound).thenSkip ends).mono ?_
  rintro _ _ _ ⟨_, _, -, rfl, ⟨body, after, -, rfl, hbody, hafter⟩, rfl, rfl⟩
  exact ⟨rfl, body, after, by simp, hbody, hafter⟩

/-- **Every text that is read is derivable**, all of its tokens included. -/
theorem root_sound :
    root.Sound fun used tree left => left = [] ∧ Root anyName used tree := by
  -- the white space in front is read before the alternatives are tried
  let Tail (used : List Lexeme) (tree : Expr) (left : List Lexeme) : Prop :=
    left = [] ∧ ∀ before, Blank before → Root anyName (before ++ used) tree
  have grouped : (((grouped expression).thenSkip ws).thenSkip endOfInput).Sound Tail := by
    refine (toEnd_sound (grouped_sound (inner_sound expression_sound))).mono ?_
    rintro _ _ _ ⟨rfl, body, after, rfl, hbody, hafter⟩
    exact ⟨rfl, fun before hbefore => .grouped hbefore hbody hafter⟩
  have whole : ((expression.thenSkip ws).thenSkip endOfInput).Sound Tail := by
    refine (toEnd_sound expression_sound).mono ?_
    rintro _ _ _ ⟨rfl, body, after, rfl, hbody, hafter⟩
    exact ⟨rfl, fun before hbefore => .expression hbefore hbody hafter⟩
  have quoted : (((quotedString expression).thenSkip ws).thenSkip endOfInput).Sound Tail := by
    refine (toEnd_sound (quotedString_sound (inner_sound expression_sound))).mono ?_
    rintro _ _ _ ⟨rfl, body, after, rfl, hbody, hafter⟩
    exact ⟨rfl, fun before hbefore => .quoted hbefore hbody hafter⟩
  have alternatives := grouped.choice (whole.choice (quoted.choice choice_nil_sound))
  refine (ws_sound.skipThen alternatives).mono ?_
  rintro _ _ _ ⟨before, used, -, rfl, hbefore, rfl, hroot⟩
  exact ⟨rfl, hroot before hbefore⟩

/-- The tokens of a text are those of a derivation of the tree it is read as. -/
theorem root_of_parse {text : String} {tree : Expr} (h : root.parse text = .ok tree) :
    Root anyName (lex text) tree := by
  obtain ⟨rest, reads, hrest⟩ := parse_eq_ok.mp h
  obtain ⟨used, left, hsplit, rfl, rfl, hroot⟩ := root_sound (lex_tiles text) reads
  rwa [hsplit, List.append_nil]

/-- **Every text that is read as a whole is derivable as the tree that is returned**: all of its
tokens but the white space at both ends are those of an expression with that tree, and in all of the
tree operands are nested without parentheses only where the connectives allow it. -/
theorem root_parse_derivable {text : String} {tree : Expr} (h : root.parse text = .ok tree) :
    (∃ before body after, lex text = before ++ (body ++ after) ∧ Blank before ∧ Blank after ∧
      Expression anyName body tree) ∧ tree.Every Expr.Layered := by
  obtain ⟨before, body, after, hlex, hbefore, hafter, hbody⟩ := (root_of_parse h).body
  have tiles := lex_tiles text
  rw [hlex] at tiles
  obtain ⟨_, -, tiles⟩ := tiles_append.mp tiles
  obtain ⟨_, tiles, -⟩ := tiles_append.mp tiles
  refine ⟨⟨before, body, after, hlex, hbefore, hafter, hbody⟩, ?_⟩
  exact (hbody.good.every tiles).mono fun _ h => h.layered

/-- Negation and a parenthesised operand, with a tree to which the theorem applies. -/
theorem root_parse_derivable_negated : ∃ tree, root.parse "(A)Or!B" = .ok tree ∧
    (∃ before body after, lex "(A)Or!B" = before ++ (body ++ after) ∧ Blank before ∧ Blank after ∧
      Expression anyName body tree) ∧ tree.Every Expr.Layered := by
  have hread : (root.parse "(A)Or!B").toBool = true := by decide +kernel
  cases h : root.parse "(A)Or!B" with
  | error failure =>
    rw [h] at hread
    cases hread
  | ok tree => exact ⟨tree, rfl, root_parse_derivable h⟩

end Grammar

end ProjectLens
