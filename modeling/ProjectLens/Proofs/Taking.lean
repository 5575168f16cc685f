import ProjectLens.Proofs.Derivation
import ProjectLens.Proofs.Reading

/-! # What a rule takes

How a rule is shown to read a construct: it takes just the tokens of the construct, whatever stands
after them as long as it may stand there.

* `Begins`, `Followed`: what the next token may be, at once or after white space; `Opens`: what the
  first token of a construct is;
* `Rule.Takes`: the rule reads `value` from just the tokens `used` in front of `rest`;
  `Rule.Refuses`: the rule fails, so that a later alternative gets its turn;
* one law for each way of putting rules together;
* one law for each construct without expressions inside. -/

namespace ProjectLens

/-- The next token, if there is one, is one of these. -/
def Begins (p : Token → Prop) (lexemes : List Lexeme) : Prop :=
  ∀ lexeme ∈ lexemes.head?, p lexeme.token

/-- `Begins p []`: at the end there is no next token. -/
@[simp] theorem begins_nil {p : Token → Prop} : Begins p [] := by simp [Begins]

/-- `Begins p (lexeme :: rest) ↔ p lexeme.token`. -/
@[simp] theorem begins_cons {p : Token → Prop} {lexeme : Lexeme} {rest : List Lexeme} :
    Begins p (lexeme :: rest) ↔ p lexeme.token := by
  simp [Begins]

/-- `Begins p lexemes` is `Begins q lexemes` where `p` implies `q`. -/
theorem Begins.mono {p q : Token → Prop} {lexemes : List Lexeme} (h : Begins p lexemes)
    (hpq : ∀ t, p t → q t) : Begins q lexemes :=
  fun lexeme hl => hpq _ (h lexeme hl)

/-- The first token after white space is not white space. -/
theorem skipBlank_begins (lexemes : List Lexeme) :
    Begins (·.isWhitespace = false) (skipBlank lexemes) := by
  intro lexeme hl
  obtain ⟨tail, htail⟩ := List.head?_eq_some_iff.mp hl
  exact isWhitespace_of_skipBlank htail

/-- The next token after white space, if there is one, is one of these. -/
def Followed (p : Token → Prop) (lexemes : List Lexeme) : Prop := Begins p (skipBlank lexemes)

/-- `Followed p lexemes` is `Followed q lexemes` where `p` implies `q`. -/
theorem Followed.mono {p q : Token → Prop} {lexemes : List Lexeme} (h : Followed p lexemes)
    (hpq : ∀ t, p t → q t) : Followed q lexemes :=
  Begins.mono h hpq

/-- `Followed p blank`: behind nothing but white space there is no next token. -/
theorem followed_blank {p : Token → Prop} {blank : List Lexeme} (h : Blank blank) :
    Followed p blank := by
  rw [Followed, ← List.append_nil blank, skipBlank_append h]
  exact begins_nil

/-- White space does not count. -/
theorem followed_append {p : Token → Prop} {blank rest : List Lexeme} (h : Blank blank) :
    Followed p (blank ++ rest) ↔ Followed p rest := by
  rw [Followed, skipBlank_append h, Followed]

/-- `Followed p (lexeme :: rest) ↔ p lexeme.token` for a token that is not white space. -/
theorem followed_cons {p : Token → Prop} {lexeme : Lexeme} {rest : List Lexeme}
    (h : lexeme.token.isWhitespace = false) : Followed p (lexeme :: rest) ↔ p lexeme.token := by
  rw [Followed, skipBlank_cons h, begins_cons]

/-- What is excluded after white space is excluded at once, unless it is white space. -/
theorem Followed.begins {p : Token → Prop} {lexemes : List Lexeme} (h : Followed p lexemes)
    (hws : ∀ t, t.isWhitespace = true → p t) : Begins p lexemes := by
  cases lexemes with
  | nil => exact begins_nil
  | cons lexeme rest =>
    rw [begins_cons]
    by_cases hb : lexeme.token.isWhitespace = true
    · exact hws _ hb
    · exact (followed_cons (by simpa using hb)).mp h

namespace Rule

variable {α β : Type}

/-- **The rule reads `value` from `used`**, where `rest` stands after it. -/
def Takes (rule : Rule α) (used : List Lexeme) (value : α) (rest : List Lexeme) : Prop :=
  ∀ ⦃start stop : Nat⦄, Tiles start (used ++ rest) stop →
    rule.Reads ⟨used ++ rest, stop⟩ value ⟨rest, stop⟩

/-- **The rule fails** on these tokens. -/
def Refuses (rule : Rule α) (lexemes : List Lexeme) : Prop :=
  ∀ ⦃start stop : Nat⦄, Tiles start lexemes stop → rule.Fails ⟨lexemes, stop⟩

variable {first rule : Rule α} {second : Rule β} {used used' rest lexemes : List Lexeme}
  {value : α} {value' : β}

/-- `rule.map f` takes the tokens that `rule` takes, and reads `f value`. -/
theorem Takes.map {f : α → β} (h : rule.Takes used value rest) :
    (rule.map f).Takes used (f value) rest :=
  fun _ _ tiles => reads_map.mpr ⟨value, h tiles, rfl⟩

/-- `rule.map f` refuses what `rule` refuses. -/
theorem Refuses.map {f : α → β} (h : rule.Refuses lexemes) : (rule.map f).Refuses lexemes :=
  fun _ _ tiles => fails_map.mpr (h tiles)

/-- `rule.labelled text` takes what `rule` takes. -/
theorem Takes.labelled {text : String} (h : rule.Takes used value rest) :
    (rule.labelled text).Takes used value rest :=
  fun _ _ tiles => reads_labelled.mpr (h tiles)

/-- `rule.labelled text` refuses what `rule` refuses. -/
theorem Refuses.labelled {text : String} (h : rule.Refuses lexemes) :
    (rule.labelled text).Refuses lexemes :=
  fun _ _ tiles => fails_labelled.mpr (h tiles)

/-- The span that is given with a value is the span of the tokens that are used. -/
theorem Takes.spanned {f : α → Span → β} (h : rule.Takes used value rest) (filled : used ≠ []) :
    (rule.spanned f).Takes used (f value (cover used)) rest := by
  intro start stop tiles
  refine reads_spanned.mpr ⟨value, h tiles, ?_⟩
  obtain ⟨border, hused, hrest⟩ := tiles_append.mp tiles
  rw [tiles.offset_eq, hrest.offset_eq, hused.cover_eq filled]

/-- `rule.spanned f` refuses what `rule` refuses. -/
theorem Refuses.spanned {f : α → Span → β} (h : rule.Refuses lexemes) :
    (rule.spanned f).Refuses lexemes :=
  fun _ _ tiles => fails_spanned.mpr (h tiles)

/-- `first.andThen second` takes `used ++ used'` if `first` takes `used` in front of `used' ++ rest`
and `second` takes `used'` in front of `rest`. -/
theorem Takes.andThen (hfirst : first.Takes used value (used' ++ rest))
    (hsecond : second.Takes used' value' rest) :
    (first.andThen second).Takes (used ++ used') (value, value') rest := by
  intro start stop tiles
  rw [List.append_assoc] at tiles ⊢
  obtain ⟨border, -, tiles'⟩ := tiles_append.mp tiles
  exact reads_andThen.mpr ⟨_, hfirst tiles, hsecond tiles'⟩

/-- `first.skipThen second` takes what both take and reads what `second` reads. -/
theorem Takes.skipThen (hfirst : first.Takes used value (used' ++ rest))
    (hsecond : second.Takes used' value' rest) :
    (first.skipThen second).Takes (used ++ used') value' rest :=
  (hfirst.andThen hsecond).map

/-- `first.thenSkip second` takes what both take and reads what `first` reads. -/
theorem Takes.thenSkip (hfirst : first.Takes used value (used' ++ rest))
    (hsecond : second.Takes used' value' rest) :
    (first.thenSkip second).Takes (used ++ used') value rest :=
  (hfirst.andThen hsecond).map

/-- `first.andThen second` refuses what `first` refuses. -/
theorem Refuses.andThen (h : first.Refuses lexemes) : (first.andThen second).Refuses lexemes :=
  fun _ _ tiles => fails_andThen.mpr (Or.inl (h tiles))

/-- `first.skipThen second` refuses what `first` refuses. -/
theorem Refuses.skipThen (h : first.Refuses lexemes) : (first.skipThen second).Refuses lexemes :=
  fun _ _ tiles => fails_skipThen.mpr (Or.inl (h tiles))

/-- `first.thenSkip second` refuses what `first` refuses. -/
theorem Refuses.thenSkip (h : first.Refuses lexemes) : (first.thenSkip second).Refuses lexemes :=
  fun _ _ tiles => fails_thenSkip.mpr (Or.inl (h tiles))

/-- A second part that is missing makes the whole fail. -/
theorem Takes.andThen_refuses (hfirst : first.Takes used value rest)
    (hsecond : second.Refuses rest) : (first.andThen second).Refuses (used ++ rest) := by
  intro start stop tiles
  obtain ⟨border, -, tiles'⟩ := tiles_append.mp tiles
  exact fails_andThen.mpr (Or.inr ⟨_, _, hfirst tiles, hsecond tiles'⟩)

/-- `first.skipThen second` refuses `used ++ rest` if `second` refuses the `rest` that `first`
leaves. -/
theorem Takes.skipThen_refuses (hfirst : first.Takes used value rest)
    (hsecond : second.Refuses rest) : (first.skipThen second).Refuses (used ++ rest) :=
  (hfirst.andThen_refuses hsecond).map

/-- `first.thenSkip second` refuses `used ++ rest` if `second` refuses the `rest` that `first`
leaves. -/
theorem Takes.thenSkip_refuses (hfirst : first.Takes used value rest)
    (hsecond : second.Refuses rest) : (first.thenSkip second).Refuses (used ++ rest) :=
  (hfirst.andThen_refuses hsecond).map

/-- `rule.orElse other` takes what `rule` takes; `other` does not get its turn. -/
theorem Takes.orElse {other : Rule α} (h : rule.Takes used value rest) :
    (rule.orElse other).Takes used value rest :=
  fun _ _ tiles => reads_orElse.mpr (Or.inl (h tiles))

/-- `rule.orElse other` takes what `other` takes where `rule` refuses. -/
theorem Refuses.orElse_takes {other : Rule α} (hrule : rule.Refuses (used ++ rest))
    (hother : other.Takes used value rest) : (rule.orElse other).Takes used value rest :=
  fun _ _ tiles => reads_orElse.mpr (Or.inr ⟨hrule tiles, hother tiles⟩)

/-- `rule.orElse other` refuses what both refuse. -/
theorem Refuses.orElse {other : Rule α} (hrule : rule.Refuses lexemes)
    (hother : other.Refuses lexemes) : (rule.orElse other).Refuses lexemes :=
  fun _ _ tiles => fails_orElse.mpr ⟨hrule tiles, hother tiles⟩

/-- The first alternative is taken if it can be. -/
theorem Takes.choice {rules : List (Rule α)} (h : rule.Takes used value rest) :
    (choice (rule :: rules)).Takes used value rest :=
  fun _ _ tiles => reads_choice_cons.mpr (Or.inl (h tiles))

/-- **An alternative gets its turn** where those before it fail. -/
theorem Refuses.choice_takes {rules : List (Rule α)} (hrule : rule.Refuses (used ++ rest))
    (hrules : (choice rules).Takes used value rest) :
    (choice (rule :: rules)).Takes used value rest :=
  fun _ _ tiles => reads_choice_cons.mpr (Or.inr ⟨hrule tiles, hrules tiles⟩)

/-- `choice []` refuses everything. -/
theorem choice_nil_refuses : (choice ([] : List (Rule α))).Refuses lexemes :=
  fun _ _ _ => fails_choice.mpr (by simp)

/-- `choice (rule :: rules)` refuses what `rule` and all later alternatives refuse. -/
theorem Refuses.choice {rules : List (Rule α)} (hrule : rule.Refuses lexemes)
    (hrules : (choice rules).Refuses lexemes) : (choice (rule :: rules)).Refuses lexemes := by
  intro start stop tiles
  exact fails_choice.mpr (List.forall_mem_cons.mpr ⟨hrule tiles, fails_choice.mp (hrules tiles)⟩)

/-- `rule.optional` takes what `rule` takes, and reads `some value`. -/
theorem Takes.optional (h : rule.Takes used value rest) :
    rule.optional.Takes used (some value) rest :=
  fun _ _ tiles => reads_optional.mpr (Or.inl ⟨value, rfl, h tiles⟩)

/-- `rule.optional` takes nothing where `rule` refuses, and reads `none`. -/
theorem Refuses.optional (h : rule.Refuses rest) : rule.optional.Takes [] none rest :=
  fun _ _ tiles => reads_optional.mpr (Or.inr ⟨rfl, h tiles, rfl⟩)

/-- Rounds that take tokens each, up to where a further one fails. -/
theorem Takes.repeats {values : List α}
    (row : Row (fun used value left => used ≠ [] ∧ rule.Takes used value left) used values rest)
    (hrest : rule.Refuses rest) {start stop : Nat} (tiles : Tiles start (used ++ rest) stop) :
    Repeats rule ⟨used ++ rest, stop⟩ values ⟨rest, stop⟩ := by
  induction row generalizing start with
  | nil => exact .done (hrest tiles)
  | @cons used more rest value values h _ ih =>
    obtain ⟨filled, takes⟩ := h
    rw [List.append_assoc] at tiles ⊢
    obtain ⟨border, -, tiles'⟩ := tiles_append.mp tiles
    refine .step (takes tiles) ?_ (ih hrest tiles')
    -- a round that takes a token leaves fewer, so the repetition goes on
    have := List.length_pos_iff.mpr filled
    simp only [Input.left, List.length_append]
    omega

/-- `rule.many` takes a row of rounds that each take a token, up to where `rule` refuses. -/
theorem Takes.many {values : List α}
    (row : Row (fun used value left => used ≠ [] ∧ rule.Takes used value left) used values rest)
    (hrest : rule.Refuses rest) : rule.many.Takes used values rest :=
  fun _ _ tiles => reads_many.mpr (Takes.repeats row hrest tiles)

/-- One item, then rounds of a separator and an item, up to where there is no separator. -/
theorem Takes.sepByOne {separator : Rule β} {values : List α}
    (h : rule.Takes used value (used' ++ rest))
    (row : Row (fun used value left => used ≠ [] ∧ (separator.skipThen rule).Takes used value left)
      used' values rest)
    (hrest : separator.Refuses rest) :
    (sepByOne rule separator).Takes (used ++ used') (value :: values) rest := by
  intro start stop tiles
  rw [List.append_assoc] at tiles ⊢
  obtain ⟨border, -, tiles'⟩ := tiles_append.mp tiles
  exact reads_sepByOne.mpr ⟨value, _, values, h tiles, Takes.repeats row hrest.skipThen tiles', rfl⟩

/-! ### Rules for one token -/

/-- `just t` takes the token `t`. -/
theorem just_takes {t : Token} {lexeme : Lexeme} (h : lexeme.token = t) (rest : List Lexeme) :
    (just t).Takes [lexeme] () rest :=
  fun _ _ _ => reads_just.mpr ⟨lexeme, rest, rfl, h, rfl⟩

/-- `just t` refuses every other token, and the end. -/
theorem just_refuses {t : Token} (h : Begins (· ≠ t) lexemes) : (just t).Refuses lexemes := by
  intro start stop _
  refine fails_just.mpr fun lexeme after hl => ?_
  obtain rfl : lexemes = lexeme :: after := hl
  exact begins_cons.mp h

/-- `satisfying p` takes a token with `p`, and reads it. -/
theorem satisfying_takes {p : Token → Bool} {lexeme : Lexeme} (h : p lexeme.token = true)
    (rest : List Lexeme) : (satisfying p).Takes [lexeme] lexeme.token rest :=
  fun _ _ _ => reads_satisfying.mpr ⟨lexeme, rest, rfl, h, rfl, rfl⟩

/-- `satisfying p` refuses a token without `p`, and the end. -/
theorem satisfying_refuses {p : Token → Bool} (h : Begins (p · = false) lexemes) :
    (satisfying p).Refuses lexemes := by
  intro start stop _
  refine fails_satisfying.mpr fun lexeme after hl => ?_
  obtain rfl : lexemes = lexeme :: after := hl
  exact begins_cons.mp h

/-- A run of tokens is taken as far as it goes. -/
theorem run_takes {p : Token → Bool} (h : ∀ lexeme ∈ used, p lexeme.token = true)
    (hrest : Begins (p · = false) rest) :
    (satisfying p).many.Takes used (used.map Lexeme.token) rest := by
  refine Takes.many ?_ (satisfying_refuses hrest)
  clear hrest
  induction used with
  | nil => exact .nil
  | cons lexeme used ih =>
    obtain ⟨hp, hused⟩ := List.forall_mem_cons.mp h
    have row : Row _ ([lexeme] ++ used) (lexeme.token :: used.map Lexeme.token) rest :=
      .cons ⟨List.cons_ne_nil _ _, satisfying_takes hp _⟩ (ih hused)
    exact row

end Rule

namespace Grammar

open Rule ProjectLens.Derivation

/-! ## Constructs without expressions inside -/

/-- The first of some tokens, and there is one, is one of these. -/
def Opens (p : Token → Prop) (tokens : List Lexeme) : Prop :=
  ∃ first more, tokens = first :: more ∧ p first.token

/-- What opens `tokens` begins `tokens ++ rest`. -/
theorem Opens.begins {p : Token → Prop} {tokens : List Lexeme} (h : Opens p tokens)
    (rest : List Lexeme) : Begins p (tokens ++ rest) := by
  obtain ⟨first, more, rfl, hp⟩ := h
  exact begins_cons.mpr hp

/-- What opens `tokens` opens `tokens ++ more`. -/
theorem Opens.append {p : Token → Prop} {tokens : List Lexeme} (h : Opens p tokens)
    (more : List Lexeme) : Opens p (tokens ++ more) := by
  obtain ⟨first, tokens, rfl, hp⟩ := h
  exact ⟨first, tokens ++ more, rfl, hp⟩

/-- `Opens p tokens` is `Opens q tokens` where `p` implies `q`. -/
theorem Opens.mono {p q : Token → Prop} {tokens : List Lexeme} (h : Opens p tokens)
    (hpq : ∀ t, p t → q t) : Opens q tokens := by
  obtain ⟨first, more, rfl, hp⟩ := h
  exact ⟨first, more, rfl, hpq _ hp⟩

/-- What is opened by a token is not empty. -/
theorem Opens.ne_nil {p : Token → Prop} {tokens : List Lexeme} (h : Opens p tokens) :
    tokens ≠ [] := by
  obtain ⟨first, more, rfl, -⟩ := h
  exact List.cons_ne_nil first more

section

variable {used rest lexemes : List Lexeme}

/-- White space is taken up to the next token that is none. -/
theorem ws_takes (h : Blank used) (hrest : Begins (·.isWhitespace = false) rest) :
    ws.Takes used () rest :=
  (run_takes h hrest).map

/-- `identifier` takes an identifier and reads its name. -/
theorem identifier_takes {lexeme : Lexeme} {name : String} (h : lexeme.token = .identifier name)
    (rest : List Lexeme) : identifier.Takes [lexeme] name rest :=
  fun _ _ _ => reads_identifier.mpr ⟨lexeme, rest, rfl, h, rfl⟩

/-- `identifier` refuses every other token. -/
theorem identifier_refuses (h : Begins (fun t => ∀ name, t ≠ .identifier name) lexemes) :
    identifier.Refuses lexemes := by
  intro start stop _
  refine fails_identifier.mpr fun lexeme after hl => ?_
  obtain rfl : lexemes = lexeme :: after := hl
  exact begins_cons.mp h

/-- `keyword word` takes the word in any letter case. -/
theorem keyword_takes {word : String} {lexeme : Lexeme} (h : lexeme.token.isKeyword word = true)
    (rest : List Lexeme) : (keyword word).Takes [lexeme] () rest :=
  fun _ _ _ => reads_keyword.mpr ⟨lexeme, rest, rfl, h, rfl⟩

/-- `keyword word` refuses every other token. -/
theorem keyword_refuses {word : String} (h : Begins (·.isKeyword word = false) lexemes) :
    (keyword word).Refuses lexemes := by
  intro start stop _
  refine fails_keyword.mpr fun lexeme after hl => ?_
  obtain rfl : lexemes = lexeme :: after := hl
  exact begins_cons.mp h

/-- `digits` takes a run of digits and reads its text. -/
theorem digits_takes {lexeme : Lexeme} {text : String} (h : lexeme.token = .number text)
    (rest : List Lexeme) : digits.Takes [lexeme] text rest :=
  fun _ _ _ => reads_digits.mpr ⟨lexeme, rest, rfl, h, rfl⟩

/-- `digits` refuses every other token. -/
theorem digits_refuses (h : Begins (fun t => ∀ text, t ≠ .number text) lexemes) :
    digits.Refuses lexemes := by
  intro start stop _
  refine fails_digits.mpr fun lexeme after hl => ?_
  obtain rfl : lexemes = lexeme :: after := hl
  exact begins_cons.mp h

/-- An identifier is taken as a symbol, whatever stands after it. -/
theorem identifier_symbol_takes {lexeme : Lexeme} {name : String}
    (h : lexeme.token = .identifier name) (rest : List Lexeme) :
    symbol.Takes [lexeme] (Expr.symbol name lexeme.span) rest :=
  (identifier_takes h rest).spanned (List.cons_ne_nil _ _)

/-- `symbol` takes a symbol. -/
theorem symbol_takes {named : String → Prop} {tree : Expr} (h : Symbol named used tree)
    (rest : List Lexeme) : symbol.Takes used tree rest := by
  obtain ⟨hname, -⟩ := h
  exact identifier_symbol_takes hname rest

/-- `symbol` refuses what is no identifier. -/
theorem symbol_refuses (h : Begins (fun t => ∀ name, t ≠ .identifier name) lexemes) :
    symbol.Refuses lexemes :=
  (identifier_refuses h).spanned

/-- A symbol is one identifier that may be used as a name. -/
theorem symbol_opens {named : String → Prop} {tree : Expr} (h : Symbol named used tree) :
    Opens (fun t => ∃ name, t = .identifier name ∧ named name) used := by
  obtain ⟨hname, hn⟩ := h
  exact ⟨_, _, rfl, _, hname, hn⟩

/-- The closing parenthesis of a bracket is not white space. -/
theorem closing_begins {opens : Token} (b : Bracket opens) (rest : List Lexeme) :
    Begins (·.isWhitespace = false) (b.closing :: rest) := by
  rw [begins_cons, b.closing_token]
  rfl

/-- Brackets around something are taken with the white space inside them. -/
theorem bracket_takes {α : Type} {opens : Token} {inside : Rule α} {body : List Lexeme} {value : α}
    (b : Bracket opens) (hbody : Opens (·.isWhitespace = false) body)
    (h : inside.Takes body value (b.after ++ b.closing :: rest)) :
    (((((just opens).skipThen ws).skipThen inside).thenSkip ws).thenSkip
      (just .closeParen)).Takes (b.around body) value rest := by
  have hopening := just_takes b.opening_token
    (b.before ++ (body ++ (b.after ++ b.closing :: rest)))
  have hbefore := ws_takes b.blank_before (hbody.begins (b.after ++ b.closing :: rest))
  have hafter := ws_takes b.blank_after (closing_begins b rest)
  have hclosing := just_takes b.closing_token rest
  have := (((hopening.skipThen hbefore).skipThen h).thenSkip hafter).thenSkip hclosing
  simpa [Bracket.around] using this

/-- Brackets around nothing but white space are taken as well. -/
theorem bracket_takes_nil {α : Type} {opens : Token} {inside : Rule α} {value : α}
    (b : Bracket opens) (h : inside.Takes [] value (b.closing :: rest)) :
    (((((just opens).skipThen ws).skipThen inside).thenSkip ws).thenSkip
      (just .closeParen)).Takes (b.around []) value rest := by
  -- all of the white space is read before what is inside, none of it after
  have hblank : Blank (b.before ++ b.after) := blank_append.mpr ⟨b.blank_before, b.blank_after⟩
  have hopening := just_takes b.opening_token ((b.before ++ b.after) ++ b.closing :: rest)
  have hbefore := ws_takes hblank (closing_begins b rest)
  have hafter := ws_takes blank_nil (closing_begins b rest)
  have hclosing := just_takes b.closing_token rest
  have := (((hopening.skipThen hbefore).skipThen h).thenSkip hafter).thenSkip hclosing
  simpa [Bracket.around] using this

/-- A construct in brackets needs its opening token. -/
theorem bracket_refuses {α : Type} {opens : Token} {inside : Rule α}
    (h : Begins (· ≠ opens) lexemes) :
    (((((just opens).skipThen ws).skipThen inside).thenSkip ws).thenSkip
      (just .closeParen)).Refuses lexemes :=
  (just_refuses h).skipThen.skipThen.thenSkip.thenSkip

/-- A number is taken up to where its fraction would start. -/
theorem number_takes {sign fraction : List Lexeme} {lexeme : Lexeme} {minus : Option Unit}
    {whole : String} {decimals : Option String} (hsign : Maybe Minus sign minus)
    (hdigits : lexeme.token = .number whole) (hfraction : Maybe Fraction fraction decimals)
    (hrest : Begins (· ≠ .period) rest) :
    number.Takes (sign ++ lexeme :: fraction)
      (Expr.leaf (.number (numberText minus whole decimals)) (cover (sign ++ lexeme :: fraction)))
      rest := by
  -- what may be missing is missing only where it is not next
  have hminus : (just (.other '-')).optional.Takes sign minus ([lexeme] ++ (fraction ++ rest)) := by
    cases hsign with
    | none => exact (just_refuses (by simp [hdigits])).optional
    | some h =>
      obtain ⟨htoken⟩ := h
      exact (just_takes htoken _).optional
  have hdecimals : ((just .period).skipThen digits).optional.Takes fraction decimals rest := by
    cases hfraction with
    | none => exact (just_refuses hrest).skipThen.optional
    | some h =>
      obtain ⟨hperiod, htext⟩ := h
      exact ((just_takes hperiod _).skipThen (digits_takes htext rest)).optional
  have takes := (hminus.andThen (digits_takes hdigits _)).andThen hdecimals
  rw [List.append_assoc] at takes
  exact (takes.spanned (by simp)).labelled

/-- `number` refuses what is neither a sign nor a run of digits. -/
theorem number_refuses (h : Begins (fun t => t ≠ .other '-' ∧ ∀ text, t ≠ .number text) lexemes) :
    number.Refuses lexemes := by
  have hsign := (just_refuses (h.mono fun _ ht => ht.1)).optional
  have hdigits := digits_refuses (h.mono fun _ ht => ht.2)
  exact (hsign.andThen_refuses hdigits).andThen.spanned.labelled

/-- The names of a type reference are taken up to where a further period would be. -/
theorem segments_takes {names : List String} (h : Segments used names)
    (hrest : Begins (· ≠ .period) rest) :
    (sepByOne identifier (just .period)).Takes used names rest := by
  -- the first name, and each further name with the period before it
  have rounds : ∃ first more name later, used = [first] ++ more ∧ names = name :: later ∧
      first.token = .identifier name ∧
      Row (fun used name left => used ≠ [] ∧ ((just .period).skipThen identifier).Takes used name left)
        more later rest := by
    induction h with
    | @last lexeme name hname => exact ⟨lexeme, [], name, [], rfl, rfl, hname, .nil⟩
    | @more lexeme period name _ _ hname hperiod _ ih =>
      obtain ⟨first, more, name', later, rfl, rfl, hfirst, row⟩ := ih
      have round := (just_takes hperiod _).skipThen (identifier_takes hfirst (more ++ rest))
      exact ⟨lexeme, _, name, _, rfl, rfl, hname, .cons ⟨by simp, round⟩ row⟩
  obtain ⟨first, more, name, later, rfl, rfl, hfirst, row⟩ := rounds
  exact (identifier_takes hfirst _).sepByOne row (just_refuses hrest)

/-- `typeRef` takes a type in brackets. -/
theorem typeRef_takes {tree : Expr} (h : TypeRef used tree) (rest : List Lexeme) :
    typeRef.Takes used tree rest := by
  obtain ⟨hopening, hbody, hclosing⟩ := h
  rename_i opening closing body names
  have hnames : (sepByOne identifier (just .period)).Takes body names (closing :: rest) :=
    segments_takes hbody (by simp [hclosing])
  have takes := ((just_takes hopening _).skipThen hnames).thenSkip (just_takes hclosing rest)
  exact (takes.spanned (by simp)).labelled

/-- `typeRef` refuses what does not open with a bracket. -/
theorem typeRef_refuses (h : Begins (· ≠ .openBracket) lexemes) : typeRef.Refuses lexemes :=
  (just_refuses h).skipThen.thenSkip.spanned.labelled

/-- `quotedLiteral` takes a string without references. -/
theorem quotedLiteral_takes {tree : Expr} (h : QuotedLiteral used tree) (rest : List Lexeme) :
    quotedLiteral.Takes used tree rest := by
  obtain ⟨hopening, hbody, hclosing⟩ := h
  rename_i opening closing body
  have htext : (satisfying fun t => t ≠ .quote).many.Takes body (body.map Lexeme.token)
      (closing :: rest) := run_takes (by simpa using hbody) (by simp [hclosing])
  have takes := ((just_takes hopening _).skipThen htext).thenSkip (just_takes hclosing rest)
  exact (takes.spanned (by simp)).labelled

/-- `metadataName` takes an identifier, or the white space that counts as one. -/
theorem metadataName_takes {named : String → Prop} {tree : Expr} (h : MetadataName named used tree)
    (rest : List Lexeme) : metadataName.Takes used tree rest := by
  cases h with
  | symbol h => exact (symbol_takes h rest).orElse
  | @blank lexeme hblank =>
    have hname : symbol.Refuses ([lexeme] ++ rest) := by
      refine symbol_refuses (begins_cons.mpr fun name hname => ?_)
      rw [hname] at hblank
      cases hblank
    exact hname.orElse_takes ((satisfying_takes hblank rest).spanned (List.cons_ne_nil _ _))

/-- A symbol opens with a token that is not white space. -/
theorem symbol_opens_sharp {named : String → Prop} {tree : Expr} (h : Symbol named used tree) :
    Opens (·.isWhitespace = false) used :=
  (symbol_opens h).mono fun _ ⟨_, ht, _⟩ => by rw [ht]; rfl

/-- A qualified name needs its period. -/
theorem qualifiedMetadata_refuses {named : String → Prop} {gap : List Lexeme} {tree : Expr}
    (h : Symbol named used tree) (hgap : Blank gap)
    (hrest : Begins (fun t => t.isWhitespace = false ∧ t ≠ .period) rest) :
    qualifiedMetadata.Refuses (used ++ (gap ++ rest)) := by
  have hname := (symbol_takes h _).thenSkip (ws_takes hgap (hrest.mono fun _ ht => ht.1))
  have hperiod := just_refuses (hrest.mono fun _ ht => ht.2)
  rw [← List.append_assoc]
  exact (hname.andThen_refuses hperiod.spanned).andThen.map

/-- The type of a qualified name and its period, before the name or what stands in its place. -/
theorem qualifier_takes {named : String → Prop} {gap : List Lexeme} {period : Lexeme} {tree : Expr}
    (h : Symbol named used tree) (hgap : Blank gap) (hperiod : period.token = .period)
    (rest : List Lexeme) :
    ((symbol.thenSkip ws).andThen ((just .period).spanned fun _ span => span)).Takes
      (used ++ (gap ++ [period])) (tree, period.span) rest := by
  have hsharp : Begins (·.isWhitespace = false) ([period] ++ rest) :=
    begins_cons.mpr (by rw [hperiod]; rfl)
  have hname := (symbol_takes h _).thenSkip (ws_takes hgap hsharp)
  rw [← List.append_assoc]
  exact hname.andThen ((just_takes hperiod rest).spanned (List.cons_ne_nil _ _))

/-- `itemMetadata` takes a reference to metadata, whatever is missing in it. -/
theorem itemMetadata_takes {named : String → Prop} {tree : Expr} (h : ItemMetadata named used tree)
    (rest : List Lexeme) : itemMetadata.Takes used tree rest := by
  cases h with
  | empty b =>
    have hnone : symbol.Refuses (b.closing :: rest) := symbol_refuses (by simp [b.closing_token])
    have hqualified : qualifiedMetadata.Refuses (b.closing :: rest) :=
      hnone.thenSkip.andThen.andThen.map
    refine ((bracket_takes_nil b (Refuses.optional ?_)).spanned (b.around_ne_nil _)).labelled
    exact hqualified.orElse hnone.map
  | @plain b body name h =>
    -- a qualified name is tried first, and needs a period
    have hclosing : Begins (fun t => t.isWhitespace = false ∧ t ≠ .period) (b.closing :: rest) := by
      rw [begins_cons, b.closing_token]
      exact ⟨rfl, Token.noConfusion⟩
    have hqualified := qualifiedMetadata_refuses h b.blank_after hclosing
    have hname : (symbol.map fun name => [name]).Takes body [name] (b.after ++ b.closing :: rest) :=
      (symbol_takes h _).map
    have hplain := hqualified.orElse_takes hname
    have takes := bracket_takes b (symbol_opens_sharp h) hplain.optional
    exact (takes.spanned (b.around_ne_nil _)).labelled
  | @qualified b type gap name period typeTree nameTree htype hgap hperiod hname =>
    have hname := metadataName_takes hname (b.after ++ b.closing :: rest)
    have hqualified : qualifiedMetadata.Takes ((type ++ (gap ++ [period])) ++ name)
        [typeTree, nameTree] (b.after ++ b.closing :: rest) :=
      ((qualifier_takes htype hgap hperiod _).andThen hname.optional).map
    simp only [List.append_assoc, List.singleton_append] at hqualified
    have hopens := (symbol_opens_sharp htype).append (gap ++ period :: name)
    exact ((bracket_takes b hopens hqualified.orElse.optional).spanned
      (b.around_ne_nil _)).labelled
  | @unnamed b type gap period typeTree hafter htype hgap hperiod =>
    -- no white space is left for the name
    have hnone : metadataName.Refuses (b.after ++ b.closing :: rest) := by
      rw [hafter]
      have hname : symbol.Refuses (b.closing :: rest) := symbol_refuses (by simp [b.closing_token])
      exact hname.orElse (satisfying_refuses (closing_begins b rest)).spanned
    have hqualified : qualifiedMetadata.Takes ((type ++ (gap ++ [period])) ++ [])
        [typeTree, Expr.symbol "" (Span.emptyAt period.span.stop)]
        (b.after ++ b.closing :: rest) :=
      ((qualifier_takes htype hgap hperiod _).andThen hnone.optional).map
    rw [List.append_nil] at hqualified
    have hopens := (symbol_opens_sharp htype).append (gap ++ [period])
    exact ((bracket_takes b hopens hqualified.orElse.optional).spanned
      (b.around_ne_nil _)).labelled

/-- `itemMetadata` refuses what does not open with `%(`. -/
theorem itemMetadata_refuses (h : Begins (· ≠ .itemMetadataOpen) lexemes) :
    itemMetadata.Refuses lexemes :=
  (bracket_refuses h).spanned.labelled

/-- `itemGroup` takes a reference to items, with a name or without. -/
theorem itemGroup_takes {named : String → Prop} {tree : Expr} (h : ItemGroup named used tree)
    (rest : List Lexeme) : itemGroup.Takes used tree rest := by
  obtain ⟨b, h⟩ := h
  cases h with
  | none =>
    have hnone : symbol.Refuses (b.closing :: rest) := symbol_refuses (by simp [b.closing_token])
    exact ((bracket_takes_nil b hnone.optional).spanned (b.around_ne_nil _)).labelled
  | some h =>
    have hname := symbol_takes h (b.after ++ b.closing :: rest)
    have takes := bracket_takes b (symbol_opens_sharp h) hname.optional
    exact (takes.spanned (b.around_ne_nil _)).labelled

/-- `itemGroup` refuses what does not open with `@(`. -/
theorem itemGroup_refuses (h : Begins (· ≠ .itemGroupOpen) lexemes) : itemGroup.Refuses lexemes :=
  (bracket_refuses h).spanned.labelled

/-- A plain run is taken up to the next token that is not plain. -/
theorem plain_takes (filled : used ≠ []) (h : ∀ lexeme ∈ used, isPlain lexeme.token = true)
    (hrest : Begins (isPlain · = false) rest) :
    plain.Takes used
      (Expr.leaf (.stringContent (decode (used.map Lexeme.token))) (cover used)) rest := by
  have hrun : (satisfying isPlain).oneOrMore.Takes used (used.map Lexeme.token) rest := by
    intro start stop tiles
    cases used with
    | nil => exact absurd rfl filled
    | cons lexeme used =>
      obtain ⟨hp, hused⟩ := List.forall_mem_cons.mp h
      have later := reads_many.mp (run_takes hused hrest tiles.2.2)
      exact reads_oneOrMore.mpr ⟨_, _, _, satisfying_takes hp _ tiles, later, rfl⟩
  exact hrun.spanned filled

/-- `plain` refuses a quote and what opens a reference. -/
theorem plain_refuses (h : Begins (isPlain · = false) lexemes) : plain.Refuses lexemes :=
  fun _ _ tiles => fails_spanned.mpr (fails_oneOrMore.mpr (satisfying_refuses h tiles))

end

end Grammar

end ProjectLens
