import Mathlib.Data.List.Basic
import ProjectLens.Proofs.SingleItem

/-! # Expressions in other surroundings

What is read as an expression before one end is read as the same expression before any other: at the
end of the text, before a parenthesis, a comma or a semicolon. Rules try alternatives in order, so
an alternative that fails only where the text ends might get in the way elsewhere. Most of them fail
at tokens of the expression itself. The exception is a name that could be a negation: whether `not`
is one depends on what stands after it, and there the outcome of the first run says what the second
does.

* `Alike`: two places where the same may stand before;
* `negation_refuses_elsewhere`: no primary becomes a negation elsewhere;
* `Recurs`: what a run says about runs at places that are alike; `unary_recurs`, `joined_recurs`,
  `expressionWithin_recurs`: one law for each level;
* `Standalone`, `expression_standalone`: expressions are taken before every end. -/

namespace ProjectLens

namespace Grammar

open Rule ProjectLens.Derivation

/-- **Two places that are alike** for what stands before them: an expression ends at both of them, or
both go on with the same keyword. -/
inductive Alike (words : List String) : List Lexeme → List Lexeme → Prop where
  /-- An expression ends. -/
  | ends {left rest : List Lexeme} : Followed closes left → Followed closes rest →
      Alike words left rest
  /-- A keyword follows. -/
  | goes {blank more more' : List Lexeme} {lexeme : Lexeme} {word : String} : Blank blank →
      word ∈ words → lexeme.token.isKeyword word = true →
      Alike words (blank ++ lexeme :: more) (blank ++ lexeme :: more')

namespace Alike

variable {words words' : List String} {left rest : List Lexeme}

/-- Rests that are alike for some words are alike for fewer. -/
theorem mono (h : Alike words left rest) (hsub : ∀ word ∈ words, word ∈ words') :
    Alike words' left rest := by
  cases h with
  | ends hleft hrest => exact .ends hleft hrest
  | goes hblank hword hkeyword => exact .goes hblank (hsub _ hword) hkeyword

/-- What stands at places that are alike is either the end of an expression or one of the keywords. -/
theorem followed (h : Alike words left rest) {p : Token → Prop} (hcloses : ∀ t, closes t → p t)
    (hwords : ∀ word ∈ words, ∀ t : Token, t.isKeyword word = true → p t) :
    Followed p left ∧ Followed p rest := by
  cases h with
  | ends hleft hrest => exact ⟨hleft.mono hcloses, hrest.mono hcloses⟩
  | goes hblank hword hkeyword =>
    have hp := hwords _ hword _ hkeyword
    constructor
    · rwa [followed_append hblank, followed_cons (keyword_sharp hkeyword)]
    · rwa [followed_append hblank, followed_cons (keyword_sharp hkeyword)]

/-- An operand may stand before either of two places that are alike. -/
theorem stops (h : Alike ["and", "or"] left rest) : Followed stops left ∧ Followed stops rest := by
  refine h.followed (fun _ ht => Or.inr (Or.inr ht)) fun word hword t ht => ?_
  rcases List.mem_pair.mp hword with rfl | rfl
  · exact Or.inl ht
  · exact Or.inr (Or.inl ht)

end Alike

section Inner

variable {expression expression' : Rule Expr} {named : String → Prop}
  {inner : List Lexeme → Expr → Prop} {used left rest lexemes : List Lexeme} {tree : Expr}
  {start stop : Nat}

/-! ## Names that could be negations -/

/-- What starts no expression, and is no white space either. -/
def bars (t : Token) : Prop := t.isWhitespace = false ∧ opensExpression t = false

/-- **What stands after a name that opens a primary**: nothing that belongs to it, a mark that starts
no expression, or the arguments of a call. -/
inductive AfterName (inner : List Lexeme → Expr → Prop) : List Lexeme → Prop where
  /-- The name is all of it. -/
  | alone : AfterName inner []
  /-- An operator or a period. -/
  | mark {blank more : List Lexeme} {lexeme : Lexeme} : Blank blank → bars lexeme.token →
      AfterName inner (blank ++ lexeme :: more)
  /-- Arguments. -/
  | arguments {tokens : List Lexeme} {trees : List Expr} : ArgumentList inner tokens trees →
      AfterName inner tokens

/-- A primary opens with a name, after which one of these stands, or with no word of a negation. -/
theorem primary_afterName (h : Primary named inner used tree) :
    Opens (fun t => ¬ negates t) used ∨
      ∃ first more, used = first :: more ∧ AfterName inner more := by
  -- only calls, comparisons and symbols can begin with a name
  cases h with
  | grouped h =>
    obtain ⟨b, -⟩ := h
    exact Or.inl ⟨_, _, rfl, by simp [negates, b.opening_token, Token.isKeyword]⟩
  | compared h =>
    obtain ⟨operator, hleft, -⟩ := h
    rename_i relation left right leftTree rightTree
    cases hleft with
    | quoted h =>
      exact Or.inl (((quotedString_opens h).append _).mono (by simp [negates, Token.isKeyword]))
    | evaluate h =>
      exact Or.inl (((evaluate_opens h).append _).mono (by simp [negates, Token.isKeyword]))
    | @symbol lexeme name _ _ =>
      have hmark : operator.lexeme.token = operatorToken relation := operator.holds
      refine Or.inr ⟨lexeme, operator.before ++ operator.lexeme :: (operator.after ++ right),
        by simp [Spaced.lexemes], .mark operator.blank_before ?_⟩
      rw [hmark]
      cases relation <;> exact ⟨rfl, rfl⟩
  | call h =>
    cases h with
    | plain _ _ h => exact Or.inr ⟨_, _, rfl, .arguments h⟩
    | onInstance htarget hperiod _ _ _ =>
      obtain ⟨-, -⟩ := htarget
      exact Or.inr ⟨_, _, rfl, .mark blank_nil (by rw [hperiod]; exact ⟨rfl, rfl⟩)⟩
    | onType htarget _ _ _ _ =>
      obtain ⟨hopening, -, -⟩ := htarget
      exact Or.inl ⟨_, _, rfl, by simp [negates, hopening, Token.isKeyword]⟩
  | transform h =>
    obtain ⟨b, arrow, -, -⟩ := h
    exact Or.inl ⟨_, _, rfl, by simp [negates, b.opening_token, Token.isKeyword]⟩
  | group h => exact Or.inl ((itemGroup_opens h).mono (by simp [negates, Token.isKeyword]))
  | metadata h => exact Or.inl ((itemMetadata_opens h).mono (by simp [negates, Token.isKeyword]))
  | quoted h => exact Or.inl ((quotedString_opens h).mono (by simp [negates, Token.isKeyword]))
  | evaluate h => exact Or.inl ((evaluate_opens h).mono (by simp [negates, Token.isKeyword]))
  | symbol _ _ => exact Or.inr ⟨_, [], rfl, .alone⟩

/-- An argument is an expression, or it is a number and starts none. -/
theorem argument_cases (h : Argument inner used tree) : inner used tree ∨ Opens bars used := by
  cases h with
  | number hsign hdigits _ =>
    cases hsign with
    | none => exact Or.inr ⟨_, _, rfl, by rw [hdigits]; exact ⟨rfl, rfl⟩⟩
    | some h =>
      obtain ⟨hminus⟩ := h
      exact Or.inr ⟨_, _, rfl, by rw [hminus]; exact ⟨rfl, rfl⟩⟩
  | expression h => exact Or.inl h

/-- A parenthesis with the white space after it. -/
theorem opening_takes {opening : Lexeme} {blank : List Lexeme} (hopening : opening.token = .openParen)
    (hblank : Blank blank) (hrest : Begins (·.isWhitespace = false) rest) :
    ((just .openParen).skipThen ws).Takes ([opening] ++ blank) () rest :=
  (just_takes hopening _).skipThen (ws_takes hblank hrest)

/-- No group starts where what is inside the parenthesis starts no expression. -/
theorem grouped_refuses_bars (he : Complete expression inner) {opening : Lexeme}
    {blank : List Lexeme} (hopening : opening.token = .openParen) (hblank : Blank blank)
    (h : Begins bars rest) : (grouped expression).Refuses ([opening] ++ blank ++ rest) := by
  have hinside := (opening_takes hopening hblank (h.mono fun _ ht => ht.1)).skipThen_refuses
    (he.refuses (h.mono fun _ ht => ht.2))
  exact hinside.thenSkip.thenSkip.spanned.labelled

/-- No group ends at a comma. -/
theorem grouped_refuses_comma (he : Complete expression inner) {opening : Lexeme}
    {blank : List Lexeme} (hopening : opening.token = .openParen) (hblank : Blank blank)
    (h : inner used tree) (comma : Spaced (· = .comma)) (rest : List Lexeme) :
    (grouped expression).Refuses ([opening] ++ blank ++ used ++ (comma.lexemes ++ rest)) := by
  have hcomma : comma.lexeme.token = .comma := comma.holds
  have hsharp : Begins (·.isWhitespace = false) (comma.lexeme :: (comma.after ++ rest)) :=
    begins_cons.mpr (by rw [hcomma]; rfl)
  have hfollow : Followed closes (comma.before ++ comma.lexeme :: (comma.after ++ rest)) := by
    rw [followed_append comma.blank_before, followed_cons (by rw [hcomma]; rfl)]
    exact Or.inr (Or.inl hcomma)
  have hopens := ((he.opens h).begins (comma.before ++ comma.lexeme :: (comma.after ++ rest))).mono
    fun _ ht => sharp_of_opensExpression ht
  have hfirst := (opening_takes hopening hblank hopens).skipThen (he.takes h hfollow)
  have hclosing : (just .closeParen).Refuses (comma.lexeme :: (comma.after ++ rest)) :=
    just_refuses (by simp [hcomma])
  have hnone := (hfirst.thenSkip (ws_takes comma.blank_before hsharp)).thenSkip_refuses hclosing
  have hgrouped : (grouped expression).Refuses _ := hnone.spanned.labelled
  simpa [Spaced.lexemes] using hgrouped

/-- **Arguments are a group only if they are a single expression.** -/
theorem grouped_or_refuses (he : Complete expression inner) {trees : List Expr}
    (h : ArgumentList inner used trees) (rest : List Lexeme) :
    (∃ tree, Grouped inner used tree) ∨ (grouped expression).Refuses (used ++ rest) := by
  -- a group has one expression in it: no argument, a second one or a number is refused
  cases h with
  | empty b =>
    have hclosing : Begins bars (b.closing :: rest) :=
      begins_cons.mpr (by rw [b.closing_token]; exact ⟨rfl, rfl⟩)
    have hblank : Blank (b.before ++ b.after) := blank_append.mpr ⟨b.blank_before, b.blank_after⟩
    have hgrouped := grouped_refuses_bars he b.opening_token hblank hclosing
    exact Or.inr (by simpa [Bracket.around] using hgrouped)
  | filled b h =>
    cases h with
    | last h =>
      rcases argument_cases h with h | hopens
      · exact Or.inl ⟨_, .intro b h⟩
      · have hgrouped := grouped_refuses_bars he b.opening_token b.blank_before
          (hopens.begins (b.after ++ b.closing :: rest))
        exact Or.inr (by simpa [Bracket.around] using hgrouped)
    | @more comma tokens later tree trees h _ =>
      rcases argument_cases h with h | hopens
      · have hgrouped := grouped_refuses_comma he b.opening_token b.blank_before h comma
          (later ++ (b.after ++ b.closing :: rest))
        exact Or.inr (by simpa [Bracket.around] using hgrouped)
      · have hgrouped := grouped_refuses_bars he b.opening_token b.blank_before
          (hopens.begins (comma.lexemes ++ (later ++ (b.after ++ b.closing :: rest))))
        exact Or.inr (by simpa [Bracket.around] using hgrouped)

/-- A negation and what it negates. -/
abbrev negation (rule : Rule Expr) : Rule Expr :=
  ((choice [just .bang, keyword "not"]).thenSkip ws).skipThen rule

/-- The word of a negation is taken with the white space after it. -/
theorem negationWord_takes {first : Lexeme} (h : negates first.token) (lexemes : List Lexeme) :
    ∃ blank, first :: lexemes = ([first] ++ blank) ++ skipBlank lexemes ∧
      ((choice [just .bang, keyword "not"]).thenSkip ws).Takes ([first] ++ blank) ()
        (skipBlank lexemes) := by
  obtain ⟨blank, hblank, hsplit⟩ := exists_blank_append_skipBlank lexemes
  refine ⟨blank, ?_, (negation_takes h _).thenSkip (ws_takes hblank (skipBlank_begins lexemes))⟩
  rw [List.append_assoc, ← hsplit]
  rfl

/-- `negation rule` refuses where its rule refuses behind the `!`. -/
theorem negation_refuses_behind {rule : Rule Expr} {first : Lexeme} (h : negates first.token)
    (hrule : rule.Refuses (skipBlank lexemes)) : (negation rule).Refuses (first :: lexemes) := by
  obtain ⟨blank, hsplit, htakes⟩ := negationWord_takes h lexemes
  rw [hsplit]
  exact htakes.skipThen_refuses hrule

/-- A negation fails at what it negates. -/
theorem fails_of_negation {rule : Rule Expr} {first : Lexeme} (h : negates first.token)
    (tiles : Tiles start (first :: lexemes) stop)
    (hfails : (negation rule).Fails ⟨first :: lexemes, stop⟩) :
    rule.Fails ⟨skipBlank lexemes, stop⟩ := by
  obtain ⟨blank, hsplit, htakes⟩ := negationWord_takes h lexemes
  rw [hsplit] at tiles hfails
  rcases fails_skipThen.mp hfails with hword | ⟨_, middle, hword, hrule⟩
  · exact absurd hword (htakes tiles).not_fails
  · obtain ⟨-, rfl⟩ := hword.unique (htakes tiles)
    exact hrule

/-- Every name is a symbol if it is nothing else, so nothing fails there. -/
theorem unaryWithin_not_fails {lexeme : Lexeme} {name : String}
    (hname : lexeme.token = .identifier name) (levels : Nat) :
    ¬ (unaryWithin expression levels).Fails ⟨lexeme :: lexemes, stop⟩ := by
  have hprimary : ¬ (primary expression).Fails ⟨lexeme :: lexemes, stop⟩ := by
    intro hfails
    have hsymbol : symbol.Fails ⟨lexeme :: lexemes, stop⟩ := fails_choice.mp hfails symbol (by simp)
    exact fails_identifier.mp (fails_spanned.mp hsymbol) lexeme lexemes rfl name hname
  cases levels with
  | zero => exact hprimary
  | succ levels => exact fun hfails => hprimary (fails_orElse.mp hfails).2

/-- A group is taken at any level of negations. -/
theorem unaryWithin_takes_grouped (he : Complete expression inner) (h : Grouped inner used tree)
    (hrest : Followed stops rest) (levels : Nat) :
    (unaryWithin expression levels).Takes used tree rest := by
  have hgroup : Primary anyName inner used tree := .grouped h
  have hprimary := primary_takes he hgroup hrest
  cases levels with
  | zero => exact hprimary
  | succ levels =>
    have hopens : Opens (fun t => t = .openParen ∨ t = .quote) used := by
      obtain ⟨b, -⟩ := h
      exact ⟨_, _, rfl, Or.inl b.opening_token⟩
    have hrefuses := negation_refuses_opens (hopens.begins rest)
    exact hrefuses.thenSkip.skipThen.spanned.orElse_takes hprimary

/-- **No primary becomes a negation elsewhere.** If what could be negated is missing at one place, it
is missing at every place like it. -/
theorem negation_refuses_elsewhere (he : Complete expression inner)
    (he' : Complete expression' inner) (h : Primary named inner used tree) {levels : Nat}
    (tiles : Tiles start (used ++ left) stop)
    (hfails : (negation (unaryWithin expression levels)).Fails ⟨used ++ left, stop⟩)
    (alike : Alike ["and", "or"] left rest) (levels' : Nat) :
    (negation (unaryWithin expression' levels')).Refuses (used ++ rest) := by
  rcases primary_afterName h with hopens | ⟨first, more, rfl, hafter⟩
  · exact (negation_refuses (hopens.begins rest)).thenSkip.skipThen
  rw [List.cons_append] at tiles hfails ⊢
  by_cases hword : negates first.token
  swap
  · exact (negation_refuses (begins_cons.mpr hword)).thenSkip.skipThen
  have hinside := fails_of_negation hword tiles hfails
  refine negation_refuses_behind hword ?_
  cases hafter with
  | alone =>
    cases alike with
    | ends _ hrest =>
      -- what ends an expression starts none
      refine unaryWithin_refuses (Begins.mono hrest ?_) levels'
      rintro t (rfl | rfl | rfl) <;> rfl
    | @goes blank tail tail' lexeme word hblank hmem hkeyword =>
      -- the keyword itself would be what is negated
      rw [List.nil_append, skipBlank_append hblank,
        skipBlank_cons (keyword_sharp hkeyword)] at hinside
      cases htoken : lexeme.token with
      | identifier name => exact absurd hinside (unaryWithin_not_fails htoken levels)
      | _ =>
        rw [htoken] at hkeyword
        cases hkeyword
  | @mark blank tail lexeme hblank hbars =>
    rw [List.append_assoc, List.cons_append, skipBlank_append hblank, skipBlank_cons hbars.1]
    exact unaryWithin_refuses (begins_cons.mpr hbars.2) levels'
  | arguments h =>
    obtain ⟨opening, tokens, rfl, hopening⟩ := argumentList_opens h
    have hsharp : opening.token.isWhitespace = false := by rw [hopening]; rfl
    rw [List.cons_append, skipBlank_cons hsharp] at hinside ⊢
    rcases grouped_or_refuses he' h rest with ⟨group, hgroup⟩ | hgrouped
    · -- a single expression would have been negated at the first place
      have hreads := unaryWithin_takes_grouped he hgroup alike.stops.1 levels tiles.2.2
      exact absurd hinside hreads.not_fails
    · exact unaryWithin_refuses_of_grouped hgrouped (begins_cons.mpr (Or.inl hopening)) levels'

end Inner

/-! ## Operands and expressions -/

section Levels

variable {depth : Nat} {used left rest lexemes : List Lexeme} {tree : Expr} {start stop : Nat}

/-- **What is settled**: tokens from which these levels, and any more of them, take the tree wherever
an expression may end. -/
structure Settled (depth : Nat) (used : List Lexeme) (tree : Expr) : Prop where
  opens : Opens (opensExpression · = true) used
  takes : ∀ {rest : List Lexeme}, Followed closes rest → ∀ {depth' : Nat}, depth ≤ depth' →
    (expressionWithin depth').Takes used tree rest

/-- What is settled is complete for as many levels, or more. -/
theorem settled_complete {depth' : Nat} (hle : depth ≤ depth') :
    Complete (expressionWithin depth') (Settled depth) where
  takes h hrest := h.takes hrest hle
  opens h := h.opens
  refuses h := expressionWithin_refuses h depth'

/-- **What a run says about others**: the tokens that a rule of some levels used before `left`, the
rule takes with any more levels and before every place like that one. -/
structure Recurs (words : List String) (rule : Nat → Rule Expr) (depth : Nat) (used : List Lexeme)
    (tree : Expr) (left : List Lexeme) : Prop where
  opens : Opens (opensExpression · = true) used
  takes : ∀ {rest : List Lexeme}, Alike words left rest → ∀ {depth' : Nat}, depth ≤ depth' →
    (rule depth').Takes used tree rest

/-- An expression that was read before some end is settled. -/
theorem Recurs.settled (h : Recurs [] expressionWithin depth used tree left)
    (hleft : Followed closes left) : Settled depth used tree where
  opens := h.opens
  takes hrest _ hle := h.takes (.ends hleft hrest) hle

/-- Inside parentheses an expression stands before a comma or a closing parenthesis. -/
theorem Closed.followed (h : Closed left) : Followed closes left := by
  obtain ⟨hblank, hclose⟩ := h
  rw [followed_append hblank]
  rcases hclose with hclose | hclose
  · rw [followed_cons (by rw [hclose]; rfl)]
    exact Or.inr (Or.inl hclose)
  · rw [followed_cons (by rw [hclose]; rfl)]
    exact Or.inl hclose

/-- Negations and primaries. There is a level of negation for each token, so that all of them have
been tried at the first place. -/
theorem unaryWithin_recurs (h : (expressionWithin depth).Sound (Recurs [] expressionWithin depth))
    (levels : Nat) :
    (unaryWithin (expressionWithin depth) levels).Sound fun used tree left =>
      (used ++ left).length < levels → Opens (opensExpression · = true) used ∧
        ∀ rest, Alike ["and", "or"] left rest → ∀ depth', depth ≤ depth' → ∀ levels',
          used.length ≤ levels' →
            (unaryWithin (expressionWithin depth') levels').Takes used tree rest := by
  have inside := h.mono fun used tree left hrecurs (hleft : Closed left) =>
    hrecurs.settled hleft.followed
  have primary := primary_sound inside
  induction levels with
  | zero => exact primary.mono fun _ _ _ _ hlt => absurd hlt (Nat.not_lt_zero _)
  | succ levels ih =>
    intro start stop lexemes tree rest tiles reads
    rcases reads_orElse.mp reads with reads | ⟨fails, reads⟩
    · obtain ⟨used, left, hsplit, hrest, word, gap, tokens, inner, rfl, hword, hgap, hinner, rfl⟩ :=
        negation_sound ih tiles reads
      refine ⟨_, left, hsplit, hrest, fun hlt => ?_⟩
      simp only [List.length_append, List.length_cons] at hlt hinner
      obtain ⟨hopens, htakes⟩ := hinner (by omega)
      refine ⟨⟨word, _, rfl, opensExpression_of_negates hword⟩, fun rest alike depth' hle => ?_⟩
      intro levels' hlevels
      simp only [List.length_cons, List.length_append] at hlevels
      obtain ⟨levels', rfl⟩ : ∃ l, levels' = l + 1 := ⟨levels' - 1, by omega⟩
      have hsharp := (hopens.begins rest).mono fun _ ht => sharp_of_opensExpression ht
      have hnegation := (negation_takes hword _).thenSkip (ws_takes hgap hsharp)
      have hnegated := htakes rest alike depth' hle levels' (by omega)
      exact ((hnegation.skipThen hnegated).spanned (by simp)).orElse
    · obtain ⟨used, left, rfl, rfl, hprimary⟩ := primary tiles reads
      refine ⟨used, left, rfl, rfl, fun _ => ⟨?_, fun rest alike depth' hle levels' _ => ?_⟩⟩
      · exact (primary_opens hprimary).mono fun _ ht => opensExpression_of_primary ht
      have htakes := primary_takes (settled_complete hle) hprimary alike.stops.2
      cases levels' with
      | zero => exact htakes
      | succ levels' =>
        -- the negation failed at the first place, so it does here
        have hrefuses := negation_refuses_elsewhere (settled_complete (Nat.le_refl depth))
          (settled_complete hle) hprimary tiles (fails_spanned.mp fails) alike levels'
        exact hrefuses.spanned.orElse_takes htakes

/-- `unary` recurs within the levels of the expressions it is made of. -/
theorem unary_recurs (h : (expressionWithin depth).Sound (Recurs [] expressionWithin depth)) :
    (unary (expressionWithin depth)).Sound
      (Recurs ["and", "or"] (fun depth => unary (expressionWithin depth)) depth) := by
  intro start stop lexemes tree rest tiles reads
  obtain ⟨used, left, rfl, rfl, hrecurs⟩ :=
    unaryWithin_recurs h (Input.left ⟨lexemes, stop⟩ + 1) tiles reads
  obtain ⟨hopens, htakes⟩ := hrecurs (Nat.lt_succ_self _)
  refine ⟨used, left, rfl, rfl, hopens, fun {rest} alike {depth'} hle start' stop' tiles' => ?_⟩
  -- the rule allows for one negation more than there are tokens
  have hlevels : used.length ≤ Input.left ⟨used ++ rest, stop'⟩ + 1 := by
    simp only [Input.left, List.length_append]
    omega
  exact htakes rest alike depth' hle _ hlevels tiles'

/-- A keyword and the operand after it. -/
inductive NextOperand (connective : Connective) (P : List Lexeme → Expr → List Lexeme → Prop) :
    List Lexeme → Expr → List Lexeme → Prop where
  /-- The only form. -/
  | intro (word : Spaced fun token => token.isKeyword connective.tag = true)
      {right left : List Lexeme} {tree : Expr} : P right tree left →
      NextOperand connective P (word.lexemes ++ right) tree left

/-- Before further operands stands the keyword of the first of them, whatever is after the last. -/
theorem alike_of_row {connective : Connective} {words : List String} {more : List Lexeme}
    {trees : List Expr} {P : List Lexeme → Expr → List Lexeme → Prop}
    (row : Row (NextOperand connective P) more trees left) (alike : Alike words left rest) :
    Alike (connective.tag :: words) (more ++ left) (more ++ rest) := by
  cases row with
  | nil => exact alike.mono fun _ hword => List.mem_cons_of_mem _ hword
  | cons h _ =>
    obtain ⟨word, -⟩ := h
    simp only [Spaced.lexemes, List.append_assoc, List.cons_append]
    exact .goes word.blank_before List.mem_cons_self word.holds

/-- **Operands joined by a keyword**: each is followed by the same keyword at both places, but for the
last one, which is followed by what all of them are followed by. -/
theorem joined_recurs (connective : Connective) (words : List String) (rule : Nat → Rule Expr)
    (h : (rule depth).Sound (Recurs (connective.tag :: words) rule depth))
    (hwords : ∀ word ∈ words, Token.sameLetters word connective.tag = false) :
    (((rule depth).andThen (round connective (rule depth)).many).map
      fun (first, rest) => rest.foldl (Expr.join connective) first).Sound
      (Recurs words (fun depth => ((rule depth).andThen (round connective (rule depth)).many).map
        fun (first, rest) => rest.foldl (Expr.join connective) first) depth) := by
  -- a round is the connective and an operand, which may not take the connective itself
  have further : (round connective (rule depth)).Sound
      (NextOperand connective (Recurs (connective.tag :: words) rule depth)) := by
    have word := spaced_sound (fun token => token.isKeyword connective.tag = true)
      (keyword_sound connective.tag)
    refine (word.skipThen h).mono ?_
    rintro _ _ _ ⟨_, right, -, rfl, ⟨word, rfl⟩, hright⟩
    exact .intro word hright
  refine (h.andThen further.many).map.mono ?_
  rintro _ _ left ⟨⟨first, trees⟩, ⟨used, more, rfl, hfirst, row⟩, rfl⟩
  replace row : Row _ more trees left := row
  refine ⟨hfirst.opens.append more, fun {rest} alike {depth'} hle => ?_⟩
  -- before another rest the same rounds are read, the last one first
  have rounds : Row (fun used tree left => used ≠ [] ∧
      (round connective (rule depth')).Takes used tree left) more trees rest := by
    clear hfirst
    induction row with
    | nil => exact .nil
    | cons hnext hlater ih =>
      obtain ⟨word, hright⟩ := hnext
      have htakes := hright.takes (alike_of_row hlater alike) hle
      exact .cons ⟨by simp [Spaced.lexemes], round_takes word hright.opens htakes⟩ (ih alike)
  have hend : Followed (·.isKeyword connective.tag = false) rest := by
    refine (alike.followed (fun _ ht => closes_apart ht) fun word hword t ht => ?_).2
    exact isKeyword_apart ht (hwords word hword)
  have htakes := hfirst.takes (alike_of_row row alike) hle
  exact (htakes.andThen (Takes.many rounds (round_refuses hend))).map

/-- **What some levels read before one end, they and any more of them take before any other.** -/
theorem expressionWithin_recurs (depth : Nat) :
    (expressionWithin depth).Sound (Recurs [] expressionWithin depth) := by
  induction depth with
  | zero =>
    rintro start stop lexemes tree rest tiles ⟨recovered, ran⟩
    cases ran
  | succ depth ih =>
    have hconjunction : (conjunction (expressionWithin depth)).Sound
        (Recurs ["or"] (fun depth => conjunction (expressionWithin depth)) depth) :=
      joined_recurs .and ["or"] (fun depth => unary (expressionWithin depth)) (unary_recurs ih)
        (by decide)
    have hdisjunction : (disjunction (expressionWithin depth)).Sound
        (Recurs [] (fun depth => disjunction (expressionWithin depth)) depth) :=
      joined_recurs .or [] (fun depth => conjunction (expressionWithin depth)) hconjunction (by simp)
    intro start stop lexemes tree rest tiles reads
    obtain ⟨used, left, hsplit, hrest, hrecurs⟩ := hdisjunction tiles reads
    refine ⟨used, left, hsplit, hrest, hrecurs.opens, fun {rest} alike {depth'} hle => ?_⟩
    obtain ⟨depth', rfl⟩ : ∃ d, depth' = d + 1 := ⟨depth' - 1, by omega⟩
    exact hrecurs.takes alike (Nat.le_of_succ_le_succ hle)

/-- What is settled is taken as an expression, which has a level for each token. -/
theorem Settled.expression_takes (h : Settled depth used tree) (hrest : Followed closes rest) :
    expression.Takes used tree rest := by
  intro start stop tiles
  let input : Input := ⟨used ++ rest, stop⟩
  have hagrees : (expressionWithin (input.left + 1)).run input =
      (expressionWithin (max depth (input.left + 1))).run input :=
    expressionWithin_agrees (Nat.le_refl _) (Nat.le_max_right _ _) (Nat.lt_succ_self _)
  obtain ⟨recovered, ran⟩ := h.takes hrest (Nat.le_max_left depth (input.left + 1)) tiles
  exact ⟨recovered, hagrees.trans ran⟩

/-- Tokens that are taken as an expression before every end. -/
structure Standalone (used : List Lexeme) (tree : Expr) : Prop where
  opens : Opens (opensExpression · = true) used
  takes : ∀ {rest : List Lexeme}, Followed closes rest → expression.Takes used tree rest

/-- **An expression that is read before one end is taken before every other.** -/
theorem expression_standalone :
    expression.Sound fun used tree left => Followed closes left → Standalone used tree := by
  intro start stop lexemes tree rest tiles reads
  obtain ⟨used, left, hsplit, hrest, hrecurs⟩ :=
    expressionWithin_recurs (Input.left ⟨lexemes, stop⟩ + 1) tiles reads
  refine ⟨used, left, hsplit, hrest, fun hleft => ⟨hrecurs.opens, fun hrest => ?_⟩⟩
  exact (hrecurs.settled hleft).expression_takes hrest

/-- `expression` reads every expression that stands alone. -/
theorem standalone_complete : Complete expression Standalone where
  takes h hrest := h.takes hrest
  opens h := h.opens
  refuses {lexemes} h _ stop tiles :=
    expressionWithin_refuses h (Input.left ⟨lexemes, stop⟩ + 1) tiles

end Levels

end Grammar

end ProjectLens
