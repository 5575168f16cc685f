import ProjectLens.Proofs.Primaries

/-! # Everything derivable is read

Whatever is derivable from some tokens is read from them, provided no keyword is used as a name.

* `Unreserved`: names that are no keywords;
* `unary_takes`, `joined_takes`: negations, and operands joined by a keyword;
* `expression_takes`: expressions, by induction over what is inside parentheses;
* `root_complete`: whole texts. -/

namespace ProjectLens

namespace Grammar

open Rule ProjectLens.Derivation

section Inner

variable {expression : Rule Expr} {named : String → Prop} {inner : List Lexeme → Expr → Prop}
  {used rest lexemes : List Lexeme} {tree : Expr}

/-- What a primary may start with. -/
def opensPrimary (named : String → Prop) : Token → Prop
  | .openParen | .openBracket | .quote | .evaluateOpen | .itemGroupOpen | .itemMetadataOpen => True
  | .identifier name => named name
  | _ => False

/-- An operand opens as a primary does, and not with `(`. -/
theorem operand_opensPrimary (h : Operand named inner used tree) :
    Opens (fun t => opensPrimary named t ∧ t ≠ .openParen) used := by
  refine (operand_opens h).mono ?_
  rintro t (rfl | rfl | ⟨name, rfl, hn⟩)
  · exact ⟨trivial, Token.noConfusion⟩
  · exact ⟨trivial, Token.noConfusion⟩
  · exact ⟨hn, Token.noConfusion⟩

/-- Of all primaries only the parenthesised ones start with a parenthesis. -/
theorem primary_grouped (h : Primary named inner used tree) :
    Grouped inner used tree ∨ Opens (fun t => opensPrimary named t ∧ t ≠ .openParen) used := by
  -- only a group opens with a parenthesis
  cases h with
  | grouped h => exact Or.inl h
  | compared h =>
    obtain ⟨operator, hleft, -⟩ := h
    exact Or.inr ((operand_opensPrimary hleft).append _)
  | call h =>
    refine Or.inr ((functionCall_opens h).mono ?_)
    rintro t (rfl | ⟨name, rfl, hn⟩)
    · exact ⟨trivial, Token.noConfusion⟩
    · exact ⟨hn, Token.noConfusion⟩
  | transform h =>
    obtain ⟨b, arrow, -, -⟩ := h
    refine Or.inr ⟨_, _, rfl, ?_⟩
    rw [b.opening_token]
    exact ⟨trivial, Token.noConfusion⟩
  | group h =>
    refine Or.inr ((itemGroup_opens h).mono ?_)
    rintro t rfl
    exact ⟨trivial, Token.noConfusion⟩
  | metadata h =>
    refine Or.inr ((itemMetadata_opens h).mono ?_)
    rintro t rfl
    exact ⟨trivial, Token.noConfusion⟩
  | quoted h => exact Or.inr (operand_opensPrimary (.quoted h))
  | evaluate h => exact Or.inr (operand_opensPrimary (.evaluate h))
  | symbol hname hn =>
    have operand : Operand named inner [_] _ := .symbol hname hn
    exact Or.inr (operand_opensPrimary operand)

/-- A primary opens as one is told by: one case for each kind. -/
theorem primary_opens (h : Primary named inner used tree) : Opens (opensPrimary named) used := by
  rcases primary_grouped h with ⟨b, -⟩ | hopens
  · refine ⟨_, _, rfl, ?_⟩
    rw [b.opening_token]
    trivial
  · exact hopens.mono fun _ ht => ht.1

/-- Whatever opens a primary opens an expression. -/
theorem opensExpression_of_primary {t : Token} (h : opensPrimary named t) :
    opensExpression t = true := by
  cases t <;> first | rfl | exact h.elim

/-- A negation opens an expression as well. -/
theorem opensExpression_of_negates {t : Token} (h : negates t) : opensExpression t = true := by
  rcases h with rfl | h
  · rfl
  · cases t <;> first | rfl | cases h

/-- A unary expression opens as an expression is told by. -/
theorem unary_opens (h : Unary named inner used tree) :
    Opens (opensExpression · = true) used := by
  cases h with
  | primary h => exact (primary_opens h).mono fun _ ht => opensExpression_of_primary ht
  | not hword _ _ => exact ⟨_, _, rfl, opensExpression_of_negates hword⟩

/-- What a connective joins opens as its first operand does. -/
theorem joined_opens {connective : Connective} {operand : List Lexeme → Expr → Prop}
    {p : Token → Prop} (ho : ∀ l e, operand l e → Opens p l)
    (h : Joined connective operand used tree) : Opens p used := by
  induction h with
  | single h => exact ho _ _ h
  | join _ _ _ ih => exact ih.append _

/-- An expression starts with one of its opening tokens. -/
theorem expression_opens (h : Expression named used tree) :
    Opens (opensExpression · = true) used := by
  obtain ⟨h⟩ := h
  exact joined_opens (fun _ _ h => joined_opens (fun _ _ h => unary_opens h) h) h

/-- What opens an expression is not white space. -/
theorem sharp_of_opensExpression {t : Token} (h : opensExpression t = true) :
    t.isWhitespace = false := by
  cases t <;> first | rfl | cases h

/-- **A name that is no keyword**, in any letter case. -/
def Unreserved (name : String) : Prop :=
  ∀ word ∈ ["and", "or", "not"], Token.sameLetters name word = false

/-- A negation needs its word. -/
theorem negation_refuses (h : Begins (fun t => ¬ negates t) lexemes) :
    (choice [just .bang, keyword "not"]).Refuses lexemes := by
  have hbang : (just .bang).Refuses lexemes := just_refuses (h.mono fun _ ht hbang => ht (Or.inl hbang))
  have hnot : (keyword "not").Refuses lexemes := by
    refine keyword_refuses (h.mono fun _ ht => ?_)
    rw [Bool.eq_false_iff]
    exact fun hnot => ht (Or.inr hnot)
  exact hbang.choice (hnot.choice choice_nil_refuses)

/-- A primary is not read as a negation. -/
theorem negation_refuses_primary (h : Primary Unreserved inner used tree) (rest : List Lexeme) :
    (choice [just .bang, keyword "not"]).Refuses (used ++ rest) := by
  refine negation_refuses (((primary_opens h).begins rest).mono fun t ht => ?_)
  rintro (rfl | hnot)
  · exact ht
  · -- a name that may be used is not a keyword
    cases t with
    | identifier name =>
      have hname : Token.sameLetters name "not" = false := ht "not" (by simp)
      rw [Token.isKeyword, hname] at hnot
      cases hnot
    | _ => cases hnot

/-- A negation is read as such, whichever way it is written. -/
theorem negation_takes {word : Lexeme} (h : negates word.token) (rest : List Lexeme) :
    (choice [just .bang, keyword "not"]).Takes [word] () rest := by
  rcases h with hbang | hnot
  · exact (just_takes hbang rest).choice
  · have hbang : (just .bang).Refuses ([word] ++ rest) := by
      refine just_refuses (begins_cons.mpr fun hbang => ?_)
      rw [hbang] at hnot
      cases hnot
    exact hbang.choice_takes (keyword_takes hnot rest).choice

/-- Negations are taken as deep as they go: there are no more of them than tokens. -/
theorem unaryWithin_takes (he : Complete expression inner) (h : Unary Unreserved inner used tree)
    (hrest : Followed stops rest) {depth : Nat} (hdepth : used.length ≤ depth) :
    (unaryWithin expression depth).Takes used tree rest := by
  induction h generalizing depth with
  | primary h =>
    cases depth with
    | zero => exact primary_takes he h hrest
    | succ depth =>
      -- negations are tried first, and a keyword would be taken for one
      exact (negation_refuses_primary h rest).thenSkip.skipThen.spanned.orElse_takes
        (primary_takes he h hrest)
  | @not word gap tokens tree hword hgap h ih =>
    simp only [List.length_cons, List.length_append] at hdepth
    obtain ⟨depth, rfl⟩ : ∃ d, depth = d + 1 := ⟨depth - 1, by omega⟩
    have hsharp := ((unary_opens h).begins rest).mono fun _ ht => sharp_of_opensExpression ht
    have hnegation := (negation_takes hword _).thenSkip (ws_takes hgap hsharp)
    have hinside : tokens.length ≤ depth := by omega
    exact ((hnegation.skipThen (ih hinside)).spanned (by simp)).orElse

/-- A derived unary expression is taken whole and read as its tree, before what stops a symbol. -/
theorem unary_takes (he : Complete expression inner) (h : Unary Unreserved inner used tree)
    (hrest : Followed stops rest) : (unary expression).Takes used tree rest := by
  intro start stop tiles
  -- the rule allows for one negation more than there are tokens
  have hdepth : used.length ≤ Input.left ⟨used ++ rest, stop⟩ + 1 := by
    simp only [Input.left, List.length_append]
    omega
  exact unaryWithin_takes he h hrest hdepth tiles

/-- A keyword is not white space. -/
theorem keyword_sharp {t : Token} {word : String} (h : t.isKeyword word = true) :
    t.isWhitespace = false := by
  cases t <;> first | rfl | cases h

/-- One more operand with the keyword before it. -/
abbrev round (connective : Connective) (operandRule : Rule Expr) : Rule Expr :=
  ((ws.skipThen (keyword connective.tag)).skipThen ws).skipThen operandRule

/-- A connective and an operand are taken as one round. -/
theorem round_takes {connective : Connective} {operandRule : Rule Expr}
    (word : Spaced fun t => t.isKeyword connective.tag = true)
    (hopens : Opens (opensExpression · = true) used) (h : operandRule.Takes used tree rest) :
    (round connective operandRule).Takes (word.lexemes ++ used) tree rest := by
  have hsharp : Begins (·.isWhitespace = false)
      ([word.lexeme] ++ (word.after ++ (used ++ rest))) := by
    rw [List.singleton_append, begins_cons]
    exact keyword_sharp word.holds
  have hused := (hopens.begins rest).mono fun _ ht => sharp_of_opensExpression ht
  have hkeyword := (ws_takes word.blank_before hsharp).skipThen (keyword_takes word.holds _)
  have takes := (hkeyword.skipThen (ws_takes word.blank_after hused)).skipThen h
  simpa [Spaced.lexemes] using takes

/-- A further operand needs its keyword. -/
theorem round_refuses {connective : Connective} {operandRule : Rule Expr}
    (h : Followed (·.isKeyword connective.tag = false) rest) :
    (round connective operandRule).Refuses rest := by
  obtain ⟨blank, hblank, hsplit⟩ := exists_blank_append_skipBlank rest
  have hws := ws_takes hblank (skipBlank_begins rest)
  have := hws.skipThen_refuses (keyword_refuses h)
  rw [← hsplit] at this
  exact this.skipThen.skipThen

/-- **Operands joined by a keyword are taken all together**, up to where no keyword follows. The
first operand is read on its own and each further one with its keyword; folding them to the left
gives back the tree, which was built from the left as well. -/
theorem joined_takes {connective : Connective} {operandRule : Rule Expr}
    {operand : List Lexeme → Expr → Prop} {follow : Token → Prop}
    (covers : ∀ l e, operand l e → Covers l e)
    (opens : ∀ l e, operand l e → Opens (opensExpression · = true) l)
    (takes : ∀ l e rest, operand l e → Followed follow rest → operandRule.Takes l e rest)
    (hfollow : ∀ t, t.isKeyword connective.tag = true → follow t)
    (h : Joined connective operand used tree) (hrest : Followed follow rest)
    (hend : Followed (·.isKeyword connective.tag = false) rest) :
    ((operandRule.andThen (round connective operandRule).many).map
      fun (first, rest) => rest.foldl (Expr.join connective) first).Takes used tree rest := by
  -- the induction takes operands off at the end, the rule reads them from the start
  have rounds : ∃ first more firstTree trees, used = first ++ more ∧
      tree = trees.foldl (Expr.join connective) firstTree ∧
      operandRule.Takes first firstTree (more ++ rest) ∧
      Row (fun used tree left => used ≠ [] ∧ (round connective operandRule).Takes used tree left)
        more trees rest := by
    clear hend
    induction h generalizing rest with
    | @single tokens tree h =>
      exact ⟨tokens, [], tree, [], by simp, rfl, takes _ _ _ h hrest, .nil⟩
    | @join word left right leftTree rightTree hleft hright ih =>
      have hword : Followed follow ((word.lexemes ++ right) ++ rest) := by
        rw [Spaced.lexemes, List.append_assoc, List.append_assoc, followed_append word.blank_before,
          List.cons_append, followed_cons (keyword_sharp word.holds)]
        exact hfollow _ word.holds
      obtain ⟨first, more, firstTree, trees, rfl, rfl, hfirst, row⟩ := ih hword
      have hround := round_takes word (opens _ _ hright) (takes _ _ _ hright hrest)
      refine ⟨first, more ++ (word.lexemes ++ right), firstTree, trees ++ [rightTree], by simp, ?_,
        by simpa using hfirst, ?_⟩
      · rw [List.foldl_append, List.foldl_cons, List.foldl_nil]
        exact (join_eq (hleft.covers covers) (covers _ _ hright)).symm
      · exact row.append (.single ⟨by simp [Spaced.lexemes], hround⟩)
  obtain ⟨first, more, firstTree, trees, rfl, rfl, hfirst, row⟩ := rounds
  exact (hfirst.andThen (Takes.many row (round_refuses hend))).map

/-- A keyword is not another one. -/
theorem isKeyword_apart {t : Token} {word other : String} (h : t.isKeyword word = true)
    (hother : Token.sameLetters word other = false) : t.isKeyword other = false := by
  cases t with
  | identifier name =>
    have h : name.toList.map Token.lowerLetter = word.toList.map Token.lowerLetter :=
      eq_of_beq h
    rw [← hother, Token.isKeyword, Token.sameLetters, Token.sameLetters, h]
  | _ => cases h

/-- What closes an expression is no keyword. -/
theorem closes_apart {t : Token} {word : String} (h : closes t) : t.isKeyword word = false := by
  rcases h with rfl | rfl | rfl <;> rfl

/-- **What is derivable as an expression is taken as one**, where the rule for what is inside its
parentheses does the same. -/
theorem disjunction_takes (he : Complete expression inner)
    (h : Joined .or (Joined .and (Unary Unreserved inner)) used tree)
    (hrest : Followed closes rest) : (disjunction expression).Takes used tree rest := by
  have conjunction : ∀ l e rest, Joined .and (Unary Unreserved inner) l e →
      Followed (fun t => t.isKeyword "or" = true ∨ closes t) rest →
      (conjunction expression).Takes l e rest := by
    intro l e rest h hrest
    -- operands of `and` may be followed by either keyword, all of them by `or` only
    refine joined_takes (fun _ _ h => h.covers) (fun _ _ h => unary_opens h)
      (fun _ _ _ h hrest => unary_takes he h hrest) (fun t ht => Or.inl ht) h
      (hrest.mono fun t ht => Or.inr ht) (hrest.mono fun t ht => ?_)
    rcases ht with ht | ht
    · exact isKeyword_apart ht (by decide)
    · exact closes_apart ht
  exact joined_takes (fun _ _ h => h.covers fun _ _ h => h.covers)
    (fun _ _ h => joined_opens (fun _ _ h => unary_opens h) h) conjunction (fun t ht => Or.inl ht) h
    (hrest.mono fun t ht => Or.inr ht) (hrest.mono fun t ht => closes_apart ht)

/-- What starts no expression is no primary, and at a parenthesis there is one only if it is a group. -/
theorem primary_refuses_of_grouped (hgrouped : (grouped expression).Refuses lexemes)
    (h : Begins (fun t => t = .openParen ∨ opensExpression t = false) lexemes) :
    (primary expression).Refuses lexemes := by
  -- every other construct has a first token of its own
  have apart : ∀ {t : Token}, opensExpression t = true → t ≠ .openParen → Begins (· ≠ t) lexemes := by
    rintro t hopens hparen
    refine h.mono ?_
    rintro _ (rfl | hnone) rfl
    · exact hparen rfl
    · rw [hopens] at hnone
      cases hnone
  have hname : Begins (fun t => ∀ name, t ≠ .identifier name) lexemes :=
    fun lexeme hl name => apart (t := .identifier name) rfl Token.noConfusion lexeme hl
  have hquote := apart (t := .quote) rfl Token.noConfusion
  have hevaluate := apart (t := .evaluateOpen) rfl Token.noConfusion
  have hitem := apart (t := .itemGroupOpen) rfl Token.noConfusion
  have hbracket := apart (t := .openBracket) rfl Token.noConfusion
  have hsides : Begins (fun t => t ≠ .quote ∧ t ≠ .evaluateOpen ∧ ∀ name, t ≠ .identifier name)
      lexemes := fun lexeme hl => ⟨hquote lexeme hl, hevaluate lexeme hl, hname lexeme hl⟩
  have hoperand : (operand expression).Refuses lexemes := operand_refuses hsides
  have hcomparison : (comparison expression).Refuses lexemes := comparison_refuses hsides
  have hcall : (functionCall expression).Refuses lexemes :=
    functionCall_refuses fun lexeme hl => ⟨hbracket lexeme hl, hname lexeme hl⟩
  have htransform : (itemTransform expression).Refuses lexemes := itemTransform_refuses hitem
  have hgroup : itemGroup.Refuses lexemes := itemGroup_refuses hitem
  have hmetadata : itemMetadata.Refuses lexemes :=
    itemMetadata_refuses (apart (t := .itemMetadataOpen) rfl Token.noConfusion)
  exact hgrouped.choice (hcomparison.choice (hcall.choice (htransform.choice (hgroup.choice
    (hmetadata.choice hoperand)))))

/-- At any depth, `unaryWithin` refuses where no expression opens but a group `grouped` refuses. -/
theorem unaryWithin_refuses_of_grouped (hgrouped : (grouped expression).Refuses lexemes)
    (h : Begins (fun t => t = .openParen ∨ opensExpression t = false) lexemes) (depth : Nat) :
    (unaryWithin expression depth).Refuses lexemes := by
  have hprimary : (primary expression).Refuses lexemes := primary_refuses_of_grouped hgrouped h
  cases depth with
  | zero => exact hprimary
  | succ depth =>
    have hnegation : (choice [just .bang, keyword "not"]).Refuses lexemes := by
      refine negation_refuses (h.mono fun t ht hnegates => ?_)
      rcases ht with rfl | hnone
      · rcases hnegates with hnegates | hnegates <;> cases hnegates
      · rw [opensExpression_of_negates hnegates] at hnone
        cases hnone
    exact hnegation.thenSkip.skipThen.spanned.orElse hprimary

/-- **What starts no expression is refused.** -/
theorem unaryWithin_refuses (h : Begins (opensExpression · = false) lexemes) (depth : Nat) :
    (unaryWithin expression depth).Refuses lexemes := by
  refine unaryWithin_refuses_of_grouped (grouped_refuses (h.mono ?_)) (h.mono fun _ ht => Or.inr ht) _
  rintro _ hnone rfl
  cases hnone

/-- Where no expression opens, `disjunction` refuses. -/
theorem disjunction_refuses (h : Begins (opensExpression · = false) lexemes) :
    (disjunction expression).Refuses lexemes := by
  have hunary : (unary expression).Refuses lexemes :=
    fun _ stop tiles => unaryWithin_refuses h (Input.left ⟨lexemes, stop⟩ + 1) tiles
  exact hunary.andThen.map.andThen.map

end Inner

/-! ## Expressions and whole texts -/

/-- Nor does `expressionWithin` read anything there, at any depth. -/
theorem expressionWithin_refuses {lexemes : List Lexeme}
    (h : Begins (opensExpression · = false) lexemes) (depth : Nat) :
    (expressionWithin depth).Refuses lexemes := by
  cases depth with
  | zero => exact fun _ _ _ => ⟨_, rfl⟩
  | succ depth => exact disjunction_refuses h

/-- An expression is taken by as many levels as it has tokens, or more. -/
def TakenWithin (used : List Lexeme) (tree : Expr) : Prop :=
  ∀ depth, used.length < depth → ∀ rest, Followed closes rest →
    (expressionWithin depth).Takes used tree rest

/-- A derived expression is taken whole within as many levels as it has tokens, by induction on
their number. -/
theorem expressionWithin_takes {used : List Lexeme} {tree : Expr}
    (h : Expression Unreserved used tree) : TakenWithin used tree := by
  -- the induction is over what is inside parentheses, which has fewer tokens and so fewer levels
  refine Expression.induction (fun tokens tree h => ?_) h
  intro depth hdepth rest hrest
  obtain ⟨depth, rfl⟩ : ∃ d, depth = d + 1 := ⟨depth - 1, by omega⟩
  have complete : Complete (expressionWithin depth) fun l e =>
      l.length < tokens.length ∧ Expression Unreserved l e ∧ TakenWithin l e :=
    { takes := fun h hrest => h.2.2 depth (by omega) _ hrest
      opens := fun h => expression_opens h.2.1
      refuses := fun h => expressionWithin_refuses h depth }
  exact disjunction_takes complete h hrest

/-- **Every expression is taken** as the tree it is derived with. -/
theorem expression_takes {used rest : List Lexeme} {tree : Expr}
    (h : Expression Unreserved used tree) (hrest : Followed closes rest) :
    expression.Takes used tree rest := by
  intro start stop tiles
  have hdepth : used.length < Input.left ⟨used ++ rest, stop⟩ + 1 := by
    simp only [Input.left, List.length_append]
    omega
  exact expressionWithin_takes h _ hdepth rest hrest tiles

/-- `expression` reads everything derivable over names that are not reserved. -/
theorem expression_complete : Complete expression (Expression Unreserved) where
  takes := expression_takes
  opens := expression_opens
  refuses {lexemes} h _ stop tiles :=
    expressionWithin_refuses h (Input.left ⟨lexemes, stop⟩ + 1) tiles

/-- Something up to the end of the text, with white space before the end. -/
theorem toEnd_takes {rule : Rule Expr} {body after : List Lexeme} {tree : Expr}
    (h : rule.Takes body tree after) (hafter : Blank after) :
    ((rule.thenSkip ws).thenSkip endOfInput).Takes (body ++ after) tree [] := by
  have hbody : rule.Takes body tree (after ++ []) := by
    rwa [List.append_nil]
  have hend : endOfInput.Takes [] () [] := fun _ _ _ => reads_endOfInput.mpr ⟨rfl, rfl⟩
  have takes := (hbody.thenSkip (ws_takes hafter begins_nil)).thenSkip hend
  rwa [List.append_nil] at takes

/-- Something that is not followed by the end of the text. -/
theorem toEnd_refuses {rule : Rule Expr} {body blank more : List Lexeme} {lexeme : Lexeme}
    {tree : Expr} (h : rule.Takes body tree (blank ++ lexeme :: more)) (hblank : Blank blank)
    (hsharp : lexeme.token.isWhitespace = false) :
    ((rule.thenSkip ws).thenSkip endOfInput).Refuses (body ++ (blank ++ lexeme :: more)) := by
  have hend : endOfInput.Refuses (lexeme :: more) :=
    fun _ _ _ => fails_endOfInput.mpr (List.cons_ne_nil _ _)
  have hbody := h.thenSkip (ws_takes hblank (begins_cons.mpr hsharp))
  rw [← List.append_assoc]
  exact hbody.thenSkip_refuses hend

/-- The first operand, and either nothing else or a keyword after it. -/
theorem joined_leading {connective : Connective} {operand : List Lexeme → Expr → Prop}
    {used : List Lexeme} {tree : Expr} (h : Joined connective operand used tree) :
    ∃ first firstTree tail, used = first ++ tail ∧ operand first firstTree ∧
      (tail = [] ∧ tree = firstTree ∨
        ∃ (word : Spaced fun t => t.isKeyword connective.tag = true) (more : List Lexeme),
          tail = word.lexemes ++ more) := by
  induction h with
  | @single tokens tree h => exact ⟨tokens, tree, [], by simp, h, Or.inl ⟨rfl, rfl⟩⟩
  | @join word left right leftTree rightTree _ _ ih =>
    obtain ⟨first, firstTree, tail, rfl, hfirst, ⟨rfl, -⟩ | ⟨word', more, rfl⟩⟩ := ih
    · exact ⟨first, firstTree, word.lexemes ++ right, by simp, hfirst, Or.inr ⟨word, right, rfl⟩⟩
    · refine ⟨first, firstTree, word'.lexemes ++ (more ++ (word.lexemes ++ right)), by simp, hfirst,
        Or.inr ⟨word', _, rfl⟩⟩

/-- The first operand of an expression, and either nothing else or something that is not white space
after it. -/
theorem expression_leading {named : String → Prop} {used : List Lexeme} {tree : Expr}
    (h : Expression named used tree) :
    ∃ first firstTree tail, used = first ++ tail ∧
      Unary named (Expression named) first firstTree ∧
      (tail = [] ∧ tree = firstTree ∨ ∃ blank lexeme more, tail = blank ++ lexeme :: more ∧
        Blank blank ∧ lexeme.token.isWhitespace = false) := by
  -- a connective starts with its blanks and then with a word
  have spaced : ∀ {connective : Connective}
      (word : Spaced fun t => t.isKeyword connective.tag = true) (more : List Lexeme),
      ∃ blank lexeme rest, word.lexemes ++ more = blank ++ lexeme :: rest ∧ Blank blank ∧
        lexeme.token.isWhitespace = false := by
    intro connective word more
    exact ⟨word.before, word.lexeme, word.after ++ more, by simp [Spaced.lexemes],
      word.blank_before, keyword_sharp word.holds⟩
  obtain ⟨h⟩ := h
  obtain ⟨conjunction, _, later, rfl, h, hlater⟩ := joined_leading h
  obtain ⟨first, firstTree, tail, rfl, hfirst, htail⟩ := joined_leading h
  rcases htail with ⟨rfl, rfl⟩ | ⟨word, more, rfl⟩
  · -- what comes next, if anything does, is after the first operand of `or`
    refine ⟨first, _, later, by simp, hfirst, ?_⟩
    rcases hlater with hlater | ⟨word, more, rfl⟩
    · exact Or.inl hlater
    · exact Or.inr (spaced word more)
  · exact ⟨first, firstTree, word.lexemes ++ (more ++ later), by simp, hfirst,
      Or.inr (spaced word _)⟩

/-- Only a parenthesised operand starts with a parenthesis. -/
theorem unary_grouped {named : String → Prop} {inner : List Lexeme → Expr → Prop}
    {used : List Lexeme} {tree : Expr} (h : Unary named inner used tree) :
    Grouped inner used tree ∨ Opens (· ≠ .openParen) used := by
  cases h with
  | primary h => exact (primary_grouped h).imp_right fun hopens => hopens.mono fun _ ht => ht.2
  | @not word gap tokens tree hword _ _ =>
    refine Or.inr ⟨word, _, rfl, ?_⟩
    intro hparen
    rcases hword with hbang | hnot
    · rw [hparen] at hbang
      cases hbang
    · rw [hparen] at hnot
      cases hnot

/-- A text that starts with a parenthesis is first tried as a parenthesised expression up to its
end. That gives the same tree, or fails since the parentheses end before the text does. -/
theorem groupedToEnd {body after : List Lexeme} {tree : Expr}
    (h : Expression Unreserved body tree) (hafter : Blank after) :
    (((grouped expression).thenSkip ws).thenSkip endOfInput).Takes (body ++ after) tree [] ∨
      (((grouped expression).thenSkip ws).thenSkip endOfInput).Refuses (body ++ after) := by
  obtain ⟨first, firstTree, tail, rfl, hfirst, htail⟩ := expression_leading h
  rcases unary_grouped hfirst with hgrouped | hopens
  · rcases htail with ⟨rfl, rfl⟩ | ⟨blank, lexeme, more, rfl, hblank, hsharp⟩
    · -- the parentheses are around the whole text
      rw [List.append_nil]
      exact Or.inl (toEnd_takes (grouped_takes expression_complete hgrouped after) hafter)
    · -- a keyword stands after them
      have takes := grouped_takes expression_complete hgrouped (blank ++ lexeme :: (more ++ after))
      have := toEnd_refuses takes hblank hsharp
      exact Or.inr (by simpa using this)
  · refine Or.inr (grouped_refuses ?_).thenSkip.thenSkip
    rw [List.append_assoc]
    exact hopens.begins (tail ++ after)

/-- **Every whole text is read** as the tree it is derived with. -/
theorem root_reads {lexemes : List Lexeme} {tree : Expr} {start stop : Nat}
    (tiles : Tiles start lexemes stop) (h : Root Unreserved lexemes tree) :
    root.Reads ⟨lexemes, stop⟩ tree ⟨[], stop⟩ := by
  obtain ⟨before, body, after, rfl, hbefore, hafter, hbody⟩ := h.body
  have hexpression := toEnd_takes (expression_takes hbody (followed_blank hafter)) hafter
  have alternatives : (choice [((grouped expression).thenSkip ws).thenSkip endOfInput,
      (expression.thenSkip ws).thenSkip endOfInput,
      ((quotedString expression).thenSkip ws).thenSkip endOfInput]).Takes (body ++ after) tree [] := by
    rcases groupedToEnd hbody hafter with hgrouped | hgrouped
    · exact hgrouped.choice
    · refine Refuses.choice_takes ?_ hexpression.choice
      rwa [List.append_nil]
  have hsharp : Begins (·.isWhitespace = false) ((body ++ after) ++ []) := by
    rw [List.append_assoc]
    exact ((expression_opens hbody).begins _).mono fun _ ht => sharp_of_opensExpression ht
  have takes := (ws_takes hbefore hsharp).skipThen alternatives
  rw [← List.append_nil (before ++ (body ++ after))] at tiles ⊢
  exact takes tiles

/-- **Completeness.** Tokens that stand end to end and are derivable as a whole text, no keyword being
used as a name, are read to their end as the tree of the derivation, whichever alternatives come
first. So a text with these tokens parses as that tree, and it has no other tree. -/
theorem root_complete {lexemes : List Lexeme} {tree : Expr} {start stop : Nat}
    (tiles : Tiles start lexemes stop) (h : Root Unreserved lexemes tree) :
    root.Reads ⟨lexemes, stop⟩ tree ⟨[], stop⟩ ∧
      (∀ text, lex text = lexemes → root.parse text = .ok tree) ∧
      ∀ other, Root Unreserved lexemes other → other = tree := by
  have reads := root_reads tiles h
  refine ⟨reads, ?_, ?_⟩
  · rintro text rfl
    exact parse_eq_ok.mpr ⟨_, root_reads (lex_tiles text) h, rfl⟩
  · intro other hother
    exact ((root_reads tiles hother).unique reads).1

/-- Parentheses, a keyword and a negation, with the span of the parentheses on the symbol. -/
theorem root_complete_negated :
    root.parse "(A)Or!B" = .ok (.node (.logical .or) ⟨0, 7⟩
      [Expr.symbol "A" ⟨0, 3⟩, .node (.logical .not) ⟨5, 7⟩ [Expr.symbol "B" ⟨6, 7⟩]]) := by
  have hlex : lex "(A)Or!B" = [⟨.openParen, ⟨0, 1⟩⟩, ⟨.identifier "A", ⟨1, 2⟩⟩,
      ⟨.closeParen, ⟨2, 3⟩⟩, ⟨.identifier "Or", ⟨3, 5⟩⟩, ⟨.bang, ⟨5, 6⟩⟩,
      ⟨.identifier "B", ⟨6, 7⟩⟩] := by
    decide +kernel
  have hA : Unreserved "A" := by
    unfold Unreserved
    decide +kernel
  have hB : Unreserved "B" := by
    unfold Unreserved
    decide +kernel
  let b : Bracket .openParen := ⟨⟨.openParen, ⟨0, 1⟩⟩, [], [], ⟨.closeParen, ⟨2, 3⟩⟩, rfl, blank_nil,
    blank_nil, rfl⟩
  let word : Spaced fun t => t.isKeyword (Connective.tag .or) = true :=
    ⟨[], ⟨.identifier "Or", ⟨3, 5⟩⟩, [], blank_nil, by decide +kernel, blank_nil⟩
  -- the derivation is put together from its two operands
  have left : Expression Unreserved [⟨.identifier "A", ⟨1, 2⟩⟩] (Expr.symbol "A" ⟨1, 2⟩) :=
    (Primary.symbol rfl hA).toExpression
  have right : Unary Unreserved (Expression Unreserved)
      [⟨.bang, ⟨5, 6⟩⟩, ⟨.identifier "B", ⟨6, 7⟩⟩] _ :=
    .not (Or.inl rfl) blank_nil (.primary (.symbol rfl hB))
  have whole : Joined .or (Joined .and (Unary Unreserved (Expression Unreserved))) _ _ :=
    .join word (.single (.single (.primary (.grouped (.intro b left))))) (.single right)
  refine (root_complete (lex_tiles "(A)Or!B") ?_).2.1 "(A)Or!B" rfl
  rw [hlex]
  exact Root.expression blank_nil (.intro whole) blank_nil

end Grammar

end ProjectLens
