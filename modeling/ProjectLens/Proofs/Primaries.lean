import ProjectLens.Proofs.Taking

/-! # Primaries are taken

Every primary is taken by the rule for primaries, provided the rule for what is inside parentheses
takes everything derivable (`Complete`). Alternatives are tried in order, so for each construct the
alternatives before its own have to fail on its tokens: most of them at the first one, the others at
what follows a first part they have in common.

* `closes`, `stops`: what may stand after an expression, and after an operand of one;
* `argumentList_takes` to `grouped_takes`: the constructs;
* `primary_takes`. -/

namespace ProjectLens

namespace Grammar

open Rule ProjectLens.Derivation

/-- What may stand after a whole expression. -/
def closes (t : Token) : Prop := t = .closeParen ∨ t = .comma ∨ t = .semicolon

/-- What may stand after an operand: a keyword, or the end of the expression. -/
def stops (t : Token) : Prop := t.isKeyword "and" = true ∨ t.isKeyword "or" = true ∨ closes t

/-- The tokens an expression may start with. -/
def opensExpression : Token → Bool
  | .openParen | .openBracket | .quote | .evaluateOpen | .itemGroupOpen | .itemMetadataOpen
  | .bang | .identifier _ => true
  | _ => false

/-- A rule for what stands inside parentheses that reads everything derivable. -/
structure Complete (expression : Rule Expr) (inner : List Lexeme → Expr → Prop) : Prop where
  takes : ∀ {tokens rest : List Lexeme} {tree : Expr}, inner tokens tree → Followed closes rest →
    expression.Takes tokens tree rest
  opens : ∀ {tokens : List Lexeme} {tree : Expr}, inner tokens tree →
    Opens (opensExpression · = true) tokens
  refuses : ∀ {lexemes : List Lexeme}, Begins (opensExpression · = false) lexemes →
    expression.Refuses lexemes

section Inner

variable {expression : Rule Expr} {named : String → Prop} {inner : List Lexeme → Expr → Prop}
  {used rest lexemes : List Lexeme} {tree : Expr} {trees : List Expr}

/-- Blanks and then `)` are an end of an inner expression. -/
theorem closing_followed {blank : List Lexeme} {closing : Lexeme} (hblank : Blank blank)
    (hclosing : closing.token = .closeParen) (rest : List Lexeme) :
    Followed closes (blank ++ closing :: rest) := by
  rw [followed_append hblank, followed_cons (by rw [hclosing]; rfl)]
  exact Or.inl hclosing

/-- A derived argument is taken whole and read as its tree, before any end of one. -/
theorem argument_takes (he : Complete expression inner) (h : Argument inner used tree)
    (hrest : Followed closes rest) : (number.orElse expression).Takes used tree rest := by
  cases h with
  | number hsign hdigits hfraction =>
    -- no fraction is read beyond the one that is derived
    have hperiod : Followed (· ≠ .period) rest := by
      refine hrest.mono fun t ht => ?_
      rcases ht with rfl | rfl | rfl <;> exact Token.noConfusion
    refine (number_takes hsign hdigits hfraction (hperiod.begins fun t ht => ?_)).orElse
    rintro rfl
    cases ht
  | expression h =>
    -- numbers are tried first, but no expression starts with a digit or a minus sign
    have hnumber : number.Refuses (used ++ rest) := by
      refine number_refuses (((he.opens h).begins rest).mono fun t ht => ⟨?_, ?_⟩)
      · rintro rfl
        cases ht
      · rintro text rfl
        cases ht
    exact hnumber.orElse_takes (he.takes h hrest)

/-- An argument opens with no blank. -/
theorem argument_opens (he : Complete expression inner) (h : Argument inner used tree) :
    Opens (·.isWhitespace = false) used := by
  cases h with
  | number hsign hdigits _ =>
    cases hsign with
    | none => exact ⟨_, _, rfl, by rw [hdigits]; rfl⟩
    | some h =>
      obtain ⟨hminus⟩ := h
      exact ⟨_, _, rfl, by rw [hminus]; rfl⟩
  | expression h =>
    refine (he.opens h).mono fun t ht => ?_
    cases t <;> first | rfl | cases ht

/-- One argument with the white space after it. -/
abbrev item (expression : Rule Expr) : Rule Expr := (number.orElse expression).thenSkip ws

/-- A comma with the white space after it. -/
abbrev commaGap : Rule Unit := (just .comma).thenSkip ws

/-- Arguments are taken up to the closing parenthesis, white space included. -/
theorem arguments_takes (he : Complete expression inner) (h : Arguments inner used trees)
    {blank : List Lexeme} {closing : Lexeme} (hblank : Blank blank)
    (hclosing : closing.token = .closeParen) (rest : List Lexeme) :
    (sepByOne (item expression) commaGap).Takes (used ++ blank) trees (closing :: rest) := by
  have hsharp : Begins (·.isWhitespace = false) (closing :: rest) := by
    rw [begins_cons, hclosing]
    rfl
  -- the first argument, and each further one with the comma before it
  have rounds : ∃ first more tree later, used ++ blank = first ++ more ∧ trees = tree :: later ∧
      Opens (·.isWhitespace = false) first ∧
      (item expression).Takes first tree (more ++ closing :: rest) ∧
      Row (fun used tree left => used ≠ [] ∧
        (commaGap.skipThen (item expression)).Takes used tree left) more later
        (closing :: rest) := by
    induction h with
    | @last tokens tree h =>
      have harg := argument_takes he h (closing_followed hblank hclosing rest)
      have hitem := harg.thenSkip (ws_takes hblank hsharp)
      refine ⟨tokens ++ blank, [], tree, [], by simp, rfl, (argument_opens he h).append _, ?_, .nil⟩
      exact hitem
    | @more comma tokens tail tree trees h _ ih =>
      obtain ⟨first, more, tree', later, htail, rfl, hopens, hitem, row⟩ := ih
      have hcomma : comma.lexeme.token = .comma := comma.holds
      have hafter := ws_takes comma.blank_after (hopens.begins (more ++ closing :: rest))
      have hgap := (just_takes hcomma _).thenSkip hafter
      have hround := hgap.skipThen hitem
      have hsharp : Begins (·.isWhitespace = false) (comma.lexeme :: (comma.after ++
          (first ++ (more ++ closing :: rest)))) := by
        rw [begins_cons, hcomma]
        rfl
      have hfollow : Followed closes (comma.before ++ comma.lexeme :: (comma.after ++
          (first ++ (more ++ closing :: rest)))) := by
        rw [followed_append comma.blank_before, followed_cons (by rw [hcomma]; rfl)]
        exact Or.inr (Or.inl hcomma)
      have hfirst := (argument_takes he h hfollow).thenSkip (ws_takes comma.blank_before hsharp)
      refine ⟨tokens ++ comma.before, (([comma.lexeme] ++ comma.after) ++ first) ++ more, tree,
        tree' :: later, ?_, rfl, (argument_opens he h).append _, ?_, .cons ⟨by simp, hround⟩ row⟩
      · simp only [Spaced.lexemes, List.append_assoc, htail, List.cons_append, List.nil_append]
      · simpa using hfirst
  obtain ⟨first, more, tree, later, hsplit, rfl, -, hitem, row⟩ := rounds
  rw [hsplit]
  refine hitem.sepByOne row (just_refuses ?_).thenSkip
  rw [begins_cons, hclosing]
  exact Token.noConfusion

/-- A derived argument list is taken whole and read as its trees, whatever comes after it. -/
theorem argumentList_takes (he : Complete expression inner) (h : ArgumentList inner used trees)
    (rest : List Lexeme) : (argumentList expression).Takes used trees rest := by
  cases h with
  | empty b =>
    -- all of the white space is read before the first argument is tried
    have hblank : Blank (b.before ++ b.after) := blank_append.mpr ⟨b.blank_before, b.blank_after⟩
    have hopening := just_takes b.opening_token ((b.before ++ b.after) ++ b.closing :: rest)
    have hbefore := ws_takes hblank (closing_begins b rest)
    have hnumber : number.Refuses (b.closing :: rest) := number_refuses (by simp [b.closing_token])
    have hexpression : expression.Refuses (b.closing :: rest) :=
      he.refuses (begins_cons.mpr (by rw [b.closing_token]; rfl))
    have hnone : (sepBy (item expression) commaGap).Takes [] [] (b.closing :: rest) := by
      intro start stop tiles
      exact reads_sepBy.mpr (Or.inr ⟨rfl, (hnumber.orElse hexpression).thenSkip tiles, rfl⟩)
    have hclosing := just_takes b.closing_token rest
    have takes := ((hopening.skipThen hbefore).skipThen hnone).thenSkip hclosing
    simpa [Bracket.around, argumentList] using takes.labelled
  | @filled b body trees h =>
    -- the white space before the parenthesis is read with the last argument
    have hopens : Opens (·.isWhitespace = false) body := by
      cases h with
      | last h => exact argument_opens he h
      | more _ h _ => exact (argument_opens he h).append _
    have hopening := just_takes b.opening_token
      (b.before ++ ((body ++ b.after) ++ b.closing :: rest))
    have hbefore := ws_takes b.blank_before
      ((hopens.append b.after).begins (b.closing :: rest))
    have hsome : (sepBy (item expression) commaGap).Takes (body ++ b.after) trees
        (b.closing :: rest) := by
      intro start stop tiles
      exact reads_sepBy.mpr
        (Or.inl (arguments_takes he h b.blank_after b.closing_token rest tiles))
    have hclosing := just_takes b.closing_token rest
    have takes := ((hopening.skipThen hbefore).skipThen hsome).thenSkip hclosing
    simpa [Bracket.around, argumentList] using takes.labelled

/-- Where no `(` is next, `argumentList` refuses. -/
theorem argumentList_refuses (h : Begins (· ≠ .openParen) lexemes) :
    (argumentList expression).Refuses lexemes :=
  (just_refuses h).skipThen.skipThen.thenSkip.labelled

/-- An argument list opens with `(`. -/
theorem argumentList_opens (h : ArgumentList inner used trees) : Opens (· = .openParen) used := by
  cases h with
  | empty b => exact ⟨_, _, rfl, b.opening_token⟩
  | filled b _ => exact ⟨_, _, rfl, b.opening_token⟩

/-- Where no `[` is next, `staticCall` refuses. -/
theorem staticCall_refuses (h : Begins (· ≠ .openBracket) lexemes) :
    (staticCall expression).Refuses lexemes :=
  (typeRef_refuses h).thenSkip.andThen.andThen.spanned

/-- A call on an instance needs a period right after its receiver. -/
theorem instanceCall_refuses {lexeme : Lexeme} {name : String}
    (hname : lexeme.token = .identifier name) (hrest : Begins (· ≠ .period) rest) :
    (instanceCall expression).Refuses ([lexeme] ++ rest) := by
  have htarget := (identifier_symbol_takes hname rest).thenSkip_refuses (just_refuses hrest)
  exact htarget.andThen.andThen.spanned

/-- A derived call is taken whole and read as its tree, whatever comes after it. -/
theorem functionCall_takes (he : Complete expression inner)
    (h : FunctionCall named inner used tree) (rest : List Lexeme) :
    (functionCall expression).Takes used tree rest := by
  cases h with
  | @plain name text arguments trees hname _ h =>
    -- a parenthesis stands right after the name, where a receiver would need a period
    have hopens := (argumentList_opens h).begins rest
    have hstatic : (staticCall expression).Refuses ([name] ++ arguments ++ rest) :=
      staticCall_refuses (begins_cons.mpr (by simp [hname]))
    have hinstance : (instanceCall expression).Refuses ([name] ++ arguments ++ rest) :=
      instanceCall_refuses hname (hopens.mono fun t ht => by simp [ht])
    have hcall := (identifier_takes hname _).andThen (argumentList_takes he h rest)
    have takes : (globalCall expression).Takes ([name] ++ arguments)
        (.node (.call text .plain) (cover ([name] ++ arguments)) trees) rest :=
      hcall.spanned (by simp)
    exact (hstatic.choice_takes (hinstance.choice_takes takes.choice)).labelled
  | @onInstance target arguments period name text targetTree trees htarget hperiod hname _ h =>
    have hstatic : (staticCall expression).Refuses
        ((target ++ period :: name :: arguments) ++ rest) := by
      refine staticCall_refuses ((((symbol_opens htarget).append _).begins rest).mono ?_)
      rintro t ⟨name, rfl, -⟩
      exact Token.noConfusion
    have hreceiver := (symbol_takes htarget _).thenSkip
      (just_takes hperiod ([name] ++ (arguments ++ rest)))
    have hcall := (hreceiver.andThen (identifier_takes hname _)).andThen
      (argumentList_takes he h rest)
    simp only [List.append_assoc, List.singleton_append] at hcall
    have takes : (instanceCall expression).Takes (target ++ period :: name :: arguments)
        (.node (.call text .onInstance) (cover (target ++ period :: name :: arguments))
          (targetTree :: trees)) rest :=
      hcall.spanned (by simp)
    exact (hstatic.choice_takes takes.choice).labelled
  | @onType target arguments colons name text targetTree trees htarget hcolons hname _ h =>
    have hreceiver := (typeRef_takes htarget _).thenSkip
      (just_takes hcolons ([name] ++ (arguments ++ rest)))
    have hcall := (hreceiver.andThen (identifier_takes hname _)).andThen
      (argumentList_takes he h rest)
    simp only [List.append_assoc, List.singleton_append] at hcall
    have takes : (staticCall expression).Takes (target ++ colons :: name :: arguments)
        (.node (.call text .onType) (cover (target ++ colons :: name :: arguments))
          (targetTree :: trees)) rest :=
      hcall.spanned (by simp)
    exact takes.choice.labelled

/-- A call starts with a name or with a type reference. -/
theorem functionCall_refuses
    (h : Begins (fun t => t ≠ .openBracket ∧ ∀ name, t ≠ .identifier name) lexemes) :
    (functionCall expression).Refuses lexemes := by
  have hname := h.mono fun _ ht => ht.2
  have hstatic : (staticCall expression).Refuses lexemes :=
    staticCall_refuses (h.mono fun _ ht => ht.1)
  have hinstance : (instanceCall expression).Refuses lexemes :=
    (symbol_refuses hname).thenSkip.andThen.andThen.spanned
  have hglobal : (globalCall expression).Refuses lexemes :=
    (identifier_refuses hname).andThen.spanned
  exact (hstatic.choice (hinstance.choice (hglobal.choice choice_nil_refuses))).labelled

/-- An identifier on its own is not a call. -/
theorem functionCall_refuses_symbol {lexeme : Lexeme} {name : String}
    (hname : lexeme.token = .identifier name)
    (hrest : Begins (fun t => t ≠ .period ∧ t ≠ .openParen) rest) :
    (functionCall expression).Refuses ([lexeme] ++ rest) := by
  have hstatic : (staticCall expression).Refuses ([lexeme] ++ rest) :=
    staticCall_refuses (begins_cons.mpr (by simp [hname]))
  have hinstance : (instanceCall expression).Refuses ([lexeme] ++ rest) :=
    instanceCall_refuses hname (hrest.mono fun _ ht => ht.1)
  have hglobal : (globalCall expression).Refuses ([lexeme] ++ rest) :=
    ((identifier_takes hname rest).andThen_refuses
      (argumentList_refuses (hrest.mono fun _ ht => ht.2))).spanned
  exact (hstatic.choice (hinstance.choice (hglobal.choice choice_nil_refuses))).labelled

/-- What may stand after an operand neither calls nor compares it. -/
theorem stops_apart {t : Token} (h : stops t) :
    t ≠ .period ∧ t ≠ .openParen ∧ t ≠ .equals ∧ t ≠ .notEquals := by
  refine ⟨?_, ?_, ?_, ?_⟩ <;> rintro rfl <;> simp [stops, closes, Token.isKeyword] at h

/-- What stops a symbol begins with neither `.` nor `(`. -/
theorem stops_begins (h : Followed stops rest) :
    Begins (fun t => t ≠ .period ∧ t ≠ .openParen) rest := by
  have hapart := h.mono fun t ht => And.intro (stops_apart ht).1 (stops_apart ht).2.1
  refine hapart.begins fun t ht => ⟨?_, ?_⟩ <;> rintro rfl <;> cases ht

/-- A call opens with `[` or with a name. -/
theorem functionCall_opens (h : FunctionCall named inner used tree) :
    Opens (fun t => t = .openBracket ∨ ∃ name, t = .identifier name ∧ named name) used := by
  cases h with
  | plain hname hn _ => exact ⟨_, _, rfl, Or.inr ⟨_, hname, hn⟩⟩
  | onInstance htarget _ _ _ _ =>
    exact ((symbol_opens htarget).append _).mono fun _ ht => Or.inr ht
  | onType htarget _ _ _ _ =>
    obtain ⟨hopening, -, -⟩ := htarget
    exact ⟨_, _, rfl, Or.inl hopening⟩

/-- A derived evaluation is taken whole and read as its tree, whatever comes after it. -/
theorem evaluate_takes (he : Complete expression inner) (h : Evaluate named inner used tree)
    (rest : List Lexeme) : (evaluate expression).Takes used tree rest := by
  cases h with
  | call b h =>
    have hopens := (functionCall_opens h).mono (q := (·.isWhitespace = false)) <| by
      rintro t (rfl | ⟨name, rfl, -⟩) <;> rfl
    have hcall := functionCall_takes he h (b.after ++ b.closing :: rest)
    exact ((bracket_takes b hopens hcall.choice).spanned (b.around_ne_nil _)).labelled
  | symbol b h =>
    -- calls are tried first, and need a period or a parenthesis right after the name
    have hfollow := closing_followed b.blank_after b.closing_token rest
    have halone := stops_begins (hfollow.mono fun _ ht => Or.inr (Or.inr ht))
    have hopens := symbol_opens_sharp h
    have hname := symbol_takes h (b.after ++ b.closing :: rest)
    obtain ⟨hidentifier, -⟩ := h
    have hvalue : (choice [functionCall expression, symbol]).Takes _ _
        (b.after ++ b.closing :: rest) :=
      (functionCall_refuses_symbol hidentifier halone).choice_takes hname.choice
    exact ((bracket_takes b hopens hvalue).spanned (b.around_ne_nil _)).labelled

/-- Where no `$(` is next, `evaluate` refuses. -/
theorem evaluate_refuses (h : Begins (· ≠ .evaluateOpen) lexemes) :
    (evaluate expression).Refuses lexemes :=
  (bracket_refuses h).spanned.labelled

/-- An evaluation opens with `$(`. -/
theorem evaluate_opens (h : Evaluate named inner used tree) : Opens (· = .evaluateOpen) used := by
  cases h with
  | call b _ => exact ⟨_, _, rfl, b.opening_token⟩
  | symbol b _ => exact ⟨_, _, rfl, b.opening_token⟩

/-- Item metadata opens with `%(`. -/
theorem itemMetadata_opens (h : ItemMetadata named used tree) :
    Opens (· = .itemMetadataOpen) used := by
  cases h with
  | empty b => exact ⟨_, _, rfl, b.opening_token⟩
  | plain b _ => exact ⟨_, _, rfl, b.opening_token⟩
  | qualified b _ _ _ _ => exact ⟨_, _, rfl, b.opening_token⟩
  | unnamed b _ _ _ _ => exact ⟨_, _, rfl, b.opening_token⟩

/-- An item list opens with `@(`. -/
theorem itemGroup_opens (h : ItemGroup named used tree) : Opens (· = .itemGroupOpen) used := by
  obtain ⟨b, -⟩ := h
  exact ⟨_, _, rfl, b.opening_token⟩

/-- One part of a string. -/
abbrev part (expression : Rule Expr) : Rule Expr :=
  choice [evaluate expression, itemMetadata, itemGroup, plain]

/-- No part starts with the quote that ends a string. -/
theorem part_refuses {closing : Lexeme} (hclosing : closing.token = .quote) (rest : List Lexeme) :
    (part expression).Refuses (closing :: rest) := by
  have hevaluate : (evaluate expression).Refuses (closing :: rest) :=
    evaluate_refuses (by simp [hclosing])
  have hmetadata : itemMetadata.Refuses (closing :: rest) :=
    itemMetadata_refuses (by simp [hclosing])
  have hgroup : itemGroup.Refuses (closing :: rest) := itemGroup_refuses (by simp [hclosing])
  have hplain : plain.Refuses (closing :: rest) :=
    plain_refuses (begins_cons.mpr (by rw [hclosing]; rfl))
  exact hevaluate.choice (hmetadata.choice (hgroup.choice (hplain.choice choice_nil_refuses)))

/-- The parts of a string are taken one by one up to its end. -/
theorem parts_row (he : Complete expression inner) (h : Parts named inner used trees)
    {closing : Lexeme} (hclosing : closing.token = .quote) (rest : List Lexeme) :
    Row (fun used tree left => used ≠ [] ∧ (part expression).Takes used tree left)
      used trees (closing :: rest) := by
  induction h with
  | nil => exact .nil
  | @evaluate tokens more tree trees h _ ih =>
    have takes := evaluate_takes he h (more ++ closing :: rest)
    exact .cons ⟨(evaluate_opens h).ne_nil, takes.choice⟩ ih
  | @metadata tokens more tree trees h _ ih =>
    have hopens := (itemMetadata_opens h).begins (more ++ closing :: rest)
    have hevaluate : (evaluate expression).Refuses (tokens ++ (more ++ closing :: rest)) :=
      evaluate_refuses (hopens.mono fun _ ht => by simp [ht])
    have takes := itemMetadata_takes h (more ++ closing :: rest)
    exact .cons ⟨(itemMetadata_opens h).ne_nil, hevaluate.choice_takes takes.choice⟩ ih
  | @group tokens more tree trees h _ ih =>
    have hopens := (itemGroup_opens h).begins (more ++ closing :: rest)
    have hevaluate : (evaluate expression).Refuses (tokens ++ (more ++ closing :: rest)) :=
      evaluate_refuses (hopens.mono fun _ ht => by simp [ht])
    have hmetadata : itemMetadata.Refuses (tokens ++ (more ++ closing :: rest)) :=
      itemMetadata_refuses (hopens.mono fun _ ht => by simp [ht])
    have takes := itemGroup_takes h (more ++ closing :: rest)
    exact .cons ⟨(itemGroup_opens h).ne_nil,
      hevaluate.choice_takes (hmetadata.choice_takes takes.choice)⟩ ih
  | @plain run more trees hrun hplains hnext _ ih =>
    -- a run goes on as long as it can, so it ends here only because what follows is not plain
    have hend : Begins (isPlain · = false) (more ++ closing :: rest) := by
      cases more with
      | nil => exact begins_cons.mpr (by rw [hclosing]; rfl)
      | cons lexeme more => exact begins_cons.mpr (hnext lexeme rfl)
    have hopens : Begins (isPlain · = true) (run ++ (more ++ closing :: rest)) := by
      obtain ⟨first, run, rfl⟩ := List.exists_cons_of_ne_nil hrun
      exact begins_cons.mpr (hplains first List.mem_cons_self)
    have hevaluate : (evaluate expression).Refuses (run ++ (more ++ closing :: rest)) :=
      evaluate_refuses (hopens.mono fun t ht => by rintro rfl; cases ht)
    have hmetadata : itemMetadata.Refuses (run ++ (more ++ closing :: rest)) :=
      itemMetadata_refuses (hopens.mono fun t ht => by rintro rfl; cases ht)
    have hgroup : itemGroup.Refuses (run ++ (more ++ closing :: rest)) :=
      itemGroup_refuses (hopens.mono fun t ht => by rintro rfl; cases ht)
    have takes := plain_takes hrun hplains hend
    exact .cons ⟨hrun, hevaluate.choice_takes (hmetadata.choice_takes
      (hgroup.choice_takes takes.choice))⟩ ih

/-- A derived quoted string is taken whole and read as its tree, whatever comes after it. -/
theorem quotedString_takes (he : Complete expression inner)
    (h : QuotedString named inner used tree) (rest : List Lexeme) :
    (quotedString expression).Takes used tree rest := by
  obtain ⟨hopening, h, hclosing⟩ := h
  have hparts := Takes.many (parts_row he h hclosing rest) (part_refuses hclosing rest)
  have takes := ((just_takes hopening _).skipThen hparts).thenSkip (just_takes hclosing rest)
  exact (takes.spanned (by simp)).labelled

/-- Where no quote is next, `quotedString` refuses. -/
theorem quotedString_refuses (h : Begins (· ≠ .quote) lexemes) :
    (quotedString expression).Refuses lexemes :=
  (just_refuses h).skipThen.thenSkip.spanned.labelled

/-- A quoted string opens with a quote. -/
theorem quotedString_opens (h : QuotedString named inner used tree) : Opens (· = .quote) used := by
  obtain ⟨hopening, -, -⟩ := h
  exact ⟨_, _, rfl, hopening⟩

/-- The name of a transform with its arrow, before what is made of the items. -/
theorem transformName_takes (b : Bracket .itemGroupOpen) (arrow : Spaced (· = .arrow))
    {name gap : List Lexeme} (h : Symbol named name tree) (hgap : Blank gap)
    (hrest : Begins (·.isWhitespace = false) rest) :
    ((((((just .itemGroupOpen).skipThen ws).skipThen symbol).thenSkip ws).thenSkip
      (just .arrow)).thenSkip ws).Takes
      (b.opening :: (b.before ++ (name ++ (arrow.before ++ arrow.lexeme :: gap)))) tree rest := by
  have harrow : arrow.lexeme.token = .arrow := arrow.holds
  have hsharp : Begins (·.isWhitespace = false) ([arrow.lexeme] ++ (gap ++ rest)) := by
    rw [List.singleton_append, begins_cons, harrow]
    rfl
  have hopening := just_takes b.opening_token
    (b.before ++ (name ++ (arrow.before ++ ([arrow.lexeme] ++ (gap ++ rest)))))
  have hbefore := ws_takes b.blank_before
    ((symbol_opens_sharp h).begins (arrow.before ++ ([arrow.lexeme] ++ (gap ++ rest))))
  have hname := (hopening.skipThen hbefore).skipThen (symbol_takes h _)
  have hword := (hname.thenSkip (ws_takes arrow.blank_before hsharp)).thenSkip
    (just_takes harrow (gap ++ rest))
  simpa using hword.thenSkip (ws_takes hgap hrest)

/-- The separator of a transform is taken after its comma. -/
theorem transformSeparator_takes (comma : Spaced (· = .comma)) (h : QuotedLiteral used tree)
    (rest : List Lexeme) : transformSeparator.Takes (comma.lexemes ++ used) tree rest := by
  have hcomma : comma.lexeme.token = .comma := comma.holds
  have hsharp : Begins (·.isWhitespace = false)
      ([comma.lexeme] ++ (comma.after ++ (used ++ rest))) := by
    rw [List.singleton_append, begins_cons, hcomma]
    rfl
  have hquote : Begins (·.isWhitespace = false) (used ++ rest) := by
    obtain ⟨hopening, -, -⟩ := h
    exact begins_cons.mpr (by rw [hopening]; rfl)
  have hword := (ws_takes comma.blank_before hsharp).skipThen
    (just_takes hcomma (comma.after ++ (used ++ rest)))
  have takes := (hword.skipThen (ws_takes comma.blank_after hquote)).skipThen
    (quotedLiteral_takes h rest)
  simpa [Spaced.lexemes, transformSeparator] using takes

/-- What a transform makes of each item, and what it puts between items. -/
theorem transformText_takes (he : Complete expression inner)
    (h : TransformText named inner used trees) {blank : List Lexeme} {closing : Lexeme}
    (hblank : Blank blank) (hclosing : closing.token = .closeParen) (rest : List Lexeme) :
    ∃ body separator, trees = body :: separator.toList ∧
      ((quotedString expression).andThen transformSeparator.optional).Takes used (body, separator)
        (blank ++ closing :: rest) := by
  cases h with
  | @body tokens tree h =>
    -- looking for a comma reads white space, but that is given back with the separator
    have hsharp : Begins (·.isWhitespace = false) (closing :: rest) := by
      rw [begins_cons, hclosing]
      rfl
    have hcomma : (just .comma).Refuses (closing :: rest) := just_refuses (by simp [hclosing])
    have hnone : transformSeparator.Refuses (blank ++ closing :: rest) :=
      ((ws_takes hblank hsharp).skipThen_refuses hcomma).skipThen.skipThen
    have takes := (quotedString_takes he h _).andThen hnone.optional
    rw [List.append_nil] at takes
    exact ⟨tree, none, rfl, takes⟩
  | @separated comma tokens literal tree separator h hliteral =>
    have hsome := transformSeparator_takes comma hliteral (blank ++ closing :: rest)
    exact ⟨tree, some separator, rfl, (quotedString_takes he h _).andThen hsome.optional⟩

/-- A transform's quoted text opens with no blank. -/
theorem transformText_opens (h : TransformText named inner used trees) :
    Opens (·.isWhitespace = false) used := by
  have quote_sharp : ∀ t : Token, t = .quote → t.isWhitespace = false := by
    rintro t rfl
    rfl
  cases h with
  | body h => exact (quotedString_opens h).mono quote_sharp
  | separated comma h _ => exact ((quotedString_opens h).append _).mono quote_sharp

/-- A derived transform is taken whole and read as its tree, whatever comes after it. -/
theorem itemTransform_takes (he : Complete expression inner)
    (h : ItemTransform named inner used tree) (rest : List Lexeme) :
    (itemTransform expression).Takes used tree rest := by
  obtain ⟨b, arrow, hname, htext⟩ := h
  rename_i name text nameTree trees
  have hclosing := just_takes b.closing_token rest
  cases htext with
  | none =>
    -- the white space on both sides of the missing text is read at once
    have hblank : Blank (arrow.after ++ b.after) :=
      blank_append.mpr ⟨arrow.blank_after, b.blank_after⟩
    have hstart := transformName_takes b arrow hname hblank (closing_begins b rest)
    have hquote : (quotedString expression).Refuses (b.closing :: rest) :=
      quotedString_refuses (by simp [b.closing_token])
    have hnone : ((quotedString expression).andThen transformSeparator.optional).Refuses
        (b.closing :: rest) := hquote.andThen
    have hbody := hstart.andThen hnone.optional
    have hall := (hbody.thenSkip (ws_takes blank_nil (closing_begins b rest))).thenSkip hclosing
    have hused : b.around (name ++ (arrow.lexemes ++ [])) =
        ((b.opening :: (b.before ++ (name ++ (arrow.before ++ arrow.lexeme ::
          (arrow.after ++ b.after))))) ++ []) ++ [] ++ [b.closing] := by
      simp [Bracket.around, Spaced.lexemes]
    rw [hused]
    exact (hall.spanned (by simp)).labelled
  | @some text trees htext =>
    have hopens := (transformText_opens htext).begins (b.after ++ b.closing :: rest)
    have hstart := transformName_takes b arrow hname arrow.blank_after hopens
    obtain ⟨body, separator, rfl, takes⟩ :=
      transformText_takes he htext b.blank_after b.closing_token rest
    have hbody := hstart.andThen takes.optional
    have hall := (hbody.thenSkip (ws_takes b.blank_after (closing_begins b rest))).thenSkip hclosing
    have hused : b.around (name ++ (arrow.lexemes ++ text)) =
        ((b.opening :: (b.before ++ (name ++ (arrow.before ++ arrow.lexeme ::
          arrow.after)))) ++ text) ++ b.after ++ [b.closing] := by
      simp [Bracket.around, Spaced.lexemes]
    rw [hused]
    exact (hall.spanned (by simp)).labelled

/-- Where no `@(` is next, `itemTransform` refuses. -/
theorem itemTransform_refuses (h : Begins (· ≠ .itemGroupOpen) lexemes) :
    (itemTransform expression).Refuses lexemes :=
  ((just_refuses h).skipThen.skipThen.thenSkip.thenSkip.thenSkip.andThen.thenSkip.thenSkip).spanned
    |>.labelled

/-- An item reference is not a transform: it has no arrow. -/
theorem itemTransform_refuses_group (h : ItemGroup named used tree) (rest : List Lexeme) :
    (itemTransform expression).Refuses (used ++ rest) := by
  obtain ⟨b, h⟩ := h
  rename_i body name
  have hstart : ((((just .itemGroupOpen).skipThen ws).skipThen symbol).thenSkip ws).thenSkip
      (just .arrow) |>.Refuses (b.around body ++ rest) := by
    cases h with
    | none =>
      -- no name either
      have hblank : Blank (b.before ++ b.after) := blank_append.mpr ⟨b.blank_before, b.blank_after⟩
      have hopening := just_takes b.opening_token ((b.before ++ b.after) ++ b.closing :: rest)
      have hbefore := hopening.skipThen (ws_takes hblank (closing_begins b rest))
      have hname : symbol.Refuses (b.closing :: rest) := symbol_refuses (by simp [b.closing_token])
      refine Refuses.thenSkip (Refuses.thenSkip ?_)
      simpa [Bracket.around] using hbefore.skipThen_refuses hname
    | some h =>
      have hopening := just_takes b.opening_token
        (b.before ++ (body ++ (b.after ++ b.closing :: rest)))
      have hbefore := hopening.skipThen (ws_takes b.blank_before
        ((symbol_opens_sharp h).begins (b.after ++ b.closing :: rest)))
      have hname := (hbefore.skipThen (symbol_takes h _)).thenSkip
        (ws_takes b.blank_after (closing_begins b rest))
      have harrow : (just .arrow).Refuses (b.closing :: rest) :=
        just_refuses (by simp [b.closing_token])
      simpa [Bracket.around] using hname.thenSkip_refuses harrow
  exact hstart.thenSkip.andThen.thenSkip.thenSkip.spanned.labelled

/-- An identifier is taken as an operand, whatever stands after it. -/
theorem identifier_operand_takes {lexeme : Lexeme} {name : String}
    (hname : lexeme.token = .identifier name) (rest : List Lexeme) :
    (operand expression).Takes [lexeme] (Expr.symbol name lexeme.span) rest := by
  have hquoted : (quotedString expression).Refuses ([lexeme] ++ rest) :=
    quotedString_refuses (begins_cons.mpr (by simp [hname]))
  have hevaluate : (evaluate expression).Refuses ([lexeme] ++ rest) :=
    evaluate_refuses (begins_cons.mpr (by simp [hname]))
  exact hquoted.choice_takes (hevaluate.choice_takes (identifier_symbol_takes hname rest).choice)

/-- A derived operand is taken whole and read as its tree, whatever comes after it. -/
theorem operand_takes (he : Complete expression inner) (h : Operand named inner used tree)
    (rest : List Lexeme) : (operand expression).Takes used tree rest := by
  cases h with
  | quoted h => exact (quotedString_takes he h rest).choice
  | evaluate h =>
    have hopens := (evaluate_opens h).begins rest
    have hquoted : (quotedString expression).Refuses (used ++ rest) :=
      quotedString_refuses (hopens.mono fun _ ht => by simp [ht])
    exact hquoted.choice_takes (evaluate_takes he h rest).choice
  | symbol hname _ => exact identifier_operand_takes hname rest

/-- Where no quote, no `$(` and no name is next, `operand` refuses. -/
theorem operand_refuses
    (h : Begins (fun t => t ≠ .quote ∧ t ≠ .evaluateOpen ∧ ∀ name, t ≠ .identifier name) lexemes) :
    (operand expression).Refuses lexemes := by
  have hquoted : (quotedString expression).Refuses lexemes :=
    quotedString_refuses (h.mono fun _ ht => ht.1)
  have hevaluate : (evaluate expression).Refuses lexemes :=
    evaluate_refuses (h.mono fun _ ht => ht.2.1)
  have hsymbol := symbol_refuses (h.mono fun _ ht => ht.2.2)
  exact hquoted.choice (hevaluate.choice (hsymbol.choice choice_nil_refuses))

/-- An operand opens with a quote, with `$(` or with a name. -/
theorem operand_opens (h : Operand named inner used tree) :
    Opens (fun t => t = .quote ∨ t = .evaluateOpen ∨ ∃ name, t = .identifier name ∧ named name)
      used := by
  cases h with
  | quoted h => exact (quotedString_opens h).mono fun _ ht => Or.inl ht
  | evaluate h => exact (evaluate_opens h).mono fun _ ht => Or.inr (Or.inl ht)
  | symbol hname hn => exact ⟨_, _, rfl, Or.inr (Or.inr ⟨_, hname, hn⟩)⟩

/-- The token of a relation is read as that relation. -/
theorem comparisonOperator_takes {relation : Comparison} {lexeme : Lexeme}
    (h : lexeme.token = operatorToken relation) (rest : List Lexeme) :
    comparisonOperator.Takes [lexeme] relation rest := by
  cases relation with
  | equality => exact (just_takes h rest).map.choice
  | inequality =>
    have hequals : (just .equals).Refuses ([lexeme] ++ rest) :=
      just_refuses (begins_cons.mpr (by simp [h, operatorToken]))
    exact hequals.map.choice_takes (just_takes h rest).map.choice

/-- Where no `==` and no `!=` is next, `comparisonOperator` refuses. -/
theorem comparisonOperator_refuses (h : Begins (fun t => t ≠ .equals ∧ t ≠ .notEquals) lexemes) :
    comparisonOperator.Refuses lexemes := by
  have hequals := just_refuses (h.mono fun _ ht => ht.1)
  have hnot := just_refuses (h.mono fun _ ht => ht.2)
  exact hequals.map.choice (hnot.map.choice choice_nil_refuses)

/-- A derived comparison is taken whole and read as its tree, whatever comes after it. -/
theorem comparison_takes (he : Complete expression inner) (h : Compared named inner used tree)
    (rest : List Lexeme) : (comparison expression).Takes used tree rest := by
  obtain ⟨operator, hleft, hright⟩ := h
  rename_i relation left right leftTree rightTree
  have hoperator : operator.lexeme.token = operatorToken relation := operator.holds
  -- neither the operator nor the right side begins with a blank
  have hsharp : Begins (·.isWhitespace = false)
      ([operator.lexeme] ++ (operator.after ++ (right ++ rest))) := by
    rw [List.singleton_append, begins_cons, hoperator]
    cases relation <;> rfl
  have hopens : Opens (·.isWhitespace = false) right := by
    refine (operand_opens hright).mono ?_
    rintro t (rfl | rfl | ⟨name, rfl, -⟩) <;> rfl
  have hbefore := (operand_takes he hleft _).thenSkip (ws_takes operator.blank_before hsharp)
  have hword := (hbefore.andThen (comparisonOperator_takes hoperator _)).thenSkip
    (ws_takes operator.blank_after (hopens.begins rest))
  have takes := hword.andThen (operand_takes he hright rest)
  have hused : left ++ (operator.lexemes ++ right) =
      (((left ++ operator.before) ++ [operator.lexeme]) ++ operator.after) ++ right := by
    simp [Spaced.lexemes]
  rw [hused]
  exact (takes.spanned (by simp)).labelled

/-- Where no operand can open, `comparison` refuses. -/
theorem comparison_refuses
    (h : Begins (fun t => t ≠ .quote ∧ t ≠ .evaluateOpen ∧ ∀ name, t ≠ .identifier name) lexemes) :
    (comparison expression).Refuses lexemes :=
  (operand_refuses h).thenSkip.andThen.thenSkip.andThen.spanned.labelled

/-- An operand on its own is not a comparison. -/
theorem comparison_refuses_operand (he : Complete expression inner)
    (h : Operand named inner used tree) (hrest : Followed stops rest) :
    (comparison expression).Refuses (used ++ rest) := by
  -- the operand and the white space after it are read before the operator is missed
  obtain ⟨blank, hblank, hsplit⟩ := exists_blank_append_skipBlank rest
  have hfirst := (operand_takes he h _).thenSkip (ws_takes hblank (skipBlank_begins rest))
  have hoperator : comparisonOperator.Refuses (skipBlank rest) :=
    comparisonOperator_refuses (Begins.mono hrest fun t ht => (stops_apart ht).2.2)
  have := hfirst.andThen_refuses hoperator
  rw [List.append_assoc, ← hsplit] at this
  exact this.thenSkip.andThen.spanned.labelled

/-- A call is not a comparison: its name is not followed by an operator. -/
theorem comparison_refuses_call (h : FunctionCall named inner used tree) (rest : List Lexeme) :
    (comparison expression).Refuses (used ++ rest) := by
  -- a name is an operand, but what follows it is a parenthesis or a period
  have hname : ∀ {lexeme : Lexeme} {name : String} {more : List Lexeme},
      lexeme.token = .identifier name →
      Begins (fun t => t.isWhitespace = false ∧ t ≠ .equals ∧ t ≠ .notEquals) more →
      (comparison expression).Refuses ([lexeme] ++ more) := by
    intro lexeme name more hname hmore
    have hoperand : (operand expression).Takes [lexeme] _ more := identifier_operand_takes hname more
    have hfirst := hoperand.thenSkip (ws_takes blank_nil (hmore.mono fun _ ht => ht.1))
    have hoperator := comparisonOperator_refuses (hmore.mono fun _ ht => ht.2)
    have := hfirst.andThen_refuses hoperator
    rw [List.append_nil] at this
    exact this.thenSkip.andThen.spanned.labelled
  cases h with
  | plain hidentifier _ h =>
    refine hname hidentifier (((argumentList_opens h).begins rest).mono ?_)
    rintro t rfl
    exact ⟨rfl, Token.noConfusion, Token.noConfusion⟩
  | onInstance htarget hperiod _ _ _ =>
    obtain ⟨hidentifier, -⟩ := htarget
    refine hname hidentifier (begins_cons.mpr ?_)
    rw [hperiod]
    exact ⟨rfl, Token.noConfusion, Token.noConfusion⟩
  | onType htarget _ _ _ _ =>
    obtain ⟨hopening, -, -⟩ := htarget
    refine comparison_refuses (begins_cons.mpr ?_)
    rw [hopening]
    exact ⟨Token.noConfusion, Token.noConfusion, fun _ => Token.noConfusion⟩

/-- A derived group is taken whole and read as its tree, whatever comes after it. -/
theorem grouped_takes (he : Complete expression inner) (h : Grouped inner used tree)
    (rest : List Lexeme) : (grouped expression).Takes used tree rest := by
  obtain ⟨b, h⟩ := h
  have hopens := he.opens h
  have hfollow := closing_followed b.blank_after b.closing_token rest
  have hsharp := hopens.mono (q := (·.isWhitespace = false)) <| by
    intro t ht
    cases t <;> first | rfl | cases ht
  exact ((bracket_takes b hsharp (he.takes h hfollow)).spanned (b.around_ne_nil _)).labelled

/-- Where no `(` is next, `grouped` refuses. -/
theorem grouped_refuses (h : Begins (· ≠ .openParen) lexemes) :
    (grouped expression).Refuses lexemes :=
  (bracket_refuses h).spanned.labelled

/-- An operand on its own is not a call. -/
theorem functionCall_refuses_operand (h : Operand named inner used tree)
    (hrest : Followed stops rest) : (functionCall expression).Refuses (used ++ rest) := by
  cases h with
  | quoted h =>
    exact functionCall_refuses (((quotedString_opens h).begins rest).mono fun _ ht => by simp [ht])
  | evaluate h =>
    exact functionCall_refuses (((evaluate_opens h).begins rest).mono fun _ ht => by simp [ht])
  | symbol hname _ => exact functionCall_refuses_symbol hname (stops_begins hrest)

/-- An operand on its own is taken by the last three alternatives of a primary. -/
theorem primary_takes_operand (he : Complete expression inner) (h : Operand named inner used tree)
    (hrest : Followed stops rest) : (primary expression).Takes used tree rest := by
  have hopens : Begins (fun t => t ≠ .openParen ∧ t ≠ .itemGroupOpen ∧ t ≠ .itemMetadataOpen)
      (used ++ rest) := by
    refine ((operand_opens h).begins rest).mono ?_
    rintro t (rfl | rfl | ⟨name, rfl, -⟩) <;>
      exact ⟨Token.noConfusion, Token.noConfusion, Token.noConfusion⟩
  have hgrouped : (grouped expression).Refuses (used ++ rest) :=
    grouped_refuses (hopens.mono fun _ ht => ht.1)
  have hcomparison := comparison_refuses_operand he h hrest
  have hcall : (functionCall expression).Refuses (used ++ rest) :=
    functionCall_refuses_operand h hrest
  have htransform : (itemTransform expression).Refuses (used ++ rest) :=
    itemTransform_refuses (hopens.mono fun _ ht => ht.2.1)
  have hgroup := itemGroup_refuses (hopens.mono fun _ ht => ht.2.1)
  have hmetadata := itemMetadata_refuses (hopens.mono fun _ ht => ht.2.2)
  exact hgrouped.choice_takes (hcomparison.choice_takes (hcall.choice_takes
    (htransform.choice_takes (hgroup.choice_takes (hmetadata.choice_takes
      (operand_takes he h rest))))))

/-- A reference to items or metadata is left to the alternatives after the first three. -/
theorem primary_takes_reference
    (hopens : Begins (fun t => t = .itemGroupOpen ∨ t = .itemMetadataOpen) (used ++ rest))
    (h : (choice [itemTransform expression, itemGroup, itemMetadata, quotedString expression,
      evaluate expression, symbol]).Takes used tree rest) :
    (primary expression).Takes used tree rest := by
  have hgrouped : (grouped expression).Refuses (used ++ rest) :=
    grouped_refuses (hopens.mono fun t ht => by rcases ht with rfl | rfl <;> simp)
  have hcomparison : (comparison expression).Refuses (used ++ rest) :=
    comparison_refuses (hopens.mono fun t ht => by rcases ht with rfl | rfl <;> simp)
  have hcall : (functionCall expression).Refuses (used ++ rest) :=
    functionCall_refuses (hopens.mono fun t ht => by rcases ht with rfl | rfl <;> simp)
  exact hgrouped.choice_takes (hcomparison.choice_takes (hcall.choice_takes h))

/-- **Every primary is taken**, since no alternative before its own reads anything there. -/
theorem primary_takes (he : Complete expression inner) (h : Primary named inner used tree)
    (hrest : Followed stops rest) : (primary expression).Takes used tree rest := by
  cases h with
  | grouped h => exact (grouped_takes he h rest).choice
  | compared h =>
    -- comparisons are tried before the operands they start with
    have hgrouped : (grouped expression).Refuses (used ++ rest) := by
      obtain ⟨operator, hleft, -⟩ := h
      refine grouped_refuses ((((operand_opens hleft).append _).begins rest).mono ?_)
      rintro t (rfl | rfl | ⟨name, rfl, -⟩) <;> exact Token.noConfusion
    exact hgrouped.choice_takes (comparison_takes he h rest).choice
  | call h =>
    have hgrouped : (grouped expression).Refuses (used ++ rest) := by
      refine grouped_refuses (((functionCall_opens h).begins rest).mono ?_)
      rintro t (rfl | ⟨name, rfl, -⟩) <;> exact Token.noConfusion
    have hcomparison : (comparison expression).Refuses (used ++ rest) :=
      comparison_refuses_call h rest
    exact hgrouped.choice_takes (hcomparison.choice_takes (functionCall_takes he h rest).choice)
  | transform h =>
    -- a transform is tried before the item reference that starts like it
    refine primary_takes_reference ?_ (itemTransform_takes he h rest).choice
    obtain ⟨b, arrow, -, -⟩ := h
    exact begins_cons.mpr (Or.inl b.opening_token)
  | group h =>
    have hopens := (itemGroup_opens h).begins rest
    have htransform : (itemTransform expression).Refuses (used ++ rest) :=
      itemTransform_refuses_group h rest
    refine primary_takes_reference (hopens.mono fun _ ht => Or.inl ht) ?_
    exact htransform.choice_takes (itemGroup_takes h rest).choice
  | metadata h =>
    have hopens := (itemMetadata_opens h).begins rest
    have htransform : (itemTransform expression).Refuses (used ++ rest) :=
      itemTransform_refuses (hopens.mono fun _ ht => by simp [ht])
    have hgroup := itemGroup_refuses (hopens.mono fun _ ht => by simp [ht])
    refine primary_takes_reference (hopens.mono fun _ ht => Or.inr ht) ?_
    exact htransform.choice_takes (hgroup.choice_takes (itemMetadata_takes h rest).choice)
  | quoted h => exact primary_takes_operand he (.quoted h) hrest
  | evaluate h => exact primary_takes_operand he (.evaluate h) hrest
  | symbol hname hn => exact primary_takes_operand he (.symbol hname hn) hrest

end Inner

end Grammar

end ProjectLens
