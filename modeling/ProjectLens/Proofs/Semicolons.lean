import ProjectLens.Proofs.Completeness
import ProjectLens.Proofs.Trimming

/-! # Semicolons and edges of expressions

Outside of quotes there is no semicolon in an expression, so every semicolon of a text without quotes
stands between two items of a list. And an expression is sharp at both edges: its first and its last
token are not white space.

* `Derivation.Guarded`, `Derivation.Expression.guarded`: semicolons stand in quotes only;
* `Derivation.Expression.opens`, `Derivation.Expression.ends`: the edges of an expression. -/

namespace ProjectLens

namespace Derivation

open Grammar

/-! ## Semicolons -/

/-- **There are semicolons only where there are quotes.** -/
def Guarded (tokens : List Lexeme) : Prop :=
  (∀ lexeme ∈ tokens, lexeme.token ≠ .quote) → ∀ lexeme ∈ tokens, lexeme.token ≠ .semicolon

variable {named : String → Prop} {inner : List Lexeme → Expr → Prop} {tokens left right : List Lexeme}
  {lexeme : Lexeme} {tree : Expr} {trees : List Expr} {mark : Token}

/-- `left ++ right` has no bare semicolon if neither part has one. -/
theorem Guarded.append (hleft : Guarded left) (hright : Guarded right) : Guarded (left ++ right) := by
  intro hquote
  obtain ⟨hl, hr⟩ := List.forall_mem_append.mp hquote
  exact List.forall_mem_append.mpr ⟨hleft hl, hright hr⟩

/-- No tokens, no bare semicolon. -/
theorem guarded_nil : Guarded [] := fun _ => by simp

/-- A token other than a semicolon may come first. -/
theorem Guarded.cons {t : Token} (h : Guarded tokens) (hlexeme : lexeme.token = t)
    (ht : t ≠ .semicolon) : Guarded (lexeme :: tokens) := by
  intro hquote
  refine List.forall_mem_cons.mpr ⟨?_, h (List.forall_mem_cons.mp hquote).2⟩
  rw [hlexeme]
  exact ht

/-- One token other than a semicolon. -/
theorem guarded_single {t : Token} (hlexeme : lexeme.token = t) (ht : t ≠ .semicolon) :
    Guarded [lexeme] :=
  guarded_nil.cons hlexeme ht

/-- White space is no semicolon. -/
theorem ne_semicolon_of_blank (h : Blank tokens) :
    ∀ lexeme ∈ tokens, lexeme.token ≠ .semicolon := by
  intro lexeme hmem heq
  have hspace := h lexeme hmem
  rw [heq] at hspace
  cases hspace

/-- White space has no bare semicolon. -/
theorem guarded_blank (h : Blank tokens) : Guarded tokens := fun _ => ne_semicolon_of_blank h

/-- Brackets around tokens without a bare semicolon. -/
theorem Bracket.guarded (b : Bracket mark) (hmark : mark ≠ .semicolon) (h : Guarded tokens) :
    Guarded (b.around tokens) := by
  have hclosing := guarded_single b.closing_token Token.noConfusion
  have hbody := h.append ((guarded_blank b.blank_after).append hclosing)
  exact ((guarded_blank b.blank_before).append hbody).cons b.opening_token hmark

/-- A token other than a semicolon with white space around it. -/
theorem Spaced.guarded {p : Token → Prop} (s : Spaced p) (hp : ∀ t, p t → t ≠ .semicolon) :
    Guarded s.lexemes :=
  (guarded_blank s.blank_before).append ((guarded_blank s.blank_after).cons rfl (hp _ s.holds))

/-- The token `t ≠ .semicolon` with white space around it. -/
theorem Spaced.guarded_of {t : Token} (s : Spaced (· = t)) (ht : t ≠ .semicolon) :
    Guarded s.lexemes := by
  refine s.guarded ?_
  rintro _ rfl
  exact ht

/-- What may be missing has no bare semicolon if it has none when it is there. -/
theorem Maybe.guarded {α : Type} {p : List Lexeme → α → Prop} {value : Option α}
    (h : Maybe p tokens value) (hp : ∀ l v, p l v → Guarded l) : Guarded tokens := by
  cases h with
  | none => exact guarded_nil
  | some h => exact hp _ _ h

/-- The sign of a number. -/
theorem Minus.guarded {value : Unit} (h : Minus tokens value) : Guarded tokens := by
  obtain ⟨hminus⟩ := h
  exact guarded_single hminus Token.noConfusion

/-- The fraction of a number. -/
theorem Fraction.guarded {text : String} (h : Fraction tokens text) : Guarded tokens := by
  obtain ⟨hperiod, hdigits⟩ := h
  exact (guarded_single hdigits Token.noConfusion).cons hperiod Token.noConfusion

/-- A symbol. -/
theorem Symbol.guarded (h : Symbol named tokens tree) : Guarded tokens := by
  obtain ⟨hname, -⟩ := h
  exact guarded_single hname Token.noConfusion

/-- The segments of a type with periods between them. -/
theorem Segments.guarded {names : List String} (h : Segments tokens names) : Guarded tokens := by
  induction h with
  | last hname => exact guarded_single hname Token.noConfusion
  | more hname hperiod _ ih =>
    exact (ih.cons hperiod Token.noConfusion).cons hname Token.noConfusion

/-- A type in brackets. -/
theorem TypeRef.guarded (h : TypeRef tokens tree) : Guarded tokens := by
  obtain ⟨hopening, hbody, hclosing⟩ := h
  exact (hbody.guarded.append (guarded_single hclosing Token.noConfusion)).cons hopening
    Token.noConfusion

/-- The name behind the period of a reference to metadata. -/
theorem MetadataName.guarded (h : MetadataName named tokens tree) : Guarded tokens := by
  cases h with
  | symbol h => exact h.guarded
  | blank hblank => exact guarded_blank (by simpa using hblank)

/-- A reference to metadata, in each of its forms. -/
theorem ItemMetadata.guarded (h : ItemMetadata named tokens tree) : Guarded tokens := by
  cases h with
  | empty b => exact b.guarded Token.noConfusion guarded_nil
  | plain b h => exact b.guarded Token.noConfusion h.guarded
  | qualified b htype hgap hperiod hname =>
    have hend := hname.guarded.cons hperiod Token.noConfusion
    exact b.guarded Token.noConfusion (htype.guarded.append ((guarded_blank hgap).append hend))
  | unnamed b _ htype hgap hperiod =>
    have hend := guarded_single hperiod Token.noConfusion
    exact b.guarded Token.noConfusion (htype.guarded.append ((guarded_blank hgap).append hend))

/-- A reference to items. -/
theorem ItemGroup.guarded (h : ItemGroup named tokens tree) : Guarded tokens := by
  obtain ⟨b, h⟩ := h
  exact b.guarded Token.noConfusion (h.guarded fun _ _ h => h.guarded)

/-- A string has quotes of its own. -/
theorem QuotedString.guarded (h : QuotedString named inner tokens tree) : Guarded tokens := by
  obtain ⟨hopening, -, -⟩ := h
  exact fun hquote => absurd hopening (hquote _ List.mem_cons_self)

/-- A string without references; semicolons in it stand between quotes. -/
theorem QuotedLiteral.guarded (h : QuotedLiteral tokens tree) : Guarded tokens := by
  obtain ⟨hopening, -, -⟩ := h
  exact fun hquote => absurd hopening (hquote _ List.mem_cons_self)

/-- The body and the separator of a transform. -/
theorem TransformText.guarded (h : TransformText named inner tokens trees) : Guarded tokens := by
  cases h with
  | body h => exact h.guarded
  | separated comma h hliteral =>
    exact h.guarded.append ((comma.guarded_of Token.noConfusion).append hliteral.guarded)

/-- A transform. -/
theorem ItemTransform.guarded (h : ItemTransform named inner tokens tree) : Guarded tokens := by
  obtain ⟨b, arrow, hname, htext⟩ := h
  have htext := htext.guarded fun _ _ h => h.guarded
  have hbody := hname.guarded.append ((arrow.guarded_of Token.noConfusion).append htext)
  exact b.guarded Token.noConfusion hbody

section Inner

variable (hinner : ∀ l e, inner l e → Guarded l)
include hinner

/-- An argument, which may be an expression. -/
theorem Argument.guarded (h : Argument inner tokens tree) : Guarded tokens := by
  cases h with
  | number hsign hdigits hfraction =>
    have hfraction := hfraction.guarded fun _ _ h => h.guarded
    have hsign := hsign.guarded fun _ _ h => h.guarded
    exact hsign.append (hfraction.cons hdigits Token.noConfusion)
  | expression h => exact hinner _ _ h

/-- Arguments with commas between them. -/
theorem Arguments.guarded (h : Arguments inner tokens trees) : Guarded tokens := by
  induction h with
  | last h => exact h.guarded hinner
  | more comma h _ ih =>
    exact (h.guarded hinner).append ((comma.guarded_of Token.noConfusion).append ih)

/-- Arguments in parentheses. -/
theorem ArgumentList.guarded (h : ArgumentList inner tokens trees) : Guarded tokens := by
  cases h with
  | empty b => exact b.guarded Token.noConfusion guarded_nil
  | filled b h => exact b.guarded Token.noConfusion (h.guarded hinner)

/-- A call of any form. -/
theorem FunctionCall.guarded (h : FunctionCall named inner tokens tree) : Guarded tokens := by
  cases h with
  | plain hname _ h => exact (h.guarded hinner).cons hname Token.noConfusion
  | onInstance htarget hperiod hname _ h =>
    have hcall := (h.guarded hinner).cons hname Token.noConfusion
    exact htarget.guarded.append (hcall.cons hperiod Token.noConfusion)
  | onType htarget hcolons hname _ h =>
    have hcall := (h.guarded hinner).cons hname Token.noConfusion
    exact htarget.guarded.append (hcall.cons hcolons Token.noConfusion)

/-- A reference to a property. -/
theorem Evaluate.guarded (h : Evaluate named inner tokens tree) : Guarded tokens := by
  cases h with
  | call b h => exact b.guarded Token.noConfusion (h.guarded hinner)
  | symbol b h => exact b.guarded Token.noConfusion h.guarded

/-- One side of a comparison. -/
theorem Operand.guarded (h : Operand named inner tokens tree) : Guarded tokens := by
  cases h with
  | quoted h => exact h.guarded
  | evaluate h => exact h.guarded hinner
  | symbol hname _ => exact guarded_single hname Token.noConfusion

/-- Two sides with an operator between them. -/
theorem Compared.guarded (h : Compared named inner tokens tree) : Guarded tokens := by
  cases h with
  | @intro relation operator _ _ _ _ hleft hright =>
    have hoperator : operatorToken relation ≠ .semicolon := by
      cases relation <;> exact Token.noConfusion
    exact (hleft.guarded hinner).append
      ((operator.guarded_of hoperator).append (hright.guarded hinner))

/-- What a condition is made of. -/
theorem Primary.guarded (h : Primary named inner tokens tree) : Guarded tokens := by
  cases h with
  | grouped h =>
    obtain ⟨b, h⟩ := h
    exact b.guarded Token.noConfusion (hinner _ _ h)
  | compared h => exact h.guarded hinner
  | call h => exact h.guarded hinner
  | transform h => exact h.guarded
  | group h => exact h.guarded
  | metadata h => exact h.guarded
  | quoted h => exact h.guarded
  | evaluate h => exact h.guarded hinner
  | symbol hname _ => exact guarded_single hname Token.noConfusion

/-- A primary behind any number of negations. -/
theorem Unary.guarded (h : Unary named inner tokens tree) : Guarded tokens := by
  induction h with
  | primary h => exact h.guarded hinner
  | not hword hgap _ ih =>
    refine ((guarded_blank hgap).append ih).cons rfl ?_
    -- a semicolon does not negate anything
    intro heq
    rw [heq] at hword
    rcases hword with h | h <;> cases h

end Inner

/-- Operands without a bare semicolon, joined by words. -/
theorem Joined.guarded {connective : Connective} {operand : List Lexeme → Expr → Prop}
    (hoperand : ∀ l e, operand l e → Guarded l) (h : Joined connective operand tokens tree) :
    Guarded tokens := by
  induction h with
  | single h => exact hoperand _ _ h
  | join word _ h ih =>
    have hword : Guarded word.lexemes := by
      refine word.guarded fun t ht heq => ?_
      rw [heq] at ht
      cases ht
    exact ih.append (hword.append (hoperand _ _ h))

/-- **An expression without quotes has no semicolon.** -/
theorem Expression.guarded (h : Expression named tokens tree) : Guarded tokens := by
  -- what is inside parentheses has fewer tokens
  refine Expression.induction (motive := fun tokens _ => Guarded tokens) ?_ h
  intro tokens tree h
  exact h.guarded fun _ _ h => h.guarded fun _ _ h => h.guarded fun _ _ h => h.2.2

/-! ## First and last tokens -/

/-- One token that is neither white space nor a semicolon is the last one. -/
theorem ends_single {t : Token} (hlexeme : lexeme.token = t) (ht : t.isSolid = true) :
    Ends (·.isSolid = true) [lexeme] :=
  ⟨[], lexeme, rfl, hlexeme ▸ ht⟩

/-- Brackets end with their closing token. -/
theorem Bracket.ends (b : Bracket mark) (body : List Lexeme) :
    Ends (·.isSolid = true) (b.around body) := by
  have hclosing := ends_single b.closing_token rfl
  exact ((hclosing.append b.after).append body).append (b.opening :: b.before)

/-- A string ends with its closing quote. -/
theorem QuotedString.ends (h : QuotedString named inner tokens tree) :
    Ends (·.isSolid = true) tokens := by
  cases h with
  | @intro opening closing body _ _ _ hclosing =>
    exact (ends_single hclosing rfl).append (opening :: body)

/-- Arguments end with their closing parenthesis. -/
theorem ArgumentList.ends (h : ArgumentList inner tokens trees) : Ends (·.isSolid = true) tokens := by
  cases h with
  | empty b => exact b.ends _
  | filled b _ => exact b.ends _

/-- A call ends with that of its arguments. -/
theorem FunctionCall.ends (h : FunctionCall named inner tokens tree) :
    Ends (·.isSolid = true) tokens := by
  cases h with
  | @plain name _ _ _ _ _ h => exact h.ends.append [name]
  | @onInstance _ _ period name _ _ _ _ _ _ _ h => exact (h.ends.append [period, name]).append _
  | @onType _ _ colons name _ _ _ _ _ _ _ h => exact (h.ends.append [colons, name]).append _

/-- A reference to a property ends with its closing parenthesis. -/
theorem Evaluate.ends (h : Evaluate named inner tokens tree) : Ends (·.isSolid = true) tokens := by
  cases h with
  | call b _ => exact b.ends _
  | symbol b _ => exact b.ends _

/-- One side of a comparison ends with a solid token. -/
theorem Operand.ends (h : Operand named inner tokens tree) : Ends (·.isSolid = true) tokens := by
  cases h with
  | quoted h => exact h.ends
  | evaluate h => exact h.ends
  | symbol hname _ => exact ends_single hname rfl

/-- A primary ends with a solid token. -/
theorem Primary.ends (h : Primary named inner tokens tree) : Ends (·.isSolid = true) tokens := by
  cases h with
  | grouped h =>
    obtain ⟨b, -⟩ := h
    exact b.ends _
  | compared h =>
    obtain ⟨operator, -, hright⟩ := h
    exact (hright.ends.append _).append _
  | call h => exact h.ends
  | transform h =>
    obtain ⟨b, -, -, -⟩ := h
    exact b.ends _
  | group h =>
    obtain ⟨b, -⟩ := h
    exact b.ends _
  | metadata h => cases h <;> exact Bracket.ends _ _
  | quoted h => exact h.ends
  | evaluate h => exact h.ends
  | symbol hname _ => exact ends_single hname rfl

/-- What is negated ends as the primary does. -/
theorem Unary.ends (h : Unary named inner tokens tree) : Ends (·.isSolid = true) tokens := by
  induction h with
  | primary h => exact h.ends
  | @not word gap _ _ _ _ _ ih => exact ih.append (word :: gap)

/-- Joined operands end as the last of them does. -/
theorem Joined.ends {connective : Connective} {operand : List Lexeme → Expr → Prop}
    (hoperand : ∀ l e, operand l e → Ends (·.isSolid = true) l)
    (h : Joined connective operand tokens tree) : Ends (·.isSolid = true) tokens := by
  cases h with
  | single h => exact hoperand _ _ h
  | join word _ h => exact ((hoperand _ _ h).append _).append _

/-- **No expression ends with white space.** -/
theorem Expression.ends (h : Expression named tokens tree) : Ends (·.isSolid = true) tokens := by
  obtain ⟨h⟩ := h
  exact h.ends fun _ _ h => h.ends fun _ _ h => h.ends

/-- **No expression opens with white space.** -/
theorem Expression.opens (h : Expression named tokens tree) : Opens (·.isSolid = true) tokens := by
  refine (expression_opens h).mono ?_
  intro t ht
  -- of the tokens that are not solid none opens an expression
  cases t with
  | whitespace text => cases ht
  | other c => cases ht
  | _ => rfl

end Derivation

end ProjectLens
