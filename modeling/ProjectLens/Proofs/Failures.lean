import ProjectLens.Proofs.Deepest
import ProjectLens.Proofs.Links
import ProjectLens.Proofs.WrittenGrammar

/-! # Where reading a text fails

Many failures stand behind the one that is reported: those of alternatives that were tried before, of
repetitions that ended, of optional parts that were not there. Each of them arose at a token or at the
end of the text, and so did what is left when they are put together, since only failures that arose at
the same token are merged.

* `Failure.ArisesIn`: the failure arose at a token of an input, or at its end;
* `Rule.Located rule`: whatever the rule fails with, or recovers from, arose in its input;
* one law for each way of putting rules together;
* `Script.located`, `Construct.rule_located`: the rules of the grammar fail in their input;
* `Complaint.PointsAt`, `Parsing`: what parsing a text comes to;
* `parsing_parseAs`: in each form, a linked tree, or one complaint about one token. -/

namespace ProjectLens

/-! ## Places of failures -/

namespace Input

/-- What is left of an input once tokens are taken off its front. -/
def Follows (later input : Input) : Prop :=
  later.lexemes <:+ input.lexemes ∧ later.stop = input.stop

variable {first second third : Input}

/-- All of an input is left of it before a token is taken. -/
@[refl] theorem Follows.refl (input : Input) : input.Follows input := ⟨List.suffix_rfl, rfl⟩

/-- `third` is left of `first` if it is left of `second`, and `second` of `first`. -/
theorem Follows.trans (h : third.Follows second) (h' : second.Follows first) : third.Follows first :=
  ⟨h.1.trans h'.1, h.2.trans h'.2⟩

end Input

namespace Failure

variable {a b f : Failure} {input later : Input} {before after : Option Failure}

/-- The failure arose at the first token of what was left then, or at the end of the text. -/
def ArisesAt (f : Failure) (later : Input) : Prop :=
  f.left = later.left ∧
    match later.lexemes with
    | [] => f.span = Span.emptyAt later.stop ∧ f.found = none
    | lexeme :: _ => f.span = lexeme.span ∧ f.found = some lexeme.token

/-- **The failure arose while reading an input**: at one of its tokens, or at its end. -/
def ArisesIn (f : Failure) (input : Input) : Prop := ∃ later, later.Follows input ∧ f.ArisesAt later

/-- Every failure that was recovered from, if any, arose while reading an input. -/
def AllIn (recovered : Option Failure) (input : Input) : Prop := ∀ f ∈ recovered, f.ArisesIn input

/-- `input.unexpected expected` is about the token that comes next, or about the end. -/
theorem arisesIn_unexpected (input : Input) (expected : List (Option Token)) :
    (input.unexpected expected).ArisesIn input := by
  refine ⟨input, .refl input, ?_⟩
  rw [ArisesAt, Input.unexpected, Input.left]
  cases input.lexemes with
  | nil => exact ⟨rfl, rfl, rfl⟩
  | cons lexeme lexemes => exact ⟨rfl, rfl, rfl⟩

/-- A failure in what is left of an input is one in the input. -/
theorem ArisesIn.mono (h : f.ArisesIn later) (hlater : later.Follows input) : f.ArisesIn input := by
  obtain ⟨last, hlast, harises⟩ := h
  exact ⟨last, hlast.trans hlater, harises⟩

/-- A name changes what was expected, and not where. -/
theorem ArisesIn.named (text : String) (h : f.ArisesIn input) : (f.named text).ArisesIn input := h

/-- **Failures put together arose where one of them did.** -/
theorem ArisesIn.further (ha : a.ArisesIn input) (hb : b.ArisesIn input) :
    (a.further b).ArisesIn input := by
  rw [Failure.further]
  split
  · exact ha
  · split
    · exact hb
    · -- merging keeps the place of the first one
      exact ha

/-- Nothing was recovered from. -/
@[simp] theorem allIn_none (input : Input) : AllIn none input := nofun

/-- One failure was recovered from. -/
@[simp] theorem allIn_some : AllIn (some f) input ↔ f.ArisesIn input := by simp [AllIn]

/-- What was recovered from in what is left of an input was recovered from in the input. -/
theorem AllIn.mono (h : AllIn before later) (hlater : later.Follows input) : AllIn before input :=
  fun f hf => (h f hf).mono hlater

/-- A name may be given to what was recovered from. -/
theorem AllIn.named (text : String) (h : AllIn before input) :
    AllIn (before.map (Failure.named text)) input := by
  cases before with
  | none => exact allIn_none input
  | some f => exact allIn_some.mpr ((allIn_some.mp h).named text)

/-- A failure put together with one that was recovered from `before` arose where one of them did. -/
theorem ArisesIn.furtherOpt (h : f.ArisesIn input) (hbefore : AllIn before input) :
    (f.furtherOpt before).ArisesIn input := by
  cases before with
  | none => exact h
  | some b => exact h.further (allIn_some.mp hbefore)

/-- `combine before after` arose where one of the two did. -/
theorem AllIn.combine (hbefore : AllIn before input) (hafter : AllIn after input) :
    AllIn (combine before after) input := by
  cases before with
  | none => exact hafter
  | some a =>
    cases after with
    | none => exact hbefore
    | some b => exact allIn_some.mpr ((allIn_some.mp hafter).further (allIn_some.mp hbefore))

end Failure

/-! ## Rules -/

/-- What a rule made of an input lies in the input: what is left, what was recovered from, and what it
failed with. -/
def Outcome.LocatedIn {α : Type} (input : Input) : Outcome α → Prop
  | .ok _ rest recovered => rest.Follows input ∧ Failure.AllIn recovered input
  | .fail failure => failure.ArisesIn input

/-- **Whatever the rule fails with, or recovers from, arose in its input.** -/
def Rule.Located {α : Type} (rule : Rule α) : Prop := ∀ input, (rule.run input).LocatedIn input

namespace Rule

open Failure

variable {α β : Type} {first rule other : Rule α} {second : Rule β}

/-- What `rule` fails with arose in its input. -/
theorem Located.of_fail (h : rule.Located) {input : Input} {failure : Failure}
    (hrun : rule.run input = .fail failure) : failure.ArisesIn input := by
  have := h input
  rwa [hrun] at this

/-- What `rule` leaves is left of its input, and what it recovered from arose there. -/
theorem Located.of_ok (h : rule.Located) {input rest : Input} {value : α} {recovered : Option Failure}
    (hrun : rule.run input = .ok value rest recovered) :
    rest.Follows input ∧ AllIn recovered input := by
  have := h input
  rwa [hrun] at this

/-- `token expected select` fails at the next token. -/
theorem located_token (expected : List (Option Token)) (select : Token → Option α) :
    (token expected select).Located := by
  intro input
  have hfail := arisesIn_unexpected input expected
  rw [token]
  dsimp only
  cases hlexemes : input.lexemes with
  | nil => exact hfail
  | cons lexeme rest =>
    dsimp only
    cases select lexeme.token with
    | none => exact hfail
    | some value =>
      refine ⟨⟨?_, rfl⟩, allIn_none input⟩
      rw [hlexemes]
      exact List.suffix_cons lexeme rest

/-- `endOfInput` fails at the next token. -/
theorem located_endOfInput : endOfInput.Located := by
  intro input
  have hfail := arisesIn_unexpected input [none]
  rw [endOfInput]
  dsimp only
  split
  · exact ⟨.refl input, allIn_none input⟩
  · exact hfail

/-- `rule.map f` fails where `rule` fails. -/
theorem Located.map {f : α → β} (h : rule.Located) : (rule.map f).Located := by
  intro input
  rw [Rule.map]
  dsimp only
  cases hrun : rule.run input with
  | ok value rest recovered => exact h.of_ok hrun
  | fail failure => exact h.of_fail hrun

/-- `rule.spanned f` fails where `rule` fails. -/
theorem Located.spanned {f : α → Span → β} (h : rule.Located) : (rule.spanned f).Located := by
  intro input
  rw [Rule.spanned]
  dsimp only
  cases hrun : rule.run input with
  | ok value rest recovered => exact h.of_ok hrun
  | fail failure => exact h.of_fail hrun

/-- `rule.labelled text` fails where `rule` fails, for a reason with a name. -/
theorem Located.labelled {text : String} (h : rule.Located) : (rule.labelled text).Located := by
  intro input
  rw [Rule.labelled]
  dsimp only
  cases hrun : rule.run input with
  | ok value rest recovered =>
    obtain ⟨hrest, hrecovered⟩ := h.of_ok hrun
    exact ⟨hrest, hrecovered.named text⟩
  | fail failure => exact (h.of_fail hrun).named text

/-- What the second thing fails with arose in what the first one left. -/
theorem Located.andThen (hfirst : first.Located) (hsecond : second.Located) :
    (first.andThen second).Located := by
  intro input
  rw [Rule.andThen]
  dsimp only
  cases hrun : first.run input with
  | fail failure => exact hfirst.of_fail hrun
  | ok a middle before =>
    obtain ⟨hmiddle, hbefore⟩ := hfirst.of_ok hrun
    dsimp only
    cases hrun' : second.run middle with
    | fail failure => exact ((hsecond.of_fail hrun').mono hmiddle).furtherOpt hbefore
    | ok b rest after =>
      obtain ⟨hrest, hafter⟩ := hsecond.of_ok hrun'
      exact ⟨hrest.trans hmiddle, hbefore.combine (hafter.mono hmiddle)⟩

/-- `first.thenSkip second` fails where one of the two fails. -/
theorem Located.thenSkip (hfirst : first.Located) (hsecond : second.Located) :
    (first.thenSkip second).Located :=
  (hfirst.andThen hsecond).map

/-- Alternatives start over from the same input. -/
theorem Located.orElse (hrule : rule.Located) (hother : other.Located) :
    (rule.orElse other).Located := by
  intro input
  rw [Rule.orElse]
  dsimp only
  cases hrun : rule.run input with
  | ok value rest recovered => exact hrule.of_ok hrun
  | fail a =>
    dsimp only
    cases hrun' : other.run input with
    | ok value rest recovered => exact hother.of_ok hrun'
    | fail b => exact (hrule.of_fail hrun).further (hother.of_fail hrun')

/-- `choiceFrom before rules` fails in the input, whatever was tried `before`. -/
theorem locatedIn_choiceFrom {rules : List (Rule α)} (h : ∀ rule ∈ rules, rule.Located)
    {input : Input} {before : Failure} (hbefore : before.ArisesIn input) :
    ((choiceFrom before rules).run input).LocatedIn input := by
  induction rules generalizing before with
  | nil => exact hbefore
  | cons rule rules ih =>
    obtain ⟨hrule, hrules⟩ := List.forall_mem_cons.mp h
    rw [choiceFrom]
    dsimp only
    cases hrun : rule.run input with
    | ok value rest recovered => exact hrule.of_ok hrun
    | fail failure => exact ih hrules ((hrule.of_fail hrun).further hbefore)

/-- `choice rules` fails where one of its alternatives fails, and without any at the next token. -/
theorem located_choice {rules : List (Rule α)} (h : ∀ rule ∈ rules, rule.Located) :
    (choice rules).Located := by
  intro input
  cases rules with
  | nil => exact arisesIn_unexpected input []
  | cons rule rules =>
    obtain ⟨hrule, hrules⟩ := List.forall_mem_cons.mp h
    rw [choice]
    dsimp only
    cases hrun : rule.run input with
    | ok value rest recovered => exact hrule.of_ok hrun
    | fail failure => exact locatedIn_choiceFrom hrules (hrule.of_fail hrun)

/-- `rule.optional` never fails, and recovers from what `rule` fails with. -/
theorem Located.optional (h : rule.Located) : rule.optional.Located := by
  intro input
  rw [Rule.optional]
  dsimp only
  cases hrun : rule.run input with
  | ok value rest recovered => exact h.of_ok hrun
  | fail failure => exact ⟨.refl input, allIn_some.mpr (h.of_fail hrun)⟩

/-- **The rounds of a repetition** stay in the input that the first one started from. -/
theorem Located.manyFrom (h : rule.Located) {start : Input} (before : Option Failure) (input : Input)
    (hinput : input.Follows start) (hbefore : AllIn before start) :
    (manyFrom rule before input).2.1.Follows start ∧
      AllIn (manyFrom rule before input).2.2 start := by
  induction before, input using manyFrom.induct rule with
  | case1 before input failure hrun =>
    rw [Rule.manyFrom, hrun]
    exact ⟨hinput, hbefore.combine (allIn_some.mpr ((h.of_fail hrun).mono hinput))⟩
  | case2 before input value rest recovered hrun hless values last after hrec ih =>
    obtain ⟨hrest, hrecovered⟩ := h.of_ok hrun
    rw [Rule.manyFrom, hrun]
    simp only [hless, if_true]
    exact ih (hrest.trans hinput) (hbefore.combine (hrecovered.mono hinput))
  | case3 before input value rest recovered hrun hstuck =>
    rw [Rule.manyFrom, hrun]
    simp only [hstuck, if_false]
    exact ⟨hinput, hbefore⟩

/-- `rule.many` never fails, and recovers from what its last round fails with. -/
theorem Located.many (h : rule.Located) : rule.many.Located :=
  fun input => h.manyFrom none input (.refl input) (allIn_none input)

/-- `rule.oneOrMore` fails where its first round fails. -/
theorem Located.oneOrMore (h : rule.Located) : rule.oneOrMore.Located := by
  intro input
  rw [Rule.oneOrMore]
  dsimp only
  cases hrun : rule.run input with
  | fail failure => exact h.of_fail hrun
  | ok value middle before =>
    obtain ⟨hmiddle, hbefore⟩ := h.of_ok hrun
    exact h.manyFrom before middle hmiddle hbefore

/-- The rounds of items after separators stay in the input that the first one started from. -/
theorem Located.sepByFrom (hitem : rule.Located) (hseparator : second.Located) {start : Input}
    (before : Option Failure) (input : Input) (hinput : input.Follows start)
    (hbefore : AllIn before start) :
    (sepByFrom rule second before input).2.1.Follows start ∧
      AllIn (sepByFrom rule second before input).2.2 start := by
  induction before, input using sepByFrom.induct rule second with
  | case1 before input failure hrun =>
    rw [Rule.sepByFrom, hrun]
    exact ⟨hinput, hbefore.combine (allIn_some.mpr ((hseparator.of_fail hrun).mono hinput))⟩
  | case2 before input skipped middle between hrun failure hrun' =>
    -- the separator is given back, and what was recovered from in it is kept
    obtain ⟨hmiddle, hbetween⟩ := hseparator.of_ok hrun
    have hfailure := ((hitem.of_fail hrun').mono hmiddle).mono hinput
    rw [Rule.sepByFrom, hrun]
    simp only [hrun']
    exact ⟨hinput, (hbefore.combine (hbetween.mono hinput)).combine (allIn_some.mpr hfailure)⟩
  | case3 before input skipped middle between hrun before' value rest recovered hrun' hless values
      last after hrec ih =>
    obtain ⟨hmiddle, hbetween⟩ := hseparator.of_ok hrun
    obtain ⟨hrest, hrecovered⟩ := hitem.of_ok hrun'
    have hfirst := hmiddle.trans hinput
    rw [Rule.sepByFrom, hrun]
    simp only [hrun', hless, if_true]
    exact ih (hrest.trans hfirst)
      ((hbefore.combine (hbetween.mono hinput)).combine (hrecovered.mono hfirst))
  | case4 before input skipped middle between hrun value rest recovered hrun' hstuck =>
    obtain ⟨hmiddle, hbetween⟩ := hseparator.of_ok hrun
    rw [Rule.sepByFrom, hrun]
    simp only [hrun', hstuck, if_false]
    exact ⟨hinput, hbefore.combine (hbetween.mono hinput)⟩

/-- `sepByOne rule second` fails where its first item fails. -/
theorem Located.sepByOne (hitem : rule.Located) (hseparator : second.Located) :
    (sepByOne rule second).Located := by
  intro input
  rw [Rule.sepByOne]
  dsimp only
  cases hrun : rule.run input with
  | fail failure => exact hitem.of_fail hrun
  | ok value middle before =>
    obtain ⟨hmiddle, hbefore⟩ := hitem.of_ok hrun
    exact hitem.sepByFrom hseparator before middle hmiddle hbefore

/-- **A text that a rule refuses** is refused at one of its tokens or at its end. -/
theorem Located.of_parse (h : rule.Located) {text : String} {failure : Failure}
    (hparse : rule.parse text = .error failure) : failure.ArisesIn (Input.ofText text) := by
  rw [parse] at hparse
  split at hparse
  · cases hparse
  · rename_i failed hrun
    cases hparse
    exact (h.thenSkip located_endOfInput).of_fail hrun

end Rule

/-! ## The rules of the grammar -/

mutual

/-- **Whether a script accepts what it reads.** A value that is refused for what it is fails over all
of its tokens, and not at one of them. -/
def Script.accepts : {α : Type} → Script α → Bool
  | _, .token .. => true
  | _, .endOfInput => true
  | _, .map _ script => script.accepts
  | _, .andThen first second => first.accepts && second.accepts
  | _, .orElse first second => first.accepts && second.accepts
  | _, .choice scripts => scripts.accept
  | _, .optional script => script.accepts
  | _, .many script => script.accepts
  | _, .oneOrMore script => script.accepts
  | _, .sepByOne item separator => item.accepts && separator.accepts
  | _, .labelled _ script => script.accepts
  | _, .spanned _ script => script.accepts
  | _, .require .. => false
  | _, .call _ => true

/-- Whether all alternatives accept what they read. -/
def Scripts.accept : {α : Type} → Scripts α → Bool
  | _, .nil => true
  | _, .cons script scripts => script.accepts && scripts.accept

end

section Located

variable {rules : Callee → Rule Expr}

mutual

/-- **Whatever a script fails with arose in its input**, given that this holds of the rules that are
entered by name. -/
theorem Script.located (entered : ∀ callee, (rules callee).Located) {α : Type} (script : Script α)
    (accepts : script.accepts = true) : (script.rule rules).Located :=
  match script with
  | .token expected select => Rule.located_token expected select
  | .endOfInput => Rule.located_endOfInput
  | .map _ script => (script.located entered accepts).map
  | .andThen first second => by
    -- nothing is refused in either of the two
    obtain ⟨hfirst, hsecond⟩ := Bool.and_eq_true_iff.mp accepts
    exact (first.located entered hfirst).andThen (second.located entered hsecond)
  | .orElse first second => by
    obtain ⟨hfirst, hsecond⟩ := Bool.and_eq_true_iff.mp accepts
    exact (first.located entered hfirst).orElse (second.located entered hsecond)
  | .choice scripts => Rule.located_choice (scripts.located entered accepts)
  | .optional script => (script.located entered accepts).optional
  | .many script => (script.located entered accepts).many
  | .oneOrMore script => (script.located entered accepts).oneOrMore
  | .sepByOne item separator => by
    obtain ⟨hitem, hseparator⟩ := Bool.and_eq_true_iff.mp accepts
    exact (item.located entered hitem).sepByOne (separator.located entered hseparator)
  | .labelled _ script => (script.located entered accepts).labelled
  | .spanned _ script => (script.located entered accepts).spanned
  | .require .. => nomatch accepts
  | .call callee => entered callee

/-- So does whatever one of several alternatives fails with. -/
theorem Scripts.located (entered : ∀ callee, (rules callee).Located) {α : Type}
    (scripts : Scripts α) (accept : scripts.accept = true) :
    ∀ rule ∈ scripts.rules rules, rule.Located :=
  match scripts with
  | .nil => List.forall_mem_nil _
  | .cons script scripts => by
    obtain ⟨hscript, hscripts⟩ := Bool.and_eq_true_iff.mp accept
    exact List.forall_mem_cons.mpr ⟨script.located entered hscript, scripts.located entered hscripts⟩

end

end Located

/-- At every level a rule that is entered fails where it should. -/
theorem Callee.leveled_located : Callee.Leveled Rule.Located where
  -- with no level left it fails at the next token
  stuck := fun input => Failure.arisesIn_unexpected input []
  byTokens h := fun input => h (input.left + 1) input
  written h := by
    refine ⟨Written.primary.located h rfl, fun callee => ?_⟩
    cases callee with
    | expression => exact Written.expression.located h rfl
    | unary => exact Written.unary.located h rfl

/-- **Whatever a text cannot be read as**, the failure arose at one of its tokens or at its end. What
is required to join or negate conditions may be refused for being something else. -/
theorem Construct.rule_located (construct : Construct) (notLogical : construct ≠ .logical) :
    construct.rule.Located := by
  rw [← construct.rule_script]
  refine construct.script.located Callee.leveled_located.rule ?_
  cases construct <;> first | rfl | contradiction

/-! ## Complaints -/

/-- **What a complaint about a text points at**: one of its tokens, or its end. -/
inductive Complaint.PointsAt (complaint : Complaint) (text : String) : Prop where
  /-- The span is that of a token, which is what was found. -/
  | token (lexeme : Lexeme) : lexeme ∈ lex text → complaint.span = lexeme.span →
      complaint.found = some lexeme.token.text → PointsAt complaint text
  /-- The text ended. -/
  | finish : complaint.span = ⟨text.length, text.length⟩ → complaint.found = none →
      PointsAt complaint text

/-- What a failure in the tokens of a text is told as points at one of them, or at the end of the
text. -/
theorem Failure.ArisesIn.pointsAt {failure : Failure} {text : String}
    (h : failure.ArisesIn (Input.ofText text)) : failure.toComplaint.PointsAt text := by
  obtain ⟨later, ⟨hsuffix, hstop⟩, -, hplace⟩ := h
  cases hlexemes : later.lexemes with
  | nil =>
    rw [hlexemes] at hplace
    refine .finish ?_ ?_
    · show failure.span = _
      rw [hplace.1, hstop]
      rfl
    · show failure.found.map Token.text = none
      rw [hplace.2]
      rfl
  | cons lexeme lexemes =>
    rw [hlexemes] at hplace hsuffix
    have hmem : lexeme ∈ lex text := hsuffix.subset List.mem_cons_self
    refine .token lexeme hmem hplace.1 ?_
    show failure.found.map Token.text = _
    rw [hplace.2]
    rfl

/-- **What parsing a text in one of the three forms comes to**: a tree and nothing to complain about,
or no tree and one complaint. -/
inductive Parsing (form : Form) (text : String) : Except Complaint ExprTree → Prop where
  /-- The tree of an expression. The check before linking passes, and the links are set. -/
  | parsed (expr : Expr) (tree : ExprTree) : parseExpr form text = .ok expr →
      (ExprTree.ofExpr expr).link = .ok tree → tree.Related → Parsing form text (.ok tree)
  /-- A complaint about a token or the end of the text. A plain list never comes to this. -/
  | refused (complaint : Complaint) : form ≠ .simpleList → complaint.PointsAt text →
      Parsing form text (.error complaint)

/-- What is no expression is refused at a token or at the end of the text. -/
theorem arisesIn_of_parseExpr {form : Form} {text : String} {failure : Failure}
    (h : parseExpr form text = .error failure) :
    form ≠ .simpleList ∧ failure.ArisesIn (Input.ofText text) := by
  cases form with
  | root => exact ⟨by decide, (Construct.rule_located .root (by decide)).of_parse h⟩
  | list =>
    have hparse := parseExpr_list_eq_error.mp h
    exact ⟨by decide, (Construct.rule_located .list (by decide)).of_parse hparse⟩
  | simpleList =>
    -- a plain list is read from any text
    obtain ⟨semicolons, hparse⟩ := Grammar.simpleList_total text
    rw [parseExpr_simpleList_eq_ok.mpr ⟨semicolons, hparse, rfl⟩] at h
    cases h

/-- **Not parsing is data of one shape.** For every text, in each of the three forms, there is either
a tree with its links set, or one complaint, about a token of the text and with that token's text, or
about the end of the text; plain lists always have a tree. -/
theorem parsing_parseAs (form : Form) (text : String) : Parsing form text (parseAs form text) := by
  rw [parseAs]
  cases hexpr : parseExpr form text with
  | ok expr =>
    obtain ⟨hevery, hroot⟩ := parseExpr_wellFormed hexpr
    have hnested := (ExprTree.placed_ofExpr hevery hroot).isNested
    refine .parsed expr _ hexpr ?_ (ExprTree.related_withLinks expr)
    rw [ExprTree.link, hnested]
    rfl
  | error failure =>
    obtain ⟨hform, harises⟩ := arisesIn_of_parseExpr hexpr
    exact .refused _ hform harises.pointsAt

end ProjectLens
