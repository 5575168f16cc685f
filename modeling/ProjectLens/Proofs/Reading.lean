import ProjectLens.Expression.Grammar
import ProjectLens.Proofs.Layout

/-! # What a rule reads

The outcome of a rule also says what would have been accepted elsewhere. Whether a rule succeeds, with
which value, and what it leaves does not depend on that, and this file states it apart:

* `Rule.Reads`, `Rule.Fails`: the two ways a run can end, of which exactly one holds;
* one law for each way of putting rules together, as an equivalence, so that it serves both to take a
  run apart and to build one;
* `Rule.Repeats`: the rounds of a repetition, which end where a round fails or reads nothing;
  `Rule.Row`: what each of them has in common. -/

namespace ProjectLens

namespace Rule

variable {α β : Type}

/-- The rule succeeds on `input` with `value` and leaves `rest`. -/
def Reads (rule : Rule α) (input : Input) (value : α) (rest : Input) : Prop :=
  ∃ recovered, rule.run input = .ok value rest recovered

/-- The rule does not succeed on `input`. -/
def Fails (rule : Rule α) (input : Input) : Prop := ∃ failure, rule.run input = .fail failure

/-- A rule reads one value at most. -/
theorem Reads.unique {rule : Rule α} {input rest rest' : Input} {value value' : α}
    (reads : rule.Reads input value rest) (reads' : rule.Reads input value' rest') :
    value = value' ∧ rest = rest' := by
  obtain ⟨recovered, ran⟩ := reads
  obtain ⟨recovered', ran'⟩ := reads'
  rw [ran] at ran'
  cases ran'
  exact ⟨rfl, rfl⟩

/-- A rule that reads does not fail. -/
theorem Reads.not_fails {rule : Rule α} {input rest : Input} {value : α}
    (reads : rule.Reads input value rest) : ¬ rule.Fails input := by
  rintro ⟨failure, failed⟩
  obtain ⟨recovered, ran⟩ := reads
  rw [ran] at failed
  cases failed

/-! ## Rules for one token -/

/-- A token rule reads the next token if that is one it selects. -/
theorem reads_token {expected : List (Option Token)} {select : Token → Option α} {input rest : Input}
    {value : α} :
    (token expected select).Reads input value rest ↔
      ∃ lexeme after, input.lexemes = lexeme :: after ∧ select lexeme.token = some value ∧
        rest = ⟨after, input.stop⟩ := by
  unfold Reads token
  cases hl : input.lexemes with
  | nil => simp [hl]
  | cons lexeme after =>
    cases hs : select lexeme.token with
    | none => simp [hl, hs]
    | some found =>
      simp only [hl, hs]
      constructor
      · rintro ⟨_, ⟨⟩⟩
        exact ⟨lexeme, after, rfl, hs, rfl⟩
      · rintro ⟨_, _, ⟨⟩, hs', rfl⟩
        cases hs.symm.trans hs'
        exact ⟨_, rfl⟩

/-- A token rule fails at the end of the text and at a token that it does not select. -/
theorem fails_token {expected : List (Option Token)} {select : Token → Option α} {input : Input} :
    (token expected select).Fails input ↔
      ∀ lexeme after, input.lexemes = lexeme :: after → select lexeme.token = none := by
  unfold Fails token
  cases hl : input.lexemes with
  | nil => simp [hl]
  | cons lexeme after =>
    cases hs : select lexeme.token with
    | none => simp [hl, hs]
    | some found => simp [hl, hs]

/-- `just` reads its token. -/
theorem reads_just {t : Token} {input rest : Input} {value : Unit} :
    (just t).Reads input value rest ↔
      ∃ lexeme after, input.lexemes = lexeme :: after ∧ lexeme.token = t ∧
        rest = ⟨after, input.stop⟩ := by
  simp [just, reads_token]

/-- `just` fails at any other token. -/
theorem fails_just {t : Token} {input : Input} :
    (just t).Fails input ↔
      ∀ lexeme after, input.lexemes = lexeme :: after → lexeme.token ≠ t := by
  simp [just, fails_token]

/-- `satisfying` reads a token with its property. -/
theorem reads_satisfying {p : Token → Bool} {input rest : Input} {value : Token} :
    (satisfying p).Reads input value rest ↔
      ∃ lexeme after, input.lexemes = lexeme :: after ∧ p lexeme.token = true ∧
        lexeme.token = value ∧ rest = ⟨after, input.stop⟩ := by
  simp [satisfying, reads_token, and_assoc]

/-- `satisfying` fails at a token without the property. -/
theorem fails_satisfying {p : Token → Bool} {input : Input} :
    (satisfying p).Fails input ↔
      ∀ lexeme after, input.lexemes = lexeme :: after → p lexeme.token = false := by
  simp [satisfying, fails_token]

/-- The end of the text is read where no token is left. -/
theorem reads_endOfInput {input rest : Input} {value : Unit} :
    endOfInput.Reads input value rest ↔ input.lexemes = [] ∧ rest = input := by
  unfold Reads endOfInput
  cases hl : input.lexemes with
  | nil => simp [hl, eq_comm]
  | cons lexeme after => simp [hl]

/-- The end of the text is missed where a token is left. -/
theorem fails_endOfInput {input : Input} : endOfInput.Fails input ↔ input.lexemes ≠ [] := by
  unfold Fails endOfInput
  cases hl : input.lexemes with
  | nil => simp [hl]
  | cons lexeme after => simp [hl]

/-! ## Values, labels and spans -/

/-- Changing the value changes nothing else. -/
theorem reads_map {rule : Rule α} {f : α → β} {input rest : Input} {value : β} :
    (rule.map f).Reads input value rest ↔ ∃ v, rule.Reads input v rest ∧ f v = value := by
  unfold Reads map
  cases h : rule.run input with
  | fail failure => simp [h]
  | ok v r recovered =>
    simp only [h]
    constructor
    · rintro ⟨_, ⟨⟩⟩
      exact ⟨v, ⟨_, rfl⟩, rfl⟩
    · rintro ⟨_, ⟨_, ⟨⟩⟩, rfl⟩
      exact ⟨_, rfl⟩

/-- `(rule.map f).Fails input ↔ rule.Fails input`. -/
theorem fails_map {rule : Rule α} {f : α → β} {input : Input} :
    (rule.map f).Fails input ↔ rule.Fails input := by
  unfold Fails map
  cases h : rule.run input <;> simp [h]

/-- A label changes failures only. -/
theorem reads_labelled {rule : Rule α} {text : String} {input rest : Input} {value : α} :
    (rule.labelled text).Reads input value rest ↔ rule.Reads input value rest := by
  unfold Reads labelled
  cases h : rule.run input <;> simp [h]

/-- `(rule.labelled text).Fails input ↔ rule.Fails input`. -/
theorem fails_labelled {rule : Rule α} {text : String} {input : Input} :
    (rule.labelled text).Fails input ↔ rule.Fails input := by
  unfold Fails labelled
  cases h : rule.run input <;> simp [h]

/-- The span of a value runs from where reading started to where it ended. -/
theorem reads_spanned {rule : Rule α} {f : α → Span → β} {input rest : Input} {value : β} :
    (rule.spanned f).Reads input value rest ↔
      ∃ v, rule.Reads input v rest ∧ f v ⟨input.offset, rest.offset⟩ = value := by
  unfold Reads spanned
  cases h : rule.run input with
  | fail failure => simp [h]
  | ok v r recovered =>
    simp only [h]
    constructor
    · rintro ⟨_, ⟨⟩⟩
      exact ⟨v, ⟨_, rfl⟩, rfl⟩
    · rintro ⟨_, ⟨_, ⟨⟩⟩, rfl⟩
      exact ⟨_, rfl⟩

/-- `(rule.spanned f).Fails input ↔ rule.Fails input`. -/
theorem fails_spanned {rule : Rule α} {f : α → Span → β} {input : Input} :
    (rule.spanned f).Fails input ↔ rule.Fails input := by
  unfold Fails spanned
  cases h : rule.run input <;> simp [h]

/-! ## One rule after another -/

/-- Reading one thing after another: the second starts where the first ended. -/
theorem reads_andThen {first : Rule α} {second : Rule β} {input rest : Input} {value : α × β} :
    (first.andThen second).Reads input value rest ↔
      ∃ middle, first.Reads input value.1 middle ∧ second.Reads middle value.2 rest := by
  obtain ⟨a, b⟩ := value
  unfold Reads andThen
  -- the second rule runs where the first one ends, and nowhere else
  cases h : first.run input with
  | fail failure => simp [h]
  | ok x middle before =>
    cases h' : second.run middle with
    | fail failure =>
      simp only [h, h']
      constructor
      · rintro ⟨_, ⟨⟩⟩
      · rintro ⟨middle', ⟨_, ⟨⟩⟩, ⟨_, ran⟩⟩
        rw [h'] at ran
        cases ran
    | ok y rest' after =>
      simp only [h, h']
      constructor
      · rintro ⟨_, ⟨⟩⟩
        exact ⟨middle, ⟨_, rfl⟩, ⟨_, h'⟩⟩
      · rintro ⟨middle', ⟨_, ⟨⟩⟩, ⟨_, ran⟩⟩
        rw [h'] at ran
        cases ran
        exact ⟨_, rfl⟩

/-- Reading one thing after another fails where the first fails, or the second after it. -/
theorem fails_andThen {first : Rule α} {second : Rule β} {input : Input} :
    (first.andThen second).Fails input ↔
      first.Fails input ∨ ∃ value middle, first.Reads input value middle ∧ second.Fails middle := by
  unfold Fails Reads andThen
  cases h : first.run input with
  | fail failure => simp [h]
  | ok x middle before =>
    cases h' : second.run middle with
    | fail failure =>
      simp only [h, h']
      exact ⟨fun _ => Or.inr ⟨x, middle, ⟨_, rfl⟩, ⟨_, h'⟩⟩, fun _ => ⟨_, rfl⟩⟩
    | ok y rest after =>
      simp only [h, h']
      constructor
      · rintro ⟨_, ⟨⟩⟩
      · rintro (⟨_, ⟨⟩⟩ | ⟨_, _, ⟨_, ⟨⟩⟩, ⟨_, ran⟩⟩)
        rw [h'] at ran
        cases ran

/-- `skipThen` reads what its second rule reads where its first one ends. -/
theorem reads_skipThen {first : Rule α} {second : Rule β} {input rest : Input} {value : β} :
    (first.skipThen second).Reads input value rest ↔
      ∃ skipped middle, first.Reads input skipped middle ∧ second.Reads middle value rest := by
  simp only [skipThen, reads_map, reads_andThen]
  constructor
  · rintro ⟨⟨skipped, _⟩, ⟨middle, hfirst, hsecond⟩, rfl⟩
    exact ⟨skipped, middle, hfirst, hsecond⟩
  · rintro ⟨skipped, middle, hfirst, hsecond⟩
    exact ⟨(skipped, value), ⟨middle, hfirst, hsecond⟩, rfl⟩

/-- `skipThen` fails with its first rule, or with its second where the first one ends. -/
theorem fails_skipThen {first : Rule α} {second : Rule β} {input : Input} :
    (first.skipThen second).Fails input ↔
      first.Fails input ∨ ∃ skipped middle, first.Reads input skipped middle ∧
        second.Fails middle := by
  simp only [skipThen, fails_map, fails_andThen]

/-- `thenSkip` reads what its first rule reads, on to where its second one ends. -/
theorem reads_thenSkip {first : Rule α} {second : Rule β} {input rest : Input} {value : α} :
    (first.thenSkip second).Reads input value rest ↔
      ∃ skipped middle, first.Reads input value middle ∧ second.Reads middle skipped rest := by
  simp only [thenSkip, reads_map, reads_andThen]
  constructor
  · rintro ⟨⟨_, skipped⟩, ⟨middle, hfirst, hsecond⟩, rfl⟩
    exact ⟨skipped, middle, hfirst, hsecond⟩
  · rintro ⟨skipped, middle, hfirst, hsecond⟩
    exact ⟨(value, skipped), ⟨middle, hfirst, hsecond⟩, rfl⟩

/-- `thenSkip` fails with its first rule, or with its second where the first one ends. -/
theorem fails_thenSkip {first : Rule α} {second : Rule β} {input : Input} :
    (first.thenSkip second).Fails input ↔
      first.Fails input ∨ ∃ value middle, first.Reads input value middle ∧
        second.Fails middle := by
  simp only [thenSkip, fails_map, fails_andThen]

/-! ## Alternatives -/

/-- The second of two rules counts only where the first fails. -/
theorem reads_orElse {first second : Rule α} {input rest : Input} {value : α} :
    (first.orElse second).Reads input value rest ↔
      first.Reads input value rest ∨ first.Fails input ∧ second.Reads input value rest := by
  unfold Reads Fails orElse
  cases h : first.run input with
  | ok v r recovered => simp [h]
  | fail failure => cases h' : second.run input <;> simp [h, h']

/-- `(first.orElse second).Fails input ↔ first.Fails input ∧ second.Fails input`. -/
theorem fails_orElse {first second : Rule α} {input : Input} :
    (first.orElse second).Fails input ↔ first.Fails input ∧ second.Fails input := by
  unfold Fails orElse
  cases h : first.run input with
  | ok v r recovered => simp [h]
  | fail failure => cases h' : second.run input <;> simp [h, h']

/-- What earlier alternatives failed with does not change what a later one reads. -/
private theorem run_choiceFrom (before : Failure) (rules : List (Rule α)) (input : Input) :
    (∀ value rest, (choiceFrom before rules).Reads input value rest ↔
      (choice rules).Reads input value rest) ∧
    ((choiceFrom before rules).Fails input ↔ (choice rules).Fails input) := by
  induction rules generalizing before with
  | nil => simp [Reads, Fails, choiceFrom, choice]
  | cons rule rules ih =>
    unfold Reads Fails choiceFrom choice
    cases h : rule.run input with
    | ok v r recovered => simp [h]
    | fail failure =>
      simp only [h]
      have left := ih (failure.further before)
      have right := ih failure
      refine ⟨fun value rest => ?_, ?_⟩
      · exact (left.1 value rest).trans (right.1 value rest).symm
      · exact left.2.trans right.2.symm

/-- A choice without alternatives reads nothing. -/
theorem reads_choice_nil {input rest : Input} {value : α} :
    (choice ([] : List (Rule α))).Reads input value rest ↔ False := by
  simp [Reads, choice]

/-- **Ordered choice**: an alternative counts only where the ones before it fail. -/
theorem reads_choice_cons {rule : Rule α} {rules : List (Rule α)} {input rest : Input} {value : α} :
    (choice (rule :: rules)).Reads input value rest ↔
      rule.Reads input value rest ∨ rule.Fails input ∧ (choice rules).Reads input value rest := by
  have later (failure : Failure) := (run_choiceFrom failure rules input).1 value rest
  unfold Reads at later
  unfold Reads Fails
  rw [choice]
  cases h : rule.run input with
  | ok v r recovered => simp [h]
  | fail failure => simp [h, later failure]

/-- A choice fails where every alternative does. -/
theorem fails_choice {rules : List (Rule α)} {input : Input} :
    (choice rules).Fails input ↔ ∀ rule ∈ rules, rule.Fails input := by
  induction rules with
  | nil => simp [Fails, choice]
  | cons rule rules ih =>
    -- later alternatives run with a failure to report, which does not change how they end
    have later (failure : Failure) := (run_choiceFrom failure rules input).2.trans ih
    simp only [List.forall_mem_cons]
    unfold Fails at later ⊢
    rw [choice]
    cases h : rule.run input with
    | ok v r recovered => simp [h]
    | fail failure => simp [h, later failure]

/-- What is optional is read if it is there; otherwise nothing is. -/
theorem reads_optional {rule : Rule α} {input rest : Input} {value : Option α} :
    rule.optional.Reads input value rest ↔
      (∃ v, value = some v ∧ rule.Reads input v rest) ∨
        value = none ∧ rule.Fails input ∧ rest = input := by
  unfold Reads Fails optional
  cases h : rule.run input with
  | ok v r recovered =>
    simp only [h]
    constructor
    · rintro ⟨_, ⟨⟩⟩
      exact Or.inl ⟨v, rfl, _, rfl⟩
    · rintro (⟨_, rfl, _, ⟨⟩⟩ | ⟨_, ⟨_, ⟨⟩⟩, _⟩)
      exact ⟨_, rfl⟩
  | fail failure =>
    simp only [h]
    constructor
    · rintro ⟨_, ⟨⟩⟩
      exact Or.inr ⟨rfl, ⟨_, rfl⟩, rfl⟩
    · rintro (⟨_, _, _, ⟨⟩⟩ | ⟨rfl, _, rfl⟩)
      exact ⟨_, rfl⟩

/-! ## Repetition -/

/-- **The rounds of a repetition.** -/
inductive Repeats (rule : Rule α) : Input → List α → Input → Prop where
  /-- A round that fails is the last one and reads nothing. -/
  | done {input : Input} : rule.Fails input → Repeats rule input [] input
  /-- A round that would take no token is the last one. -/
  | stuck {input rest : Input} {value : α} :
      rule.Reads input value rest → ¬ rest.left < input.left → Repeats rule input [] input
  /-- A round that takes a token is followed by others. -/
  | step {input middle rest : Input} {value : α} {values : List α} :
      rule.Reads input value middle → middle.left < input.left →
      Repeats rule middle values rest → Repeats rule input (value :: values) rest

/-- Tokens in a row, each part with its value and what is left after it. -/
inductive Row (P : List Lexeme → α → List Lexeme → Prop) :
    List Lexeme → List α → List Lexeme → Prop where
  /-- No part. -/
  | nil {left : List Lexeme} : Row P [] [] left
  /-- One part, then others. -/
  | cons {used more left : List Lexeme} {value : α} {values : List α} :
      P used value (more ++ left) → Row P more values left →
      Row P (used ++ more) (value :: values) left

/-- What each value of a row is may be replaced by what it implies. -/
theorem Row.mono {P Q : List Lexeme → α → List Lexeme → Prop} {used left : List Lexeme}
    {values : List α} (row : Row P used values left) (hpq : ∀ used value left, P used value left →
      Q used value left) : Row Q used values left := by
  induction row with
  | nil => exact .nil
  | cons h _ ih => exact .cons (hpq _ _ _ h) ih

/-- One value is a row. -/
theorem Row.single {P : List Lexeme → α → List Lexeme → Prop} {used left : List Lexeme} {value : α}
    (h : P used value left) : Row P used [value] left := by
  have row : Row P (used ++ []) [value] left := .cons h .nil
  rwa [List.append_nil] at row

/-- A row may go on with another one. -/
theorem Row.append {P : List Lexeme → α → List Lexeme → Prop} {used more left : List Lexeme}
    {values later : List α} (row : Row P used values (more ++ left)) (row' : Row P more later left) :
    Row P (used ++ more) (values ++ later) left := by
  -- what is left after each part of the first row includes all of the second one
  generalize hrest : more ++ left = rest at row
  induction row with
  | nil => exact row'
  | cons h _ ih =>
    subst hrest
    rw [List.append_assoc, List.cons_append]
    rw [← List.append_assoc] at h
    exact .cons h (ih rfl)

/-- What `manyFrom` gives are the rounds of its rule. -/
private theorem repeats_manyFrom (rule : Rule α) (before : Option Failure) (input : Input) :
    Repeats rule input (manyFrom rule before input).1 (manyFrom rule before input).2.1 := by
  induction before, input using manyFrom.induct rule with
  | case1 before input failure h =>
    rw [manyFrom, h]
    exact .done ⟨failure, h⟩
  | case2 before input value rest recovered h hlt values last after hrec ih =>
    rw [manyFrom, h]
    simp only [hlt, if_true]
    exact .step ⟨recovered, h⟩ hlt ih
  | case3 before input value rest recovered h hle =>
    rw [manyFrom, h]
    simp only [hle, if_false]
    exact .stuck ⟨recovered, h⟩ hle

/-- The rounds of a rule are what `manyFrom` gives, whatever was recovered from before. -/
private theorem manyFrom_of_repeats {rule : Rule α} {input rest : Input} {values : List α}
    (rounds : Repeats rule input values rest) (before : Option Failure) :
    ∃ after, manyFrom rule before input = (values, rest, after) := by
  induction rounds generalizing before with
  | done fails =>
    obtain ⟨failure, h⟩ := fails
    rw [manyFrom, h]
    exact ⟨_, rfl⟩
  | stuck reads hle =>
    obtain ⟨recovered, h⟩ := reads
    rw [manyFrom, h]
    simp only [hle, if_false]
    exact ⟨_, rfl⟩
  | step reads hlt _ ih =>
    obtain ⟨recovered, h⟩ := reads
    obtain ⟨after, hafter⟩ := ih (Failure.combine before recovered)
    rw [manyFrom, h]
    simp only [hlt, if_true, hafter]
    exact ⟨_, rfl⟩

/-- `many` reads the rounds of its rule. -/
theorem reads_many {rule : Rule α} {input rest : Input} {values : List α} :
    rule.many.Reads input values rest ↔ Repeats rule input values rest := by
  constructor
  · rintro ⟨recovered, h⟩
    have rounds := repeats_manyFrom rule none input
    cases h
    exact rounds
  · intro rounds
    obtain ⟨after, h⟩ := manyFrom_of_repeats rounds none
    exact ⟨after, by simp only [many, h]⟩

/-- `oneOrMore` reads its rule once, and then the rounds of its rule. -/
theorem reads_oneOrMore {rule : Rule α} {input rest : Input} {values : List α} :
    rule.oneOrMore.Reads input values rest ↔
      ∃ first middle later, rule.Reads input first middle ∧ Repeats rule middle later rest ∧
        values = first :: later := by
  constructor
  · rintro ⟨recovered, h⟩
    unfold oneOrMore at h
    cases hr : rule.run input with
    | fail failure => simp [hr] at h
    | ok first middle before =>
      have rounds := repeats_manyFrom rule before middle
      simp only [hr] at h
      cases h
      exact ⟨first, middle, _, ⟨before, hr⟩, rounds, rfl⟩
  · rintro ⟨first, middle, later, ⟨before, hr⟩, rounds, rfl⟩
    obtain ⟨after, h⟩ := manyFrom_of_repeats rounds before
    exact ⟨after, by simp only [oneOrMore, hr, h]⟩

/-- `rule.oneOrMore.Fails input ↔ rule.Fails input`. -/
theorem fails_oneOrMore {rule : Rule α} {input : Input} :
    rule.oneOrMore.Fails input ↔ rule.Fails input := by
  unfold Fails oneOrMore
  cases h : rule.run input <;> simp [h]

/-- Further items after separators are the rounds of "separator, then item". -/
private theorem sepByFrom_repeats (item : Rule α) (separator : Rule β) (before : Option Failure)
    (input : Input) :
    Repeats (separator.skipThen item) input (sepByFrom item separator before input).1
      (sepByFrom item separator before input).2.1 := by
  induction before, input using sepByFrom.induct item separator with
  | case1 before input failure h =>
    rw [sepByFrom, h]
    exact .done (fails_skipThen.mpr (Or.inl ⟨failure, h⟩))
  | case2 before input skipped middle between h failure h' =>
    rw [sepByFrom, h]
    simp only [h']
    exact .done (fails_skipThen.mpr (Or.inr ⟨skipped, middle, ⟨between, h⟩, failure, h'⟩))
  | case3 before input skipped middle between h _ value rest recovered h' hlt values last after
      hrec ih =>
    rw [sepByFrom, h]
    simp only [h', hlt, if_true]
    exact .step (reads_skipThen.mpr ⟨skipped, middle, ⟨between, h⟩, recovered, h'⟩) hlt ih
  | case4 before input skipped middle between h value rest recovered h' hle =>
    rw [sepByFrom, h]
    simp only [h', hle, if_false]
    exact .stuck (reads_skipThen.mpr ⟨skipped, middle, ⟨between, h⟩, recovered, h'⟩) hle

/-- The rounds of "separator, then item" are the further items. -/
private theorem sepByFrom_of_repeats {item : Rule α} {separator : Rule β} {input rest : Input}
    {values : List α} (rounds : Repeats (separator.skipThen item) input values rest)
    (before : Option Failure) :
    ∃ after, sepByFrom item separator before input = (values, rest, after) := by
  -- the loop keeps a failure along with the values, which does not matter to them
  induction rounds generalizing before with
  | done fails =>
    rcases fails_skipThen.mp fails with ⟨failure, h⟩ | ⟨skipped, middle, ⟨between, h⟩, failure, h'⟩
    · rw [sepByFrom, h]
      exact ⟨_, rfl⟩
    · rw [sepByFrom, h]
      simp only [h']
      exact ⟨_, rfl⟩
  | stuck reads hle =>
    obtain ⟨skipped, middle, ⟨between, h⟩, recovered, h'⟩ := reads_skipThen.mp reads
    rw [sepByFrom, h]
    simp only [h', hle, if_false]
    exact ⟨_, rfl⟩
  | step reads hlt _ ih =>
    obtain ⟨skipped, middle, ⟨between, h⟩, recovered, h'⟩ := reads_skipThen.mp reads
    obtain ⟨after, hafter⟩ :=
      ih (Failure.combine (Failure.combine before between) recovered)
    rw [sepByFrom, h]
    simp only [h', hlt, if_true, hafter]
    exact ⟨_, rfl⟩

/-- `sepByOne` reads an item, and then rounds of a separator and an item. -/
theorem reads_sepByOne {item : Rule α} {separator : Rule β} {input rest : Input}
    {values : List α} :
    (sepByOne item separator).Reads input values rest ↔
      ∃ first middle later, item.Reads input first middle ∧
        Repeats (separator.skipThen item) middle later rest ∧ values = first :: later := by
  constructor
  · rintro ⟨recovered, h⟩
    unfold sepByOne at h
    cases hr : item.run input with
    | fail failure => simp [hr] at h
    | ok first middle before =>
      have rounds := sepByFrom_repeats item separator before middle
      simp only [hr] at h
      cases h
      exact ⟨first, middle, _, ⟨before, hr⟩, rounds, rfl⟩
  · rintro ⟨first, middle, later, ⟨before, hr⟩, rounds, rfl⟩
    obtain ⟨after, h⟩ := sepByFrom_of_repeats rounds before
    exact ⟨after, by simp only [sepByOne, hr, h]⟩

/-- `(sepByOne item separator).Fails input ↔ item.Fails input`. -/
theorem fails_sepByOne {item : Rule α} {separator : Rule β} {input : Input} :
    (sepByOne item separator).Fails input ↔ item.Fails input := by
  unfold Fails sepByOne
  cases h : item.run input <;> simp [h]

/-- `sepBy` reads items with separators between them, or nothing where no item is. -/
theorem reads_sepBy {item : Rule α} {separator : Rule β} {input rest : Input} {values : List α} :
    (sepBy item separator).Reads input values rest ↔
      (sepByOne item separator).Reads input values rest ∨
        values = [] ∧ item.Fails input ∧ rest = input := by
  simp only [sepBy, reads_map, reads_optional, fails_sepByOne]
  constructor
  · rintro ⟨_, ⟨v, rfl, reads⟩ | ⟨rfl, fails, rfl⟩, rfl⟩
    · exact Or.inl reads
    · exact Or.inr ⟨rfl, fails, rfl⟩
  · rintro (reads | ⟨rfl, fails, rfl⟩)
    · exact ⟨some values, Or.inl ⟨values, rfl, reads⟩, rfl⟩
    · exact ⟨none, Or.inr ⟨rfl, fails, rfl⟩, rfl⟩

/-- The rounds of `satisfying` take every token with the property, up to the first one without. -/
theorem repeats_satisfying {p : Token → Bool} {stop : Nat} {lexemes : List Lexeme}
    {values : List Token} {rest : Input} :
    Repeats (satisfying p) ⟨lexemes, stop⟩ values rest ↔
      values = (lexemes.takeWhile fun lexeme => p lexeme.token).map Lexeme.token ∧
        rest = ⟨lexemes.dropWhile fun lexeme => p lexeme.token, stop⟩ := by
  constructor
  · intro rounds
    -- the induction is over the rounds, each of which starts with one token less
    generalize hinput : Input.mk lexemes stop = input at rounds
    induction rounds generalizing lexemes with
    | done fails =>
      subst hinput
      cases lexemes with
      | nil => exact ⟨rfl, rfl⟩
      | cons lexeme after =>
        have hp := fails_satisfying.mp fails lexeme after rfl
        simp [hp]
    | stuck reads hle =>
      -- a round takes a token whenever it succeeds
      subst hinput
      obtain ⟨lexeme, after, rfl, -, -, rfl⟩ := reads_satisfying.mp reads
      exact absurd (Nat.lt_succ_self after.length) hle
    | step reads _ _ ih =>
      subst hinput
      obtain ⟨lexeme, after, rfl, hp, rfl, rfl⟩ := reads_satisfying.mp reads
      obtain ⟨rfl, rfl⟩ := ih rfl
      simp [hp]
  · rintro ⟨rfl, rfl⟩
    induction lexemes with
    | nil => exact .done (fails_satisfying.mpr (by simp))
    | cons lexeme after ih =>
      by_cases hp : p lexeme.token = true
      · simp only [List.takeWhile_cons, List.dropWhile_cons, hp, if_true, List.map_cons]
        exact .step (reads_satisfying.mpr ⟨lexeme, after, rfl, hp, rfl, rfl⟩)
          (Nat.lt_succ_self after.length) ih
      · simp only [List.takeWhile_cons, List.dropWhile_cons, hp]
        refine .done (fails_satisfying.mpr ?_)
        rintro _ _ ⟨⟩
        simpa using hp

/-- A text parses exactly when the rule reads all of it. -/
theorem parse_eq_ok {rule : Rule α} {text : String} {value : α} :
    rule.parse text = .ok value ↔
      ∃ rest, rule.Reads (Input.ofText text) value rest ∧ rest.lexemes = [] := by
  have whole : rule.parse text = .ok value ↔
      ∃ rest, (rule.thenSkip endOfInput).Reads (Input.ofText text) value rest := by
    unfold parse Reads
    cases h : (rule.thenSkip endOfInput).run (Input.ofText text) <;> simp
  rw [whole]
  simp only [reads_thenSkip, reads_endOfInput]
  constructor
  · rintro ⟨rest, _, middle, reads, hend, rfl⟩
    exact ⟨rest, reads, hend⟩
  · rintro ⟨rest, reads, hend⟩
    exact ⟨rest, (), rest, reads, hend, rfl⟩

end Rule

/-! ## White space and names -/

namespace Grammar

open Rule

/-- White space is skipped as far as it goes. -/
theorem reads_ws {lexemes : List Lexeme} {stop : Nat} {value : Unit} {rest : Input} :
    ws.Reads ⟨lexemes, stop⟩ value rest ↔ rest = ⟨skipBlank lexemes, stop⟩ := by
  simp [ws, reads_map, reads_many, repeats_satisfying, skipBlank]

/-- An identifier is read from one token. -/
theorem reads_identifier {input rest : Input} {name : String} :
    identifier.Reads input name rest ↔
      ∃ lexeme after, input.lexemes = lexeme :: after ∧ lexeme.token = .identifier name ∧
        rest = ⟨after, input.stop⟩ := by
  simp only [identifier, reads_labelled, reads_token]
  constructor
  · rintro ⟨lexeme, after, hl, hselect, hrest⟩
    split at hselect
    · next htoken =>
      cases hselect
      exact ⟨lexeme, after, hl, htoken, hrest⟩
    · cases hselect
  · rintro ⟨lexeme, after, hl, htoken, hrest⟩
    exact ⟨lexeme, after, hl, by rw [htoken], hrest⟩

/-- Only an identifier is read as one. -/
theorem fails_identifier {input : Input} :
    identifier.Fails input ↔
      ∀ lexeme after, input.lexemes = lexeme :: after → ∀ name, lexeme.token ≠ .identifier name := by
  simp only [identifier, fails_labelled, fails_token]
  constructor
  · intro h lexeme after hl name htoken
    have := h lexeme after hl
    rw [htoken] at this
    cases this
  · intro h lexeme after hl
    split
    · next name htoken => exact absurd htoken (h lexeme after hl name)
    · rfl

/-- A keyword is read from one token. -/
theorem reads_keyword {word : String} {input rest : Input} {value : Unit} :
    (keyword word).Reads input value rest ↔
      ∃ lexeme after, input.lexemes = lexeme :: after ∧ lexeme.token.isKeyword word = true ∧
        rest = ⟨after, input.stop⟩ := by
  simp only [keyword, reads_labelled, reads_map, reads_satisfying]
  constructor
  · rintro ⟨_, ⟨lexeme, after, hl, hword, -, hrest⟩, -⟩
    exact ⟨lexeme, after, hl, hword, hrest⟩
  · rintro ⟨lexeme, after, hl, hword, hrest⟩
    exact ⟨lexeme.token, ⟨lexeme, after, hl, hword, rfl, hrest⟩, trivial⟩

/-- Only the keyword itself is read as one. -/
theorem fails_keyword {word : String} {input : Input} :
    (keyword word).Fails input ↔
      ∀ lexeme after, input.lexemes = lexeme :: after →
        lexeme.token.isKeyword word = false := by
  simp [keyword, fails_labelled, fails_map, fails_satisfying]

/-- Digits are read from one token. -/
theorem reads_digits {input rest : Input} {text : String} :
    digits.Reads input text rest ↔
      ∃ lexeme after, input.lexemes = lexeme :: after ∧ lexeme.token = .number text ∧
        rest = ⟨after, input.stop⟩ := by
  simp only [digits, reads_token]
  constructor
  · rintro ⟨lexeme, after, hl, hselect, hrest⟩
    split at hselect
    · next htoken =>
      cases hselect
      exact ⟨lexeme, after, hl, htoken, hrest⟩
    · cases hselect
  · rintro ⟨lexeme, after, hl, htoken, hrest⟩
    exact ⟨lexeme, after, hl, by rw [htoken], hrest⟩

/-- Only digits are read as such. -/
theorem fails_digits {input : Input} :
    digits.Fails input ↔
      ∀ lexeme after, input.lexemes = lexeme :: after → ∀ text, lexeme.token ≠ .number text := by
  simp only [digits, fails_token]
  constructor
  · intro h lexeme after hl text htoken
    have := h lexeme after hl
    rw [htoken] at this
    cases this
  · intro h lexeme after hl
    split
    · next text htoken => exact absurd htoken (h lexeme after hl text)
    · rfl

end Grammar

end ProjectLens
