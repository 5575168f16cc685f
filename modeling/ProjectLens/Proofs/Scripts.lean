import ProjectLens.Proofs.Progress

/-! # Rules as they are written

A rule is a function, and a function does not show which rules it is put together from, how often it
goes round or where it comes back to itself. A script shows that. It can be run with every step
checked: a round of a repetition has to take a token, and so has whatever stands before a rule is
entered again.

* `Script`, `Script.rule`: what is written, and the rule that it stands for;
* `Halt`, `Checked`: a way to read that may stop short, and how such ways are put together;
* `Checked.Follows`: a way to read that does what a rule does, with one law for each way of putting
  rules together. -/

namespace ProjectLens

/-- The rules that are entered again from inside. -/
inductive Callee where
  /-- An expression, in parentheses. -/
  | expression
  /-- A primary after any number of negations, behind a negation. -/
  | unary
  deriving DecidableEq, Repr

mutual

/-- **A rule as it is written.** -/
inductive Script : Type → Type 1 where
  /-- One token. -/
  | token {α : Type} (expected : List (Option Token)) (select : Token → Option α) : Script α
  /-- The end of the text. -/
  | endOfInput : Script Unit
  /-- Another value. -/
  | map {α β : Type} (f : α → β) (script : Script α) : Script β
  /-- One thing after another. -/
  | andThen {α β : Type} (first : Script α) (second : Script β) : Script (α × β)
  /-- The first of two that succeeds. -/
  | orElse {α : Type} (first second : Script α) : Script α
  /-- The first of several that succeeds. -/
  | choice {α : Type} (scripts : Scripts α) : Script α
  /-- Something if it is there. -/
  | optional {α : Type} (script : Script α) : Script (Option α)
  /-- As many as there are. -/
  | many {α : Type} (script : Script α) : Script (List α)
  /-- As many as there are, at least one. -/
  | oneOrMore {α : Type} (script : Script α) : Script (List α)
  /-- Items with separators between them, at least one. -/
  | sepByOne {α β : Type} (item : Script α) (separator : Script β) : Script (List α)
  /-- A construct with a name. -/
  | labelled {α : Type} (text : String) (script : Script α) : Script α
  /-- The value with its span. -/
  | spanned {α β : Type} (f : α → Span → β) (script : Script α) : Script β
  /-- A value with a property. -/
  | require {α : Type} (p : α → Bool) (reason : String) (script : Script α) : Script α
  /-- A rule that is entered by its name. -/
  | call (callee : Callee) : Script Expr

/-- Alternatives in order. -/
inductive Scripts : Type → Type 1 where
  /-- None. -/
  | nil {α : Type} : Scripts α
  /-- One before others. -/
  | cons {α : Type} (script : Script α) (scripts : Scripts α) : Scripts α

end

namespace Script

variable {α β : Type}

/-- Exactly this token. -/
def just (t : Token) : Script Unit := token [some t] fun found => if found = t then some () else none

/-- A token with a property. -/
def satisfying (p : Token → Bool) : Script Token :=
  token [] fun found => if p found then some found else none

/-- One thing after another; the second is kept. -/
def skipThen (first : Script α) (second : Script β) : Script β := (first.andThen second).map Prod.snd

/-- One thing after another; the first is kept. -/
def thenSkip (first : Script α) (second : Script β) : Script α := (first.andThen second).map Prod.fst

/-- Items with separators between them. -/
def sepBy (item : Script α) (separator : Script β) : Script (List α) :=
  (item.sepByOne separator).optional.map fun values => values.getD []

end Script

/-! ## What is written stands for a rule -/

section Rule

variable (rules : Callee → Rule Expr)

mutual

/-- The rule that a script stands for, given those that are entered by name. -/
def Script.rule : {α : Type} → Script α → Rule α
  | _, .token expected select => Rule.token expected select
  | _, .endOfInput => Rule.endOfInput
  | _, .map f script => script.rule.map f
  | _, .andThen first second => first.rule.andThen second.rule
  | _, .orElse first second => first.rule.orElse second.rule
  | _, .choice scripts => Rule.choice scripts.rules
  | _, .optional script => script.rule.optional
  | _, .many script => script.rule.many
  | _, .oneOrMore script => script.rule.oneOrMore
  | _, .sepByOne item separator => item.rule.sepByOne separator.rule
  | _, .labelled text script => script.rule.labelled text
  | _, .spanned f script => script.rule.spanned f
  | _, .require p reason script => script.rule.require p reason
  | _, .call callee => rules callee

/-- The rules that alternatives stand for. -/
def Scripts.rules : {α : Type} → Scripts α → List (Rule α)
  | _, .nil => []
  | _, .cons script scripts => script.rule :: scripts.rules

end

end Rule

/-! ## Checked runs -/

/-- Why a checked run stops short. -/
inductive Halt where
  /-- Rules are entered within each other more often than allowed. -/
  | deep
  /-- A rule is entered again before a token is taken. -/
  | idleCall
  /-- A round of a repetition takes no token. -/
  | idleRound
  deriving DecidableEq, Repr

/-- A way to read that may stop short. -/
abbrev Checked (α : Type) : Type := Input → Except Halt (Outcome α)

namespace Checked

variable {α β : Type}

/-- What is read is handed on as a rule hands on what another one reads. -/
def through (wrap : Rule α → Rule β) (read : Checked α) : Checked β := fun input =>
  (read input).map fun outcome => (wrap ⟨fun _ => outcome⟩).run input

/-- Reads one thing after another. -/
def andThen (first : Checked α) (second : Checked β) : Checked (α × β) := fun input => do
  match ← first input with
  | .fail failure => return .fail failure
  | .ok a middle before =>
    match ← second middle with
    | .fail failure => return .fail (failure.furtherOpt before)
    | .ok b rest after => return .ok (a, b) rest (Failure.combine before after)

/-- Reads in the first way, or in the second one where the first fails. -/
def orElse (first second : Checked α) : Checked α := fun input => do
  match ← first input with
  | .ok value rest recovered => return .ok value rest recovered
  | .fail a =>
    match ← second input with
    | .ok value rest recovered => return .ok value rest recovered
    | .fail b => return .fail (a.further b)

/-- Reads as many as there are; every round has to take a token. -/
def rounds (read : Checked α) (before : Option Failure) (input : Input) :
    Except Halt (List α × Input × Option Failure) :=
  match read input with
  | .error halt => .error halt
  | .ok (.fail failure) => .ok ([], input, Failure.combine before (some failure))
  | .ok (.ok value rest recovered) =>
    if rest.left < input.left then
      (rounds read (Failure.combine before recovered) rest).map
        fun (values, last, after) => (value :: values, last, after)
    else .error .idleRound
termination_by input.left

/-- A round that takes nothing stops the run. -/
example : rounds (fun input => .ok (.ok () input none)) none ⟨[], 0⟩ = .error .idleRound := by cbv

/-- Reads further items, each after a separator; both together have to take a token. -/
def separated (item : Checked α) (separator : Checked β) (before : Option Failure) (input : Input) :
    Except Halt (List α × Input × Option Failure) :=
  match separator input with
  | .error halt => .error halt
  | .ok (.fail failure) => .ok ([], input, Failure.combine before (some failure))
  | .ok (.ok _ middle between) =>
    let before := Failure.combine before between
    match item middle with
    | .error halt => .error halt
    | .ok (.fail failure) => .ok ([], input, Failure.combine before (some failure))
    | .ok (.ok value rest recovered) =>
      if rest.left < input.left then
        (separated item separator (Failure.combine before recovered) rest).map
          fun (values, last, after) => (value :: values, last, after)
      else .error .idleRound
termination_by input.left

/-- Reads a first item, which has to take a token, and then what `later` reads. -/
def first (item : Checked α)
    (later : Option Failure → Input → Except Halt (List α × Input × Option Failure)) :
    Checked (List α) := fun input => do
  match ← item input with
  | .fail failure => return .fail failure
  | .ok value middle before =>
    if middle.left < input.left then
      let (values, rest, recovered) ← later before middle
      return .ok (value :: values) rest recovered
    else throw .idleRound

/-- Reads as many as there are. -/
def many (read : Checked α) : Checked (List α) := fun input => do
  let (values, rest, recovered) ← rounds read none input
  return .ok values rest recovered

/-- **A checked run does what the rule does**, and does not stop short. -/
def Follows (read : Checked α) (rule : Rule α) (input : Input) : Prop :=
  read input = .ok (rule.run input)

variable {read read' : Checked α} {rule rule' : Rule α} {input : Input}

/-- A wrapped reader follows the wrapped rule, where the wrapping looks at the result only. -/
theorem Follows.through (h : Follows read rule input) {wrap : Rule α → Rule β}
    (hwrap : (wrap ⟨fun _ => rule.run input⟩).run input = (wrap rule).run input) :
    Follows (read.through wrap) (wrap rule) input := by
  rw [Follows, Checked.through, h, ← hwrap]
  rfl

/-- Two readers in turn follow two rules in turn: the second only has to where the first one
ends. -/
theorem Follows.andThen {second : Checked β} {secondRule : Rule β} (h : Follows read rule input)
    (hsecond : ∀ value middle, rule.Reads input value middle → Follows second secondRule middle) :
    Follows (read.andThen second) (rule.andThen secondRule) input := by
  have hread : read input = .ok (rule.run input) := h
  simp only [Follows, Checked.andThen, Rule.andThen, hread]
  cases hrun : rule.run input with
  | fail failure => rfl
  | ok value middle before =>
    have hlater : second middle = .ok (secondRule.run middle) := hsecond value middle ⟨before, hrun⟩
    simp only [bind, Except.bind, hlater]
    cases secondRule.run middle <;> rfl

/-- `Follows (read.orElse read') (rule.orElse rule') input`: a choice of two follows the choice of
two. -/
theorem Follows.orElse (h : Follows read rule input) (h' : Follows read' rule' input) :
    Follows (read.orElse read') (rule.orElse rule') input := by
  have hread : read input = .ok (rule.run input) := h
  have hread' : read' input = .ok (rule'.run input) := h'
  simp only [Follows, Checked.orElse, Rule.orElse, hread, hread']
  cases rule.run input with
  | ok value rest recovered => rfl
  | fail failure => cases rule'.run input <;> rfl

/-- Rounds that take tokens are rounds of the rule. -/
theorem rounds_eq (spends : rule.Spends 1) (before : Option Failure) (input : Input)
    (h : ∀ inside, inside.left ≤ input.left → Follows read rule inside) :
    rounds read before input = .ok (Rule.manyFrom rule before input) := by
  induction before, input using Rule.manyFrom.induct rule with
  | case1 before input failure hrun =>
    rw [rounds, h input (Nat.le_refl _), Rule.manyFrom, hrun]
  | case2 before input value rest recovered hrun hless values last after hrec ih =>
    have hlater := ih fun inside hle => h inside (Nat.le_trans hle (Nat.le_of_lt hless))
    rw [rounds, h input (Nat.le_refl _), Rule.manyFrom, hrun]
    simp only [hless, if_true, hlater]
    rfl
  | case3 before input value rest recovered hrun hstuck =>
    have := spends ⟨recovered, hrun⟩
    omega

/-- `separated read separator before input = .ok (Rule.sepByFrom rule separatorRule before input)`:
the checked loop over a separated row never stops for an idle round and reads what the rule
reads. -/
theorem separated_eq {separator : Checked β} {separatorRule : Rule β} (spends : rule.Spends 1)
    (spends' : separatorRule.Spends 0) (before : Option Failure) (input : Input)
    (h : ∀ inside, inside.left ≤ input.left → Follows read rule inside)
    (h' : ∀ inside, inside.left ≤ input.left → Follows separator separatorRule inside) :
    separated read separator before input =
      .ok (Rule.sepByFrom rule separatorRule before input) := by
  induction before, input using Rule.sepByFrom.induct rule separatorRule with
  | case1 before input failure hrun =>
    rw [separated, h' input (Nat.le_refl _), Rule.sepByFrom, hrun]
  | case2 before input skipped middle between hrun failure hitem =>
    have hmiddle : middle.left + 0 ≤ input.left := spends' ⟨between, hrun⟩
    have hread : read middle = .ok (rule.run middle) := h middle (by omega)
    rw [separated, h' input (Nat.le_refl _), Rule.sepByFrom, hrun]
    simp only [hread, hitem]
  | case3 before input skipped middle between hrun before' value rest recovered hitem hless
      values last after hrec ih =>
    have hmiddle : middle.left + 0 ≤ input.left := spends' ⟨between, hrun⟩
    have hlater := ih (fun inside hle => h inside (Nat.le_trans hle (Nat.le_of_lt hless)))
      fun inside hle => h' inside (Nat.le_trans hle (Nat.le_of_lt hless))
    have hread : read middle = .ok (rule.run middle) := h middle (by omega)
    rw [separated, h' input (Nat.le_refl _), Rule.sepByFrom, hrun]
    simp only [hread, hitem, hless, if_true]
    rw [hlater]
    rfl
  | case4 before input skipped middle between hrun value rest recovered hitem hstuck =>
    have hmiddle : middle.left + 0 ≤ input.left := spends' ⟨between, hrun⟩
    -- an item that takes nothing would be an idle round
    have := spends ⟨recovered, hitem⟩
    omega

/-- `Follows (Checked.many read) rule.many input` for a rule that takes a token. -/
theorem Follows.many (spends : rule.Spends 1)
    (h : ∀ inside, inside.left ≤ input.left → Follows read rule inside) :
    Follows (Checked.many read) rule.many input := by
  simp only [Follows, Checked.many, Rule.many, rounds_eq spends none input h]
  rfl

/-- `Follows (read.first (rounds read)) rule.oneOrMore input` for a rule that takes a token. -/
theorem Follows.oneOrMore (spends : rule.Spends 1)
    (h : ∀ inside, inside.left ≤ input.left → Follows read rule inside) :
    Follows (read.first (rounds read)) rule.oneOrMore input := by
  have hread : read input = .ok (rule.run input) := h input (Nat.le_refl _)
  simp only [Follows, Checked.first, Rule.oneOrMore, hread]
  cases hrun : rule.run input with
  | fail failure => rfl
  | ok value middle before =>
    have hless : middle.left < input.left := spends ⟨before, hrun⟩
    have hlater := rounds_eq spends before middle fun inside hle =>
      h inside (Nat.le_trans hle (Nat.le_of_lt hless))
    simp only [bind, Except.bind, hless, if_true, hlater]
    rfl

/-- `Follows (read.first (separated read separator)) (rule.sepByOne separatorRule) input` for an
item that takes a token. -/
theorem Follows.sepByOne {separator : Checked β} {separatorRule : Rule β} (spends : rule.Spends 1)
    (spends' : separatorRule.Spends 0)
    (h : ∀ inside, inside.left ≤ input.left → Follows read rule inside)
    (h' : ∀ inside, inside.left ≤ input.left → Follows separator separatorRule inside) :
    Follows (read.first (separated read separator)) (rule.sepByOne separatorRule) input := by
  have hread : read input = .ok (rule.run input) := h input (Nat.le_refl _)
  simp only [Follows, Checked.first, Rule.sepByOne, hread]
  cases hrun : rule.run input with
  | fail failure => rfl
  | ok value middle before =>
    have hless : middle.left < input.left := spends ⟨before, hrun⟩
    have hlater := separated_eq spends spends' before middle
      (fun inside hle => h inside (Nat.le_trans hle (Nat.le_of_lt hless)))
      fun inside hle => h' inside (Nat.le_trans hle (Nat.le_of_lt hless))
    simp only [bind, Except.bind, hless, if_true, hlater]
    rfl

/-- Tries one way, and then the other ones, `before` being what the earlier ones failed with. -/
def alternative (read : Checked α) (others : Option Failure → Checked α) (before : Option Failure) :
    Checked α := fun input => do
  match ← read input with
  | .ok value rest recovered => return .ok value rest recovered
  | .fail failure => others (some ((before.map failure.further).getD failure)) input

/-- The rule that tries several ones in order, `before` being what the earlier ones failed with. -/
def choiceAfter (before : Option Failure) (rules : List (Rule α)) : Rule α :=
  match before with
  | none => Rule.choice rules
  | some failure => Rule.choiceFrom failure rules

/-- One alternative before others follows `choiceAfter before (rule :: rules)`. -/
theorem Follows.alternative {others : Option Failure → Checked α} {rules : List (Rule α)}
    (h : Follows read rule input)
    (h' : ∀ before, Follows (others before) (choiceAfter before rules) input)
    (before : Option Failure) :
    Follows (read.alternative others before) (choiceAfter before (rule :: rules)) input := by
  have hread : read input = .ok (rule.run input) := h
  have hothers : ∀ before, others before input = .ok ((choiceAfter before rules).run input) := h'
  cases before with
  | none =>
    simp only [Follows, Checked.alternative, choiceAfter, Rule.choice, hread]
    cases rule.run input with
    | ok value rest recovered => rfl
    | fail failure => exact hothers (some failure)
  | some before =>
    simp only [Follows, Checked.alternative, choiceAfter, Rule.choiceFrom, hread]
    cases rule.run input with
    | ok value rest recovered => rfl
    | fail failure => exact hothers (some (failure.further before))

end Checked

end ProjectLens
