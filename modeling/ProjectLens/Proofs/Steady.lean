import ProjectLens.Proofs.Scripts

/-! # Steady scripts

Whether a script takes a token and whether it comes back to a rule too early can be read off it: a
token takes one, a name stands for a rule that takes one, and a repetition may take none. Where
every round takes a token, and a token stands before every rule that is entered again, nothing stops
a checked run short.

* `Script.checked`: the checked run of a script;
* `Script.consumes`, `Script.spends`: a script that takes a token;
* `Script.steady`, `Entries`, `Script.follows`: a script whose checked run does what its rule
  does;
* `Counterparts`, `Script.agrees`: a steady script runs alike over rules that run alike. -/

namespace ProjectLens

open Checked

/-! ## The checked run of a script -/

section Checked

variable (free : Callee → Bool) (start : Nat) (enter : Callee → Checked Expr)

mutual

/-- **The checked run of a script** that starts with `start` tokens left. A rule that is not `free`
may be entered behind a token only. -/
def Script.checked : {α : Type} → Script α → Checked α
  | _, .token expected select => fun input => .ok ((Rule.token expected select).run input)
  | _, .endOfInput => fun input => .ok (Rule.endOfInput.run input)
  | _, .map f script => script.checked.through (Rule.map f)
  | _, .andThen first second => first.checked.andThen second.checked
  | _, .orElse first second => first.checked.orElse second.checked
  | _, .choice scripts => scripts.checked none
  | _, .optional script => script.checked.through Rule.optional
  | _, .many script => Checked.many script.checked
  | _, .oneOrMore script => script.checked.first (rounds script.checked)
  | _, .sepByOne item separator => item.checked.first (separated item.checked separator.checked)
  | _, .labelled text script => script.checked.through (Rule.labelled text)
  | _, .spanned f script => script.checked.through (Rule.spanned f)
  | _, .require p reason script => script.checked.through (Rule.require p reason)
  | _, .call callee => fun input =>
    if free callee ∨ input.left < start then enter callee input else .error .idleCall

/-- The checked run of alternatives, `before` being what the earlier ones failed with. -/
def Scripts.checked : {α : Type} → Scripts α → Option Failure → Checked α
  | _, .nil => fun before input => .ok (.fail (before.getD (input.unexpected [])))
  | _, .cons script scripts => script.checked.alternative scripts.checked

end

/-- A rule that comes back to itself at once stops short. -/
example : (Script.call .unary).checked (fun _ => false) 0 enter ⟨[], 0⟩ = .error .idleCall := rfl

end Checked

/-! ## Tokens that are taken -/

/-- `(a || b).toNat ≤ a.toNat + b.toNat`. -/
theorem toNat_or_le (a b : Bool) : (a || b).toNat ≤ a.toNat + b.toNat := by
  cases a <;> cases b <;> decide

/-- `(a && b).toNat ≤ a.toNat`. -/
theorem toNat_and_le_left (a b : Bool) : (a && b).toNat ≤ a.toNat := by
  cases a <;> cases b <;> decide

/-- `(a && b).toNat ≤ b.toNat`. -/
theorem toNat_and_le_right (a b : Bool) : (a && b).toNat ≤ b.toNat := by
  cases a <;> cases b <;> decide

mutual

/-- **Whether a script takes a token** whenever it succeeds. -/
def Script.consumes : {α : Type} → Script α → Bool
  | _, .token .. => true
  | _, .endOfInput => false
  | _, .map _ script => script.consumes
  | _, .andThen first second => first.consumes || second.consumes
  | _, .orElse first second => first.consumes && second.consumes
  | _, .choice scripts => scripts.consume
  | _, .optional _ => false
  | _, .many _ => false
  | _, .oneOrMore script => script.consumes
  | _, .sepByOne item _ => item.consumes
  | _, .labelled _ script => script.consumes
  | _, .spanned _ script => script.consumes
  | _, .require _ _ script => script.consumes
  | _, .call _ => true

/-- Whether all alternatives take a token. -/
def Scripts.consume : {α : Type} → Scripts α → Bool
  | _, .nil => true
  | _, .cons script scripts => script.consumes && scripts.consume

end

section Spends

variable {rules : Callee → Rule Expr}

mutual

/-- **A script that takes a token takes one**, given that the rules entered by name do. -/
theorem Script.spends (entered : ∀ callee, (rules callee).Spends 1) {α : Type} (script : Script α) :
    (script.rule rules).Spends script.consumes.toNat :=
  match script with
  | .token expected select => Rule.spends_token expected select
  | .endOfInput => Rule.spends_endOfInput
  | .map _ script => (script.spends entered).map
  | .andThen first second =>
    ((first.spends entered).andThen (second.spends entered)).mono (toNat_or_le _ _)
  | .orElse first second =>
    ((first.spends entered).mono (toNat_and_le_left _ _)).orElse
      ((second.spends entered).mono (toNat_and_le_right _ _))
  | .choice scripts => scripts.spends entered
  | .optional script => (script.spends entered).optional
  | .many _ => Rule.spends_many _
  | .oneOrMore script => (script.spends entered).oneOrMore
  | .sepByOne item _ => (item.spends entered).sepByOne
  | .labelled _ script => (script.spends entered).labelled
  | .spanned _ script => (script.spends entered).spanned
  | .require _ _ script => (script.spends entered).require
  | .call callee => entered callee

/-- Alternatives that all take a token take one. -/
theorem Scripts.spends (entered : ∀ callee, (rules callee).Spends 1) {α : Type}
    (scripts : Scripts α) :
    (Rule.choice (scripts.rules rules)).Spends scripts.consume.toNat :=
  match scripts with
  | .nil => Rule.spends_choice_nil
  | .cons script scripts =>
    ((script.spends entered).mono (toNat_and_le_left _ _)).choice
      ((scripts.spends entered).mono (toNat_and_le_right _ _))

end

end Spends

/-! ## Rules that are entered again -/

section Steady

variable (free : Callee → Bool)

mutual

/-- **Whether every round of a script takes a token and it enters rules in time**: those that are
not `free` behind a token. `behind` says that a token stands before the script itself. -/
def Script.steady : {α : Type} → Script α → (behind : Bool) → Bool
  | _, .token .. => fun _ => true
  | _, .endOfInput => fun _ => true
  | _, .map _ script => script.steady
  | _, .andThen first second => fun behind =>
    first.steady behind && second.steady (behind || first.consumes)
  | _, .orElse first second => fun behind => first.steady behind && second.steady behind
  | _, .choice scripts => scripts.steady
  | _, .optional script => script.steady
  | _, .many script => fun behind => script.consumes && script.steady behind
  | _, .oneOrMore script => fun behind => script.consumes && script.steady behind
  | _, .sepByOne item separator => fun behind =>
    item.consumes && item.steady behind && separator.steady behind
  | _, .labelled _ script => script.steady
  | _, .spanned _ script => script.steady
  | _, .require _ _ script => script.steady
  | _, .call callee => fun behind => behind || free callee

/-- Whether all alternatives are steady. -/
def Scripts.steady : {α : Type} → Scripts α → (behind : Bool) → Bool
  | _, .nil => fun _ => true
  | _, .cons script scripts => fun behind => script.steady behind && scripts.steady behind

end

/-- **Rules that are entered in time do what they should**: a script that starts with `start` tokens
left enters those that are not `free` behind a token. -/
structure Entries (free : Callee → Bool) (start : Nat) (rules : Callee → Rule Expr)
    (enter : Callee → Checked Expr) : Prop where
  /-- Each takes a token. -/
  spends : ∀ callee, (rules callee).Spends 1
  /-- Each is read as the rule that it is. -/
  follows : ∀ callee (input : Input), input.left ≤ start →
    free callee = true ∨ input.left < start → Follows (enter callee) (rules callee) input

variable {free} {start : Nat} {rules : Callee → Rule Expr} {enter : Callee → Checked Expr}

mutual

/-- **The checked run of a steady script does what its rule does**, on every input with no more
tokens than at the start, and with fewer where a token stands before it. -/
theorem Script.follows (entries : Entries free start rules enter) {α : Type} (script : Script α)
    {behind : Bool}
    (steady : script.steady free behind = true) {input : Input}
    (left : input.left + behind.toNat ≤ start) :
    Follows (script.checked free start enter) (script.rule rules) input :=
  match script with
  | .token .. => rfl
  | .endOfInput => rfl
  | .map _ script => (script.follows entries steady left).through rfl
  | .andThen first second => by
    -- what the first one takes is no longer left for the second one
    obtain ⟨hfirst, hsecond⟩ := Bool.and_eq_true_iff.mp steady
    refine (first.follows entries hfirst left).andThen fun value middle reads =>
      second.follows entries hsecond ?_
    have := first.spends entries.spends reads
    have := toNat_or_le behind first.consumes
    omega
  | .orElse first second => by
    obtain ⟨hfirst, hsecond⟩ := Bool.and_eq_true_iff.mp steady
    exact (first.follows entries hfirst left).orElse (second.follows entries hsecond left)
  | .choice scripts => scripts.follows entries steady left none
  | .optional script => (script.follows entries steady left).through rfl
  | .many script => by
    obtain ⟨hconsumes, hsteady⟩ := Bool.and_eq_true_iff.mp steady
    -- each round takes a token, so none is idle
    have spends := script.spends entries.spends
    rw [hconsumes] at spends
    exact .many spends fun inside hle => script.follows entries hsteady (by omega)
  | .oneOrMore script => by
    obtain ⟨hconsumes, hsteady⟩ := Bool.and_eq_true_iff.mp steady
    have spends := script.spends entries.spends
    rw [hconsumes] at spends
    exact .oneOrMore spends fun inside hle => script.follows entries hsteady (by omega)
  | .sepByOne item separator => by
    obtain ⟨hitems, hseparator⟩ := Bool.and_eq_true_iff.mp steady
    obtain ⟨hconsumes, hitem⟩ := Bool.and_eq_true_iff.mp hitems
    have spends := item.spends entries.spends
    rw [hconsumes] at spends
    exact .sepByOne spends ((separator.spends entries.spends).mono (Nat.zero_le _))
      (fun inside hle => item.follows entries hitem (by omega))
      fun inside hle => separator.follows entries hseparator (by omega)
  | .labelled _ script => (script.follows entries steady left).through rfl
  | .spanned _ script => (script.follows entries steady left).through rfl
  | .require _ _ script => (script.follows entries steady left).through rfl
  | .call callee => by
    -- the callee may be entered where the script stands, or a token lies behind
    have intime : free callee = true ∨ input.left < start := by
      rcases Bool.or_eq_true_iff.mp steady with rfl | hfree
      · exact Or.inr left
      · exact Or.inl hfree
    have hchecked : (Script.call callee).checked free start enter input = enter callee input :=
      if_pos intime
    rw [Follows, hchecked]
    exact entries.follows callee input (by omega) intime

/-- The checked run of steady alternatives. -/
theorem Scripts.follows (entries : Entries free start rules enter) {α : Type}
    (scripts : Scripts α) {behind : Bool}
    (steady : scripts.steady free behind = true) {input : Input}
    (left : input.left + behind.toNat ≤ start) (before : Option Failure) :
    Follows (scripts.checked free start enter before) (choiceAfter before (scripts.rules rules))
      input :=
  match scripts with
  | .nil => by cases before <;> rfl
  | .cons script scripts => by
    obtain ⟨hscript, hscripts⟩ := Bool.and_eq_true_iff.mp steady
    exact (script.follows entries hscript left).alternative (scripts.follows entries hscripts left)
      before

end

/-- **Rules that run alike on fewer than `n` tokens**, name by name. -/
structure Counterparts (n : Nat) (rules rules' : Callee → Rule Expr) : Prop where
  /-- Each of the one takes a token. -/
  spends : ∀ callee, (rules callee).Spends 1
  /-- So does each of the other. -/
  spends' : ∀ callee, (rules' callee).Spends 1
  /-- Two that have the same name run alike. -/
  agrees : ∀ callee, Rule.Agrees n (rules callee) (rules' callee)

/-- **A steady script runs alike over rules that run alike**: on one token more, if those that it may
enter at once run alike on one token more. Both runs are the checked run. -/
theorem Script.agrees {rules' : Callee → Rule Expr} {n : Nat} {α : Type} {script : Script α}
    (pairs : Counterparts n rules rules') (steady : script.steady free false = true)
    (atOnce : ∀ callee, free callee = true → Rule.Agrees (n + 1) (rules callee) (rules' callee)) :
    Rule.Agrees (n + 1) (script.rule rules) (script.rule rules') := by
  intro input hlt
  let enter : Callee → Checked Expr := fun callee inside => .ok ((rules callee).run inside)
  have entries : Entries free input.left rules enter := ⟨pairs.spends, fun _ _ _ _ => rfl⟩
  have entries' : Entries free input.left rules' enter := by
    refine ⟨pairs.spends', fun callee inside hle intime => congrArg Except.ok ?_⟩
    rcases intime with hfree | hless
    · exact atOnce callee hfree (by omega)
    · exact pairs.agrees callee (by omega)
  have run : Follows (script.checked free input.left enter) (script.rule rules) input :=
    script.follows entries steady (Nat.le_refl _)
  have run' : Follows (script.checked free input.left enter) (script.rule rules') input :=
    script.follows entries' steady (Nat.le_refl _)
  exact Except.ok.inj (run.symm.trans run')

end Steady

end ProjectLens
