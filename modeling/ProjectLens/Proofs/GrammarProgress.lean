import ProjectLens.Proofs.WrittenGrammar

/-! # Every rule of the grammar takes tokens and ends

A rule comes back to an expression behind a parenthesis only and to what stands behind a negation
behind that negation only, and no round of a repetition is idle. So the rules are entered within each
other at most about twice as often as there are tokens, and a checked run of any of them gets to the
end and does what the rule does.

* `Callee.enter`: checked runs of the rules that are entered by name;
* `Callee.enter_follows`: with as many levels as tokens call for, they do what the rules do;
* `Construct.takes_tokens_and_ends`: the same for all that a text can be read as. -/

namespace ProjectLens

open Checked

namespace Callee

/-- **The checked run of a rule that is entered by name**, with rules entered within each other less
than `depth` times. -/
def enter : (depth : Nat) → Callee → Checked Expr
  | 0, _ => fun _ => .error .deep
  | depth + 1, callee => fun input =>
    callee.script.checked callee.opensWith input.left (enter depth) input

/-- How many rules may be entered one right after the other. -/
def rank : Callee → Nat
  | .expression => 1
  | .unary => 0

/-- `callee.rank ≤ 1`. -/
theorem rank_le (callee : Callee) : callee.rank ≤ 1 := by
  cases callee <;> decide

/-- A rule another one opens with has the smaller rank. -/
theorem rank_lt {outer inner : Callee} (h : outer.opensWith inner = true) :
    inner.rank < outer.rank := by
  cases outer <;> cases inner <;> first | decide | cases h

/-- A rule that is entered in time has fewer tokens left, or is of a lower rank. -/
theorem measure_lt {outer inner : Callee} {left left' : Nat} (hle : left' ≤ left)
    (intime : outer.opensWith inner = true ∨ left' < left) :
    2 * left' + inner.rank < 2 * left + outer.rank := by
  rcases intime with hopens | hless
  · have := rank_lt hopens
    omega
  · have := inner.rank_le
    omega

/-- A script does what its rule does where all that it may enter in time does. -/
theorem script_follows {α : Type} {script : Script α} {outer : Callee} {depth : Nat} {input : Input}
    (steady : script.steady outer.opensWith false = true)
    (enters : ∀ (inner : Callee) (inside : Input),
      2 * inside.left + inner.rank < 2 * input.left + outer.rank →
        Follows (inner.enter depth) inner.rule inside) :
    Follows (script.checked outer.opensWith input.left (enter depth)) (script.rule Callee.rule)
      input := by
  have entries : Entries outer.opensWith input.left Callee.rule (enter depth) :=
    ⟨rule_spends, fun inner inside hle intime => enters inner inside (measure_lt hle intime)⟩
  exact script.follows entries steady (Nat.le_refl _)

/-- **Checked runs do what the rules do**, given enough levels. -/
theorem enter_follows {depth : Nat} {callee : Callee} {input : Input}
    (enough : 2 * input.left + callee.rank < depth) :
    Follows (callee.enter depth) callee.rule input := by
  induction depth generalizing callee input with
  | zero => exact absurd enough (Nat.not_lt_zero _)
  | succ depth ih =>
    have run := script_follows callee.script_steady fun inner inside hless =>
      ih (Nat.lt_of_lt_of_le hless (Nat.le_of_lt_succ enough))
    rw [rule_script] at run
    exact run

end Callee

namespace Construct

/-- **A checked run of a construct**, with rules entered within each other less than `depth` times. A
construct may begin with what an expression may begin with. -/
def checked (construct : Construct) (depth : Nat) : Checked construct.Value := fun input =>
  construct.script.checked Callee.expression.opensWith input.left (Callee.enter depth) input

/-- Every script of the grammar is steady: no repetition in it can go on without a token. -/
theorem script_steady (construct : Construct) :
    construct.script.steady Callee.expression.opensWith false = true := by
  cases construct <;> decide

/-- Every script but those of the two lists takes a token. -/
theorem script_consumes {construct : Construct} (notList : construct ≠ .list)
    (notSimple : construct ≠ .simpleList) : construct.script.consumes = true := by
  cases construct <;> first | rfl | contradiction

/-- With two calls in depth for each token left, and two more, a checked run reads what the rule
reads. -/
theorem checked_follows {construct : Construct} {depth : Nat} {input : Input}
    (enough : 2 * input.left + 1 < depth) :
    Follows (construct.checked depth) construct.rule input := by
  have run := Callee.script_follows construct.script_steady fun inner inside hless =>
    Callee.enter_follows (Nat.lt_trans hless enough)
  rw [rule_script] at run
  exact run

/-- **Every construct but a list takes a token, and every one is read to the end.** What is run is
what is written. Whatever the tokens, its checked run, given levels for twice as many tokens as there
are, stops short neither for want of levels, nor since a rule is entered again before a token is
taken, nor since a round of a repetition takes none. It does what the rule does, and so does the
checked run of each rule that is entered from inside. -/
theorem takes_tokens_and_ends (construct : Construct) :
    (construct ≠ .list → construct ≠ .simpleList → construct.rule.Spends 1) ∧
    (∀ callee : Callee, callee.rule.Spends 1) ∧
    construct.script.rule Callee.rule = construct.rule ∧
    (∀ callee : Callee, callee.script.rule Callee.rule = callee.rule) ∧
    ∀ (input : Input) (depth : Nat), 2 * input.left + 1 < depth →
      construct.checked depth input = .ok (construct.rule.run input) ∧
      ∀ callee : Callee, callee.enter depth input = .ok (callee.rule.run input) := by
  refine ⟨fun notList notSimple => ?_, Callee.rule_spends, construct.rule_script,
    Callee.rule_script, fun input depth enough => ⟨checked_follows enough, fun callee => ?_⟩⟩
  · have spends := construct.script.spends Callee.rule_spends
    rw [script_consumes notList notSimple, rule_script] at spends
    exact spends
  · have := callee.rank_le
    exact Callee.enter_follows (by omega)

/-- A negated name is read with less than ten levels. -/
theorem takes_tokens_and_ends_negated :
    let input : Input := ⟨[⟨.bang, ⟨0, 1⟩⟩, ⟨.identifier "A", ⟨1, 2⟩⟩], 2⟩
    Construct.root ≠ .list ∧ Construct.root ≠ .simpleList ∧ Construct.root.rule.Spends 1 ∧
    2 * input.left + 1 < 10 ∧
      Construct.root.checked 10 input = .ok (Construct.root.rule.run input) ∧
      Callee.unary.enter 10 input = .ok (Callee.unary.rule.run input) := by
  intro input
  have enough : 2 * input.left + 1 < 10 := by decide
  obtain ⟨spends, -, -, -, runs⟩ := takes_tokens_and_ends .root
  obtain ⟨checked, entered⟩ := runs input 10 enough
  exact ⟨by decide, by decide, spends (by decide) (by decide), enough, checked, entered .unary⟩

end Construct

end ProjectLens
