import ProjectLens.Proofs.Reading

/-! # Rules take tokens

A rule that succeeds takes tokens off the front of its input. How many it takes at least follows from
what it is put together from. A rule that is entered again behind a token each time needs no more
levels than there are tokens.

* `Rule.Spends k rule`: a rule that succeeds leaves at least `k` tokens fewer;
* one law for each way of putting rules together;
* `Rule.Agrees n rule rule'`: two rules run alike on fewer than `n` tokens;
* `Rule.agrees_levels`, `Rule.agrees_knot`: levels that take a token each are as good as no bound. -/

namespace ProjectLens

namespace Rule

variable {α β : Type}

/-! ## Tokens that are spent -/

/-- **The rule takes at least `k` tokens** whenever it succeeds. -/
def Spends (k : Nat) (rule : Rule α) : Prop :=
  ∀ ⦃input : Input⦄ ⦃value : α⦄ ⦃rest : Input⦄, rule.Reads input value rest →
    rest.left + k ≤ input.left

variable {first rule : Rule α} {second : Rule β} {j k : Nat}

/-- A rule that takes `k` tokens takes `j ≤ k` of them. -/
theorem Spends.mono (h : rule.Spends k) (hle : j ≤ k) : rule.Spends j := by
  intro input value rest reads
  have := h reads
  omega

/-- `token expected select` takes the token it selects. -/
theorem spends_token (expected : List (Option Token)) (select : Token → Option α) :
    (token expected select).Spends 1 := by
  intro input value rest reads
  obtain ⟨lexeme, after, hlexemes, -, rfl⟩ := reads_token.mp reads
  simp [Input.left, hlexemes]

/-- The end of the input takes nothing. -/
theorem spends_endOfInput : endOfInput.Spends 0 := by
  intro input value rest reads
  obtain ⟨-, rfl⟩ := reads_endOfInput.mp reads
  exact Nat.le_refl _

/-- `rule.map f` takes what `rule` takes. -/
theorem Spends.map {f : α → β} (h : rule.Spends k) : (rule.map f).Spends k := by
  intro input value rest reads
  obtain ⟨v, inside, -⟩ := reads_map.mp reads
  exact h inside

/-- `rule.labelled text` takes what `rule` takes. -/
theorem Spends.labelled {text : String} (h : rule.Spends k) : (rule.labelled text).Spends k :=
  fun _ _ _ reads => h (reads_labelled.mp reads)

/-- `rule.spanned f` takes what `rule` takes. -/
theorem Spends.spanned {f : α → Span → β} (h : rule.Spends k) : (rule.spanned f).Spends k := by
  intro input value rest reads
  obtain ⟨v, inside, -⟩ := reads_spanned.mp reads
  exact h inside

/-- `rule.require p reason` takes what `rule` takes: a value that is required to have a property is
read as any other one. -/
theorem Spends.require {p : α → Bool} {reason : String} (h : rule.Spends k) :
    (rule.require p reason).Spends k := by
  rintro input value rest ⟨recovered, ran⟩
  simp only [Rule.require] at ran
  split at ran
  · cases ran
  · next hrun =>
    split at ran
    · cases ran
      exact h ⟨_, hrun⟩
    · -- a value without the property is refused
      cases ran

/-- `first.andThen second` takes what both take: `j + k` tokens. -/
theorem Spends.andThen (hfirst : first.Spends j) (hsecond : second.Spends k) :
    (first.andThen second).Spends (j + k) := by
  intro input value rest reads
  obtain ⟨middle, reads, reads'⟩ := reads_andThen.mp reads
  have := hfirst reads
  have := hsecond reads'
  omega

/-- `rule.orElse other` takes what each of the two takes. -/
theorem Spends.orElse {other : Rule α} (hrule : rule.Spends k) (hother : other.Spends k) :
    (rule.orElse other).Spends k := by
  intro input value rest reads
  rcases reads_orElse.mp reads with reads | ⟨-, reads⟩
  · exact hrule reads
  · exact hother reads

/-- `choice []` never succeeds. -/
theorem spends_choice_nil : (choice ([] : List (Rule α))).Spends k := by
  intro input value rest reads
  exact (reads_choice_nil.mp reads).elim

/-- `choice (rule :: rules)` takes what each alternative takes. -/
theorem Spends.choice {rules : List (Rule α)} (hrule : rule.Spends k)
    (hrules : (choice rules).Spends k) : (choice (rule :: rules)).Spends k := by
  intro input value rest reads
  rcases reads_choice_cons.mp reads with reads | ⟨-, reads⟩
  · exact hrule reads
  · exact hrules reads

/-- `rule.optional` may take nothing, and gives nothing back. -/
theorem Spends.optional (h : rule.Spends k) : rule.optional.Spends 0 := by
  intro input value rest reads
  rcases reads_optional.mp reads with ⟨v, -, inside⟩ | ⟨-, -, rfl⟩
  · have := h inside
    omega
  · exact Nat.le_refl _

/-- The rounds of a repetition give no token back: `rest.left ≤ input.left`. -/
theorem Repeats.left_le {input rest : Input} {values : List α}
    (rounds : Repeats rule input values rest) : rest.left ≤ input.left := by
  induction rounds with
  | done _ => exact Nat.le_refl _
  | stuck _ _ => exact Nat.le_refl _
  | step _ hlt _ ih => exact Nat.le_trans ih (Nat.le_of_lt hlt)

/-- `rule.many` may go no round. -/
theorem spends_many (rule : Rule α) : rule.many.Spends 0 := by
  intro input values rest reads
  exact (reads_many.mp reads).left_le

/-- `rule.oneOrMore` takes what its first round takes. -/
theorem Spends.oneOrMore (h : rule.Spends k) : rule.oneOrMore.Spends k := by
  intro input values rest reads
  obtain ⟨value, middle, later, reads, rounds, -⟩ := reads_oneOrMore.mp reads
  have := h reads
  have := rounds.left_le
  omega

/-- `sepByOne rule separator` takes what its first item takes. -/
theorem Spends.sepByOne {separator : Rule β} (h : rule.Spends k) :
    (sepByOne rule separator).Spends k := by
  intro input values rest reads
  obtain ⟨value, middle, later, reads, rounds, -⟩ := reads_sepByOne.mp reads
  have := h reads
  have := rounds.left_le
  omega

/-! ## Rules that run alike -/

/-- **Two rules run alike on fewer than `n` tokens**, failures included. -/
def Agrees (n : Nat) (rule rule' : Rule α) : Prop :=
  ∀ ⦃input : Input⦄, input.left < n → rule.run input = rule'.run input

variable {n m : Nat} {rule' : Rule α}

/-- `Agrees n rule rule`. -/
theorem Agrees.refl (n : Nat) (rule : Rule α) : Agrees n rule rule := fun _ _ => rfl

/-- Rules that run alike on fewer than `m` tokens do so on fewer than `n ≤ m`. -/
theorem Agrees.mono (h : Agrees m rule rule') (hle : n ≤ m) : Agrees n rule rule' :=
  fun _ hlt => h (Nat.lt_of_lt_of_le hlt hle)

/-! ## Levels -/

section Levels

variable {levels : Nat → Rule α} (step : ∀ n depth depth', Agrees n (levels depth) (levels depth') →
  Agrees (n + 1) (levels (depth + 1)) (levels (depth' + 1)))
include step

/-- **Levels beyond the number of tokens make no difference**, where one level more is one token
more. -/
theorem agrees_levels {depth depth' : Nat} (hle : n ≤ depth) (hle' : n ≤ depth') :
    Agrees n (levels depth) (levels depth') := by
  induction n generalizing depth depth' with
  | zero =>
    intro input hlt
    exact absurd hlt (Nat.not_lt_zero _)
  | succ n ih =>
    obtain ⟨depth, rfl⟩ : ∃ d, depth = d + 1 := ⟨depth - 1, by omega⟩
    obtain ⟨depth', rfl⟩ : ∃ d, depth' = d + 1 := ⟨depth' - 1, by omega⟩
    exact step n depth depth' (ih (Nat.le_of_succ_le_succ hle) (Nat.le_of_succ_le_succ hle'))

/-- As many levels as there are tokens are as good as any number of them. -/
theorem agrees_knot (n : Nat) :
    Agrees n (levels n) ⟨fun input => (levels (input.left + 1)).run input⟩ := by
  intro shorter hlt
  exact agrees_levels step (Nat.succ_le_of_lt hlt) (Nat.le_refl _) (Nat.lt_succ_self _)

end Levels

end Rule

end ProjectLens
