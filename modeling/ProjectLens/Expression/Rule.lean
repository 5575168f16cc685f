import ProjectLens.Expression.Failure

/-! # Rules over tokens

A rule reads tokens from the front of an input. It succeeds with a value and the rest, or fails. A
success also remembers the furthest failure that was recovered from on the way, since that is the
best explanation should a later rule fail.

* `Input`: the tokens left and the length of the text;
* `Outcome`, `Rule`;
* `Rule.token`, `Rule.just`, `Rule.endOfInput`: rules for one token;
* `Rule.andThen`, `Rule.orElse`, `Rule.choice`, `Rule.optional`, `Rule.many`, `Rule.sepBy`: how
  rules are put together;
* `Rule.labelled`, `Rule.spanned`, `Rule.require`. -/

namespace ProjectLens

/-- What is left to read. -/
structure Input where
  /-- The tokens left. -/
  lexemes : List Lexeme
  /-- The length of the whole text. -/
  stop : Nat
  deriving Repr

namespace Input

/-- Number of tokens left. -/
def left (input : Input) : Nat := input.lexemes.length

/-- Offset of the next token, or of the end of the text. -/
def offset (input : Input) : Nat :=
  match input.lexemes with
  | [] => input.stop
  | lexeme :: _ => lexeme.span.start

/-- The tokens of a text. -/
def ofText (text : String) : Input := ⟨lex text, text.length⟩

/-- The failure to find any of `expected` next. -/
def unexpected (input : Input) (expected : List (Option Token)) : Failure :=
  match input.lexemes with
  | [] => ⟨0, Span.emptyAt input.stop, expected, none, .none, none⟩
  | lexeme :: _ => ⟨input.left, lexeme.span, expected, some lexeme.token, .none, none⟩

end Input

/-- The result of a rule. -/
inductive Outcome (α : Type) where
  /-- A value, what is left, and the furthest failure recovered from. -/
  | ok (value : α) (rest : Input) (recovered : Option Failure)
  /-- The reason for failing. -/
  | fail (failure : Failure)
  deriving Repr

/-- A way to read something from the front of an input. -/
structure Rule (α : Type) where
  /-- Reads. -/
  run : Input → Outcome α

namespace Rule

variable {α β : Type}

/-- Reads one token that `select` accepts; `expected` is what a failure says would have been. -/
def token (expected : List (Option Token)) (select : Token → Option α) : Rule α where
  run input :=
    match input.lexemes with
    | [] => .fail (input.unexpected expected)
    | lexeme :: rest =>
      match select lexeme.token with
      | some value => .ok value ⟨rest, input.stop⟩ none
      | none => .fail (input.unexpected expected)

/-- Reads exactly this token. -/
def just (t : Token) : Rule Unit := token [some t] fun found => if found = t then some () else none

/-- Reads a token with a property. -/
def satisfying (p : Token → Bool) : Rule Token :=
  token [] fun found => if p found then some found else none

/-- Succeeds at the end of the text. -/
def endOfInput : Rule Unit where
  run input :=
    match input.lexemes with
    | [] => .ok () input none
    | _ :: _ => .fail (input.unexpected [none])

/-- Changes the value that was read. -/
def map (f : α → β) (rule : Rule α) : Rule β where
  run input :=
    match rule.run input with
    | .ok value rest recovered => .ok (f value) rest recovered
    | .fail failure => .fail failure

/-- Reads one thing after another. -/
def andThen (first : Rule α) (second : Rule β) : Rule (α × β) where
  run input :=
    match first.run input with
    | .fail failure => .fail failure
    | .ok a middle before =>
      match second.run middle with
      | .fail failure => .fail (failure.furtherOpt before)
      | .ok b rest after => .ok (a, b) rest (Failure.combine before after)

/-- Reads one thing after another and keeps the second. -/
def skipThen (first : Rule α) (second : Rule β) : Rule β := (first.andThen second).map Prod.snd

/-- Reads one thing after another and keeps the first. -/
def thenSkip (first : Rule α) (second : Rule β) : Rule α := (first.andThen second).map Prod.fst

/-- Reads with the first rule, or with the second one where the first fails. -/
def orElse (first second : Rule α) : Rule α where
  run input :=
    match first.run input with
    | .ok value rest recovered => .ok value rest recovered
    | .fail a =>
      match second.run input with
      | .ok value rest recovered => .ok value rest recovered
      | .fail b => .fail (a.further b)

/-- Tries rules in order, `before` being what the earlier ones failed with. -/
def choiceFrom (before : Failure) : List (Rule α) → Rule α
  | [] => ⟨fun _ => .fail before⟩
  | rule :: rules => ⟨fun input =>
      match rule.run input with
      | .ok value rest recovered => .ok value rest recovered
      | .fail failure => (choiceFrom (failure.further before) rules).run input⟩

/-- Reads with the first of several rules that succeeds. -/
def choice : List (Rule α) → Rule α
  | [] => ⟨fun input => .fail (input.unexpected [])⟩
  | rule :: rules => ⟨fun input =>
      match rule.run input with
      | .ok value rest recovered => .ok value rest recovered
      | .fail failure => (choiceFrom failure rules).run input⟩

/-- Reads something if it is there. -/
def optional (rule : Rule α) : Rule (Option α) where
  run input :=
    match rule.run input with
    | .ok value rest recovered => .ok (some value) rest recovered
    | .fail failure => .ok none input (some failure)

/-- Reads as many as there are, after failures `before` recovered from. Reading ends where a further
round fails, or would read nothing. -/
def manyFrom (rule : Rule α) (before : Option Failure) (input : Input) :
    List α × Input × Option Failure :=
  match rule.run input with
  | .fail failure => ([], input, Failure.combine before (some failure))
  | .ok value rest recovered =>
    if rest.left < input.left then
      let (values, last, after) := manyFrom rule (Failure.combine before recovered) rest
      (value :: values, last, after)
    else ([], input, before)
termination_by input.left
decreasing_by assumption

/-- Reads as many as there are. -/
def many (rule : Rule α) : Rule (List α) where
  run input :=
    let (values, rest, recovered) := manyFrom rule none input
    .ok values rest recovered

/-- Reads as many as there are, at least one. -/
def oneOrMore (rule : Rule α) : Rule (List α) where
  run input :=
    match rule.run input with
    | .fail failure => .fail failure
    | .ok value middle before =>
      let (values, rest, recovered) := manyFrom rule before middle
      .ok (value :: values) rest recovered

/-- Reads further items, each after a separator. -/
def sepByFrom (item : Rule α) (separator : Rule β) (before : Option Failure) (input : Input) :
    List α × Input × Option Failure :=
  match separator.run input with
  | .fail failure => ([], input, Failure.combine before (some failure))
  | .ok _ middle between =>
    let before := Failure.combine before between
    match item.run middle with
    | .fail failure => ([], input, Failure.combine before (some failure))
    | .ok value rest recovered =>
      if rest.left < input.left then
        let (values, last, after) :=
          sepByFrom item separator (Failure.combine before recovered) rest
        (value :: values, last, after)
      else ([], input, before)
termination_by input.left
decreasing_by assumption

/-- Reads items with separators between them, at least one. -/
def sepByOne (item : Rule α) (separator : Rule β) : Rule (List α) where
  run input :=
    match item.run input with
    | .fail failure => .fail failure
    | .ok value middle before =>
      let (values, rest, recovered) := sepByFrom item separator before middle
      .ok (value :: values) rest recovered

/-- Reads items with separators between them. -/
def sepBy (item : Rule α) (separator : Rule β) : Rule (List α) :=
  (sepByOne item separator).optional.map fun values => values.getD []

/-- Names the construct that the rule reads. -/
def labelled (text : String) (rule : Rule α) : Rule α where
  run input :=
    match rule.run input with
    | .ok value rest recovered => .ok value rest (recovered.map (Failure.named text))
    | .fail failure => .fail (failure.named text)

/-- Gives the value together with the span that was read: from the first token read to the start of
the first token not read, which is the end of the last one read. -/
def spanned (f : α → Span → β) (rule : Rule α) : Rule β where
  run input :=
    match rule.run input with
    | .ok value rest recovered => .ok (f value ⟨input.offset, rest.offset⟩) rest recovered
    | .fail failure => .fail failure

/-- Fails for a reason in words when the value does not have a property. -/
def require (p : α → Bool) (reason : String) (rule : Rule α) : Rule α where
  run input :=
    match rule.run input with
    | .fail failure => .fail failure
    | .ok value rest recovered =>
      if p value then .ok value rest recovered
      else .fail ⟨rest.left, ⟨input.offset, rest.offset⟩, [], none, .none, some reason⟩

/-- Runs a rule over a whole text. -/
def parse (rule : Rule α) (text : String) : Except Failure α :=
  match (rule.thenSkip endOfInput).run (Input.ofText text) with
  | .ok value _ _ => .ok value
  | .fail failure => .error failure

end Rule

end ProjectLens
