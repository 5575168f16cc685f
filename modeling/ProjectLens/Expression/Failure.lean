import ProjectLens.Expression.Token

/-! # Why an expression text does not parse

A failure says at which token reading stopped, what would have been accepted there and what
construct was being read. Of two failures the one further into the text is kept; two at the same
token are put together.

* `Label`: the construct being read, forgotten when there are several;
* `Failure`, `Failure.further`, `Failure.combine`. -/

namespace ProjectLens

/-- The construct that was being read. -/
inductive Label where
  /-- None has been named. -/
  | none
  /-- This one. -/
  | one (text : String)
  /-- Different ones. -/
  | several
  deriving DecidableEq, Repr

namespace Label

/-- The label of two failures put together. -/
def merge : Label → Label → Label
  | .none, other => other
  | .one a, .one b => if a = b then .one a else .several
  | .one a, .none => .one a
  | .one _, .several => .several
  | .several, _ => .several

/-- Names the construct unless exactly one has been named already. -/
def named (text : String) : Label → Label
  | .one a => .one a
  | _ => .one text

/-- The label's text, when there is exactly one. -/
def text? : Label → Option String
  | .one text => some text
  | _ => Option.none

end Label

/-- Why reading stopped. -/
structure Failure where
  /-- Number of tokens left when it arose: the fewer, the further into the text. -/
  left : Nat
  /-- The span of the token it arose at, or the end of the text. -/
  span : Span
  /-- The tokens that would have been accepted; `none` stands for the end of the text. -/
  expected : List (Option Token)
  /-- The token it arose at; `none` at the end of the text. -/
  found : Option Token
  /-- The construct that was being read. -/
  label : Label
  /-- A reason given in words. -/
  reason : Option String
  deriving DecidableEq, Repr

namespace Failure

/-- Two failures at the same token: what either would have accepted. -/
def merge (a b : Failure) : Failure :=
  { a with
    expected := a.expected ++ b.expected.filter fun token => !a.expected.contains token
    label := a.label.merge b.label }

/-- The further of two failures, put together when they arose at the same token. -/
def further (a b : Failure) : Failure :=
  if a.left < b.left then a else if b.left < a.left then b else a.merge b

/-- `further` where the second failure may be missing. -/
def furtherOpt (a : Failure) : Option Failure → Failure
  | none => a
  | some b => a.further b

/-- What is remembered of two failures that were recovered from, the second one later. -/
def combine : Option Failure → Option Failure → Option Failure
  | none, b => b
  | some a, none => some a
  | some a, some b => some (b.further a)

/-- Names the construct that was being read. -/
def named (text : String) (f : Failure) : Failure := { f with label := f.label.named text }

end Failure

end ProjectLens
