import ProjectLens.Proofs.Derivation

/-! # The trees of derivations

What holds of every node of a derived tree, once the tokens stand end to end:

* `Expr.Laid`: the children lie inside their parent, in order and without overlap;
* `Expr.Layered`: `not` binds tighter than `and`, `and` tighter than `or`, and both are folded to the
  left, unless parentheses say otherwise. Parentheses leave no node behind, but they widen the span of
  the node inside them, so a node joined without parentheses (`Expr.IsJoin`) is one whose span runs
  from its left operand to its right one and no further.

Both are proved together, by one pass over the constructs (`Derivation.Expression.good`). -/

namespace ProjectLens

namespace Expr

/-- Every node of an expression has a property. -/
inductive Every (p : Expr → Prop) : Expr → Prop where
  /-- The root has it, and every node below. -/
  | node {kind : Kind} {span : Span} {children : List Expr} :
      p (.node kind span children) → (∀ child ∈ children, Every p child) →
      Every p (.node kind span children)

namespace Every

variable {p q : Expr → Prop} {e : Expr}

/-- `e.Every p → p e`. -/
theorem root (h : e.Every p) : p e := by
  cases h with
  | node h _ => exact h

/-- What holds of every node of a tree holds of every node of its children. -/
theorem children (h : e.Every p) : ∀ child ∈ e.children, child.Every p := by
  cases h with
  | node _ h => exact h

/-- `e.Every p → (∀ e, p e → q e) → e.Every q`. -/
theorem mono (h : e.Every p) (hpq : ∀ e, p e → q e) : e.Every q := by
  induction h with
  | node h _ ih => exact .node (hpq _ h) ih

end Every

/-- **The children of a node lie inside it**, in order and without overlap. -/
structure Laid (e : Expr) : Prop where
  ordered : e.span.start ≤ e.span.stop
  inside : ∀ child ∈ e.children,
    e.span.start ≤ child.span.start ∧ child.span.stop ≤ e.span.stop
  apart : e.children.Pairwise fun a b => a.span.stop ≤ b.span.start

/-- Children in a row over the span of their parent lie inside it. -/
theorem laid_of_spread {kind : Kind} {span : Span} {children : List Expr}
    (h : Spread span.start (children.map Expr.span) span.stop) :
    Laid (.node kind span children) where
  ordered := h.le
  inside _ hc := h.inside (List.mem_map_of_mem hc)
  apart := List.pairwise_map.mp h.apart

/-- **A node joined without parentheses around it**: its span is that of its operands. -/
def IsJoin (connective : Connective) (e : Expr) : Prop := ∃ l r, e = join connective l r

/-- **How connectives may be nested without parentheses.** -/
def Layered : Expr → Prop
  | .node (.logical .and) _ children => ∃ l r, children = [l, r] ∧
      ¬ l.IsJoin .or ∧ ¬ r.IsJoin .or ∧ ¬ r.IsJoin .and
  | .node (.logical .or) _ children => ∃ l r, children = [l, r] ∧ ¬ r.IsJoin .or
  | .node (.logical .not) _ children => ∃ e, children = [e] ∧ ¬ e.IsJoin .and ∧ ¬ e.IsJoin .or
  | _ => True

/-- Only connectives have to be nested in a certain way. -/
theorem layered_of_kind {kind : Kind} {span : Span} {children : List Expr}
    (h : ∀ connective, kind ≠ .logical connective) : Layered (.node kind span children) := by
  cases kind <;> first | exact trivial | exact absurd rfl (h _)

/-- Nesting does not depend on the span of the root. -/
theorem layered_withSpan {span : Span} {e : Expr} : (e.withSpan span).Layered ↔ e.Layered := by
  obtain ⟨kind, span', children⟩ := e
  cases kind with
  | logical connective => cases connective <;> exact Iff.rfl
  | _ => exact Iff.rfl

/-- A node of another kind is not joined. -/
theorem not_isJoin_of_kind {connective : Connective} {e : Expr}
    (h : e.kind ≠ .logical connective) : ¬ e.IsJoin connective := by
  rintro ⟨l, r, rfl⟩
  exact h rfl

/-- What holds of each node of a derived tree. -/
structure WellFormed (e : Expr) : Prop where
  laid : e.Laid
  layered : e.Layered

end Expr

namespace Derivation

open ProjectLens.Expr

/-- Brackets take up room on both sides of what is inside them. -/
theorem Bracket.tiles {opens : Token} {b : Bracket opens} {body : List Lexeme} {start stop : Nat}
    (h : Tiles start (b.around body) stop) :
    ∃ first last, start < first ∧ Tiles first body last ∧ last < stop := by
  obtain ⟨-, hopening, h⟩ := h
  obtain ⟨first, hbefore, h⟩ := tiles_append.mp h
  obtain ⟨last, hbody, h⟩ := tiles_append.mp h
  obtain ⟨border, hafter, h⟩ := tiles_append.mp h
  have := hbefore.le
  have := hafter.le
  have := h.lt (by simp)
  exact ⟨first, last, by omega, hbody, by omega⟩

/-- A token between two parts takes up room. -/
theorem Spaced.tiles {p : Token → Prop} {s : Spaced p} {left right : List Lexeme}
    {start stop : Nat} (h : Tiles start (left ++ (s.lexemes ++ right)) stop) :
    ∃ last first, Tiles start left last ∧ last < first ∧ Tiles first right stop := by
  obtain ⟨last, hleft, h⟩ := tiles_append.mp h
  obtain ⟨first, hmiddle, hright⟩ := tiles_append.mp h
  exact ⟨last, first, hleft, hmiddle.lt (by simp [Spaced.lexemes]), hright⟩

/-- The tree covers its tokens, and all of it is well-formed once they stand end to end. -/
structure Good (tokens : List Lexeme) (tree : Expr) : Prop where
  covers : Covers tokens tree
  every : ∀ {start stop : Nat}, Tiles start tokens stop → tree.Every WellFormed

/-- `tree.span = ⟨start, stop⟩` for the tree of tokens that tile `start` to `stop`. -/
theorem Good.span_eq {tokens : List Lexeme} {tree : Expr} (h : Good tokens tree) {start stop : Nat}
    (tiles : Tiles start tokens stop) : tree.span = ⟨start, stop⟩ := by
  rw [h.covers.span_eq, tiles.cover_eq h.covers.filled]

/-- The tree on its own is a row over its tokens. -/
theorem Good.spread {tokens : List Lexeme} {tree : Expr} (h : Good tokens tree) {start stop : Nat}
    (tiles : Tiles start tokens stop) : Spread start [tree.span] stop := by
  have := tiles.le
  rw [h.span_eq tiles]
  simpa using this

/-- Trees that stand in a row over their tokens, all of each well-formed. -/
def GoodRow (tokens : List Lexeme) (trees : List Expr) : Prop :=
  ∀ ⦃start stop : Nat⦄, Tiles start tokens stop →
    Spread start (trees.map Expr.span) stop ∧ ∀ tree ∈ trees, tree.Every WellFormed

/-- A good tree alone is a good row. -/
theorem Good.row {tokens : List Lexeme} {tree : Expr} (h : Good tokens tree) :
    GoodRow tokens [tree] := by
  intro start stop tiles
  refine ⟨h.spread tiles, ?_⟩
  simpa using h.every tiles

/-- **A node is well-formed when its children stand in a row over its tokens.** -/
theorem GoodRow.node {kind : Kind} {tokens : List Lexeme} {children : List Expr}
    (h : GoodRow tokens children) (filled : tokens ≠ [])
    (hkind : ∀ connective, kind ≠ .logical connective) :
    Good tokens (.node kind (cover tokens) children) := by
  refine ⟨⟨filled, rfl⟩, fun tiles => ?_⟩
  obtain ⟨hspread, hevery⟩ := h tiles
  have hcover := tiles.cover_eq filled
  have hspread : Spread (cover tokens).start (children.map Expr.span) (cover tokens).stop := by
    rw [hcover]
    exact hspread
  exact .node ⟨laid_of_spread hspread, layered_of_kind hkind⟩ hevery

/-- A node without children is well-formed. -/
theorem good_leaf {kind : Kind} {tokens : List Lexeme} (filled : tokens ≠ [])
    (hkind : ∀ connective, kind ≠ .logical connective) :
    Good tokens (.node kind (cover tokens) []) := by
  refine GoodRow.node (fun _ _ tiles => ⟨tiles.le, ?_⟩) filled hkind
  simp

/-- What stands inside brackets stands in a row over all of it. -/
theorem GoodRow.around {opens : Token} {b : Bracket opens} {body : List Lexeme}
    {trees : List Expr} (h : GoodRow body trees) : GoodRow (b.around body) trees := by
  intro start stop tiles
  obtain ⟨first, last, hfirst, hbody, hlast⟩ := Bracket.tiles tiles
  obtain ⟨hspread, hevery⟩ := h hbody
  exact ⟨hspread.widen (Nat.le_of_lt hfirst) (Nat.le_of_lt hlast), hevery⟩

/-- Rows over tokens next to each other are a row over all of them. -/
theorem GoodRow.append {left right : List Lexeme} {trees more : List Expr}
    (hleft : GoodRow left trees) (hright : GoodRow right more) :
    GoodRow (left ++ right) (trees ++ more) := by
  intro start stop tiles
  obtain ⟨border, tiles, tiles'⟩ := tiles_append.mp tiles
  obtain ⟨hspread, hevery⟩ := hleft tiles
  obtain ⟨hspread', hevery'⟩ := hright tiles'
  refine ⟨by simpa using hspread.append hspread', fun tree ht => ?_⟩
  rcases List.mem_append.mp ht with ht | ht
  · exact hevery tree ht
  · exact hevery' tree ht

/-- Tokens without trees are a row of none. -/
theorem goodRow_nil (tokens : List Lexeme) : GoodRow tokens [] :=
  fun _ _ tiles => ⟨tiles.le, by simp⟩

/-! ## Construct by construct -/

section Constructs

variable {named : String → Prop} {inner : List Lexeme → Expr → Prop} {tokens : List Lexeme}
  {tree : Expr} {trees : List Expr}

/-- The tree of a symbol is good over its tokens. -/
theorem Symbol.good (h : Symbol named tokens tree) : Good tokens tree := by
  obtain ⟨-, -⟩ := h
  exact good_leaf (List.cons_ne_nil _ _) (by simp)

/-- The tree of a type's name is good over its tokens. -/
theorem TypeRef.good (h : TypeRef tokens tree) : Good tokens tree := by
  cases h
  exact good_leaf (List.cons_ne_nil _ _) (by simp)

/-- The tree of a quoted literal is good over its tokens. -/
theorem QuotedLiteral.good (h : QuotedLiteral tokens tree) : Good tokens tree := by
  cases h
  exact good_leaf (List.cons_ne_nil _ _) (by simp)

/-- The tree of a metadata name is good over its tokens. -/
theorem MetadataName.good (h : MetadataName named tokens tree) : Good tokens tree := by
  cases h with
  | symbol h => exact h.good
  | blank => exact good_leaf (List.cons_ne_nil _ _) (by simp)

/-- Tokens after a row make no difference to it. -/
theorem GoodRow.before {left : List Lexeme} (h : GoodRow left trees) (right : List Lexeme) :
    GoodRow (left ++ right) trees := by
  have := h.append (goodRow_nil right)
  rwa [List.append_nil] at this

/-- Tokens in front of a row make no difference to it. -/
theorem GoodRow.behind {right : List Lexeme} (h : GoodRow right trees) (left : List Lexeme) :
    GoodRow (left ++ right) trees :=
  (goodRow_nil left).append h

/-- The tree of item metadata is good over its tokens, the item's name before the metadata's. -/
theorem ItemMetadata.good (h : ItemMetadata named tokens tree) : Good tokens tree := by
  cases h with
  | empty b => exact good_leaf (b.around_ne_nil _) (by simp)
  | plain b h => exact h.good.row.around.node (b.around_ne_nil _) (by simp)
  | @qualified b type gap name period typeTree nameTree htype hgap hperiod hname =>
    have hrow := htype.good.row.append ((hname.good.row.behind [period]).behind gap)
    exact hrow.around.node (b.around_ne_nil _) (by simp)
  | @unnamed b type gap period typeTree _ htype hgap hperiod =>
    -- the empty name has no tokens: it stands where the period stops
    have hname : GoodRow [period] [Expr.symbol "" (Span.emptyAt period.span.stop)] := by
      intro start stop tiles
      obtain ⟨-, hlt, hstop⟩ := tiles
      have hstop : period.span.stop = stop := hstop
      refine ⟨⟨?_, Nat.le_refl _, Nat.le_of_eq hstop⟩, ?_⟩
      · exact Nat.le_of_lt hlt
      · intro tree ht
        rw [List.mem_singleton.mp ht]
        have hlaid : Spread period.span.stop [] period.span.stop := Nat.le_refl _
        exact .node ⟨laid_of_spread hlaid, trivial⟩ (by simp)
    have hrow := htype.good.row.append (hname.behind gap)
    exact hrow.around.node (b.around_ne_nil _) (by simp)

/-- The tree of an item list is good over its tokens. -/
theorem ItemGroup.good (h : ItemGroup named tokens tree) : Good tokens tree := by
  obtain ⟨b, h⟩ := h
  cases h with
  | none => exact good_leaf (b.around_ne_nil _) (by simp)
  | some h => exact h.good.row.around.node (b.around_ne_nil _) (by simp)

section Inside

variable (hi : ∀ l e, inner l e → Good l e)

include hi

/-- The tree of an argument is good over its tokens. -/
theorem Argument.good (h : Argument inner tokens tree) : Good tokens tree := by
  cases h with
  | number => exact good_leaf (by simp) (by simp)
  | expression h => exact hi _ _ h

/-- The trees of arguments between commas are a good row over their tokens. -/
theorem Arguments.good (h : Arguments inner tokens trees) : GoodRow tokens trees := by
  induction h with
  | last h => exact (h.good hi).row
  | more comma h _ ih => exact (h.good hi).row.append (ih.behind _)

/-- So are those of a list with its brackets. -/
theorem ArgumentList.good (h : ArgumentList inner tokens trees) : GoodRow tokens trees := by
  cases h with
  | empty b => exact goodRow_nil _
  | filled b h => exact (h.good hi).around

/-- The tree of a call is good over its tokens, the name before the arguments. -/
theorem FunctionCall.good (h : FunctionCall named inner tokens tree) : Good tokens tree := by
  cases h with
  | plain hname hn h => exact ((h.good hi).behind [_]).node (List.cons_ne_nil _ _) (by simp)
  | @onInstance target arguments period name text targetTree trees htarget _ _ _ h =>
    have hrow := htarget.good.row.append ((h.good hi).behind [period, name])
    exact hrow.node (by simp) (by simp)
  | @onType target arguments colons name text targetTree trees htarget _ _ _ h =>
    have hrow := htarget.good.row.append ((h.good hi).behind [colons, name])
    exact hrow.node (by simp) (by simp)

/-- The tree of an evaluation is good over its tokens. -/
theorem Evaluate.good (h : Evaluate named inner tokens tree) : Good tokens tree := by
  cases h with
  | call b h => exact (h.good hi).row.around.node (b.around_ne_nil _) (by simp)
  | symbol b h => exact h.good.row.around.node (b.around_ne_nil _) (by simp)

/-- The trees of a quoted text's parts are a good row over their tokens. -/
theorem Parts.good (h : Parts named inner tokens trees) : GoodRow tokens trees := by
  induction h with
  | nil => exact goodRow_nil _
  | evaluate h _ ih => exact (h.good hi).row.append ih
  | metadata h _ ih => exact h.good.row.append ih
  | group h _ ih => exact h.good.row.append ih
  | plain hrun hplain hnext _ ih => exact (good_leaf hrun (by simp)).row.append ih

/-- The tree of a quoted string is good over its tokens. -/
theorem QuotedString.good (h : QuotedString named inner tokens tree) : Good tokens tree := by
  obtain ⟨hopening, h, hclosing⟩ := h
  exact (((h.good hi).before _).behind [_]).node (List.cons_ne_nil _ _) (by simp)

/-- The trees of a transform's quoted text are a good row over their tokens. -/
theorem TransformText.good (h : TransformText named inner tokens trees) :
    GoodRow tokens trees := by
  cases h with
  | body h => exact (h.good hi).row
  | separated comma h hliteral => exact (h.good hi).row.append (hliteral.good.row.behind _)

/-- The tree of an item transform is good over its tokens. -/
theorem ItemTransform.good (h : ItemTransform named inner tokens tree) : Good tokens tree := by
  obtain ⟨b, arrow, hname, htext⟩ := h
  have hfilled := b.around_ne_nil
  cases htext with
  | none => exact (hname.good.row.before _).around.node (hfilled _) (by simp)
  | some h =>
    have hrow := hname.good.row.append ((h.good hi).behind arrow.lexemes)
    exact hrow.around.node (hfilled _) (by simp)

/-- The tree of an operand is good over its tokens. -/
theorem Operand.good (h : Operand named inner tokens tree) : Good tokens tree := by
  cases h with
  | quoted h => exact h.good hi
  | evaluate h => exact h.good hi
  | symbol => exact good_leaf (List.cons_ne_nil _ _) (by simp)

/-- The tree of a comparison is good over its tokens, the left side before the right one. -/
theorem Compared.good (h : Compared named inner tokens tree) : Good tokens tree := by
  obtain ⟨operator, hleft, hright⟩ := h
  have hrow := (hleft.good hi).row.append ((hright.good hi).row.behind operator.lexemes)
  exact hrow.node (by simp [Spaced.lexemes]) (by simp)

/-- Parentheses widen a span, so the children stay inside. -/
theorem Grouped.good (h : Grouped inner tokens tree) : Good tokens tree := by
  refine ⟨h.covers, fun {start stop} tiles => ?_⟩
  obtain ⟨b, h⟩ := h
  rename_i body tree
  obtain ⟨first, last, hfirst, hbody, hlast⟩ := Bracket.tiles tiles
  have hspan := (hi _ _ h).span_eq hbody
  have hevery := (hi _ _ h).every hbody
  obtain ⟨hlaid, hlayered⟩ := hevery.root
  rw [tiles.cover_eq (b.around_ne_nil _)]
  have hchildren := hevery.children
  obtain ⟨kind, span, children⟩ := tree
  obtain rfl : span = ⟨first, last⟩ := hspan
  refine .node ⟨⟨?_, fun child hc => ?_, hlaid.apart⟩, ?_⟩ hchildren
  · exact tiles.le
  · obtain ⟨hstart, hstop⟩ := hlaid.inside child hc
    exact ⟨Nat.le_trans (Nat.le_of_lt hfirst) hstart, Nat.le_trans hstop (Nat.le_of_lt hlast)⟩
  · exact layered_withSpan.mpr hlayered

/-- **A parenthesised node is not joined**: its span starts before its left operand. -/
theorem Grouped.not_isJoin (h : Grouped inner tokens tree) {start stop : Nat}
    (tiles : Tiles start tokens stop) (connective : Connective) : ¬ tree.IsJoin connective := by
  rintro ⟨l, r, htree⟩
  have hspan := (h.good hi).span_eq tiles
  obtain ⟨b, h⟩ := h
  rename_i body tree
  obtain ⟨first, last, hfirst, hbody, -⟩ := Bracket.tiles tiles
  have hinside := ((hi _ _ h).every hbody).root.laid.inside l
  have hchildren : tree.children = [l, r] := by
    rw [← children_withSpan (cover (b.around body)) tree, htree]
    rfl
  rw [hchildren, (hi _ _ h).span_eq hbody] at hinside
  rw [htree] at hspan
  -- joined, the span would start with the left operand, which is inside the parentheses
  have hstart : l.span.start = start := congrArg Span.start hspan
  have := (hinside (by simp)).1
  simp only at this
  omega

/-- The tree of a primary is good over its tokens: one case for each kind. -/
theorem Primary.good (h : Primary named inner tokens tree) : Good tokens tree := by
  cases h with
  | grouped h => exact h.good hi
  | compared h => exact h.good hi
  | call h => exact h.good hi
  | transform h => exact h.good hi
  | group h => exact h.good
  | metadata h => exact h.good
  | quoted h => exact h.good hi
  | evaluate h => exact h.good hi
  | symbol => exact good_leaf (List.cons_ne_nil _ _) (by simp)

/-- No primary is joined. -/
theorem Primary.not_isJoin (h : Primary named inner tokens tree) {start stop : Nat}
    (tiles : Tiles start tokens stop) (connective : Connective) : ¬ tree.IsJoin connective := by
  cases h with
  | grouped h => exact h.not_isJoin hi tiles connective
  | compared h =>
    cases h
    exact not_isJoin_of_kind (by simp [Expr.kind])
  | call h => cases h <;> exact not_isJoin_of_kind (by simp [Expr.kind])
  | transform h =>
    cases h
    exact not_isJoin_of_kind (by simp [Expr.kind])
  | group h =>
    cases h
    exact not_isJoin_of_kind (by simp [Expr.kind])
  | metadata h => cases h <;> exact not_isJoin_of_kind (by simp [Expr.kind])
  | quoted h =>
    cases h
    exact not_isJoin_of_kind (by simp [Expr.kind])
  | evaluate h => cases h <;> exact not_isJoin_of_kind (by simp [Expr.kind])
  | symbol => exact not_isJoin_of_kind (by simp [Expr.kind, Expr.symbol, Expr.leaf])

/-- No operand of `and` is joined: a negation has one operand only. -/
theorem Unary.not_isJoin (h : Unary named inner tokens tree) {start stop : Nat}
    (tiles : Tiles start tokens stop) (connective : Connective) : ¬ tree.IsJoin connective := by
  cases h with
  | primary h => exact h.not_isJoin hi tiles connective
  | not =>
    rintro ⟨l, r, h⟩
    simp [join] at h

/-- The tree of a unary expression is good over its tokens. -/
theorem Unary.good (h : Unary named inner tokens tree) : Good tokens tree := by
  induction h with
  | primary h => exact h.good hi
  | @not word gap tokens tree hword hgap h ih =>
    refine ⟨⟨List.cons_ne_nil _ _, rfl⟩, fun {start stop} tiles => ?_⟩
    have hrow : GoodRow (word :: (gap ++ tokens)) [tree] := (ih.row.behind gap).behind [word]
    obtain ⟨hspread, hevery⟩ := hrow tiles
    rw [tiles.cover_eq (List.cons_ne_nil _ _)]
    obtain ⟨-, -, tiles⟩ := tiles
    obtain ⟨border, -, tiles⟩ := tiles_append.mp tiles
    exact .node ⟨laid_of_spread hspread, tree, rfl, h.not_isJoin hi tiles .and, h.not_isJoin hi tiles .or⟩
      hevery

end Inside

/-- Operands that are joined are well-formed when they may be joined in that way. -/
theorem Joined.good {connective : Connective} {operand : List Lexeme → Expr → Prop}
    (ho : ∀ l e, operand l e → Good l e)
    (hjoin : ∀ {left right : List Lexeme} {l r : Expr} {start border border' stop : Nat},
      Joined connective operand left l → operand right r → Tiles start left border →
      Tiles border' right stop → ∀ span, Layered (.node (.logical connective) span [l, r]))
    (h : Joined connective operand tokens tree) : Good tokens tree := by
  induction h with
  | single h => exact ho _ _ h
  | @join word left right leftTree rightTree hleft hright ih =>
    refine ⟨⟨by simp [Spaced.lexemes], rfl⟩, fun {start stop} tiles => ?_⟩
    obtain ⟨hspread, hevery⟩ := ih.row.append ((ho _ _ hright).row.behind word.lexemes) tiles
    obtain ⟨border, border', tiles_left, -, tiles_right⟩ := Spaced.tiles tiles
    rw [tiles.cover_eq (by simp [Spaced.lexemes])]
    exact .node ⟨laid_of_spread hspread, hjoin hleft hright tiles_left tiles_right _⟩ hevery

/-- What is joined by `and` is not joined by `or` without parentheses. -/
theorem Joined.not_isJoin_or (hi : ∀ l e, inner l e → Good l e)
    (h : Joined .and (Unary named inner) tokens tree) {start stop : Nat}
    (tiles : Tiles start tokens stop) : ¬ tree.IsJoin .or := by
  cases h with
  | single h => exact h.not_isJoin hi tiles .or
  | join => exact not_isJoin_of_kind (by simp [Expr.kind])

end Constructs

/-- **Every node of a derived tree is well-formed.** -/
theorem Expression.good {named : String → Prop} {tokens : List Lexeme} {tree : Expr}
    (h : Expression named tokens tree) : Good tokens tree := by
  refine Expression.induction (fun tokens tree h => ?_) h
  have hi : ∀ l e, (l.length < tokens.length ∧ Expression named l e ∧ Good l e) → Good l e :=
    fun _ _ h => h.2.2
  refine h.good (fun _ _ h => h.good (fun _ _ h => h.good hi) fun hleft hright tiles tiles' _ => ?_)
    fun hleft hright tiles tiles' _ => ?_
  · -- operands of `or`
    exact ⟨_, _, rfl, hright.not_isJoin_or hi tiles'⟩
  · -- operands of `and`
    exact ⟨_, _, rfl, hleft.not_isJoin_or hi tiles, hright.not_isJoin hi tiles' .or,
      hright.not_isJoin hi tiles' .and⟩

end Derivation

end ProjectLens
