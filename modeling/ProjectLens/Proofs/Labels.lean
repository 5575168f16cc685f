import ProjectLens.Outline.Expression
import ProjectLens.Proofs.Subtrees

/-! # Labels that break lines

Labels of expressions show names and numbers as they are, and other texts quoted. Line breaks are white
space, so no identifier and no number has one, and quoted texts have theirs escaped. This leaves one
kind of label that can break its line, that of a name which is nothing but white space.

* `Quoted.unbroken_ofText`: a quoted text has no line break;
* `Kind.shown`, `Kind.unbroken_label`: the texts that a label shows as they are;
* `ExprNode.mem_outlineLine`: what of a label is shown;
* `Derivation.OneLine`, `Derivation.IsBlankName`, `oneLine_of_parseExpr`: what the names and numbers of a
  parsed text are. -/

namespace ProjectLens

/-! ## Texts without line breaks -/

/-- Hexadecimal digits have no line break. -/
theorem Quoted.unbroken_hexDigits (n : Nat) : '\n' ∉ Quoted.hexDigits n := by
  have hdigit : ∀ d < 16, '\n' ≠ Nat.digitChar d := by decide
  induction n using Nat.strongRecOn with
  | _ n ih =>
    rw [hexDigits, Nat.toDigits_eq_if (by omega)]
    split
    · next hsmall => exact fun h => hdigit n hsmall (List.mem_singleton.mp h)
    · next hlarge =>
      rw [List.mem_append, List.mem_singleton, not_or]
      exact ⟨ih (n / 16) (by omega), hdigit _ (Nat.mod_lt n (by omega))⟩

/-- A line break is escaped, and no escape has one. -/
theorem Quoted.unbroken_escapeChar (c : Char) : '\n' ∉ Quoted.escapeChar '\x22' c := by
  unfold escapeChar
  repeat' split
  all_goals try decide
  · next hne _ _ => simpa using Ne.symm hne
  · rw [escapeCode, List.mem_append, List.mem_append, not_or, not_or]
    exact ⟨⟨by decide, unbroken_hexDigits _⟩, by decide⟩

/-- **A quoted text has no line break.** -/
theorem Quoted.unbroken_ofText (text : String) : '\n' ∉ (Quoted.ofText text).toList := by
  rw [ofText, String.toList_ofList]
  simp [unbroken_escapeChar]

/-- Decimal digits have no line break. -/
theorem unbroken_digits (n : Nat) : '\n' ∉ Nat.toDigits 10 n :=
  fun h => absurd (Nat.isDigit_of_mem_toDigits (by omega) (by omega) h) (by decide)

/-! ## Labels and lines -/

/-- The texts of a kind that its label shows as they are. -/
def Kind.shown : Kind → List String
  | .symbol name space => [name, space]
  | .number value => [value]
  | .call name _ => [name]
  | _ => []

/-- **A label has no line break but those of the texts it shows as they are.** -/
theorem Kind.unbroken_label {kind : Kind} (h : ∀ text ∈ kind.shown, '\n' ∉ text.toList) :
    '\n' ∉ kind.label.toList := by
  cases kind with
  | symbol name space =>
    simp only [shown, List.forall_mem_cons] at h
    rw [label]
    split
    · exact h.1
    · simp [h]
  | call name form =>
    simp only [shown, List.forall_mem_cons] at h
    cases form <;> simp [label, h]
  | number value => exact h value List.mem_cons_self
  | quotedLiteral content => exact Quoted.unbroken_ofText content
  | stringContent content => exact Quoted.unbroken_ofText content
  | simpleItem value => exact Quoted.unbroken_ofText value
  | comparison relation => cases relation <;> decide
  | logical connective => cases connective <;> decide
  | _ => simp [label, name]

/-- No more than so many characters of a label are shown. -/
theorem Outline.mem_clip (label : String) :
    '\n' ∈ (clip label).toList ↔ '\n' ∈ label.toList.take labelWidth := by
  simp only [clip]
  split
  · simp
  · next hshort => rw [List.take_of_length_le (by omega)]

/-- **A line is broken by what is shown of its label, and by nothing else.** -/
theorem ExprNode.mem_outlineLine (node : ExprNode) (showSpans : Bool) :
    '\n' ∈ (node.outlineLine showSpans).toList ↔
      '\n' ∈ node.kind.label.toList.take Outline.labelWidth := by
  have hicon : '\n' ∉ node.kind.icon.toList := by
    cases node.kind with
    | logical connective => cases connective <;> decide
    | _ => rw [Kind.icon]; decide
  rw [← Outline.mem_clip]
  cases showSpans <;> simp [outlineLine, Outline.line, hicon, unbroken_digits]

/-! ## Names and numbers of parsed texts -/

namespace Derivation

open Token

variable {tokens : List Lexeme} {lexeme : Lexeme} {tree : Expr} {text name : String}

/-- **Some tokens have no line break in their names and numbers.** -/
structure Unbroken (tokens : List Lexeme) : Prop where
  /-- Identifiers. -/
  identifier : ∀ lexeme ∈ tokens, ∀ name, lexeme.token = .identifier name → '\n' ∉ name.toList
  /-- Numbers. -/
  number : ∀ lexeme ∈ tokens, ∀ digits, lexeme.token = .number digits → '\n' ∉ digits.toList

/-- A run of characters that go on with a name or a number has no line break. -/
theorem unbroken_run {p : Char → Bool} {c : Char} {run : List Char} (hp : p '\n' = false)
    (hc : p c = true) (hrun : ∀ d ∈ run, p d = true) :
    '\n' ∉ (String.ofList (c :: run)).toList := by
  rw [String.toList_ofList]
  intro hmem
  rcases List.mem_cons.mp hmem with heq | hmem
  · rw [← heq, hp] at hc
    cases hc
  · cases hp.symm.trans (hrun _ hmem)

/-- **The tokens of a text** have line breaks only in white space, and in escapes of their own. -/
theorem unbroken_lex (text : String) : Unbroken (lex text) := by
  constructor
  · intro lexeme hlexeme name htoken
    have hcut := lex_cut text lexeme hlexeme
    rw [htoken] at hcut
    generalize (Index.ofText text).sliceChars lexeme.span = piece at hcut
    cases hcut with
    | identifier hstart hrun _ =>
      refine unbroken_run (p := continuesName) (by decide) ?_ hrun
      rw [continuesName, hstart, Bool.true_or]
    | mark hmark => cases hmark
  · intro lexeme hlexeme digits htoken
    have hcut := lex_cut text lexeme hlexeme
    rw [htoken] at hcut
    generalize (Index.ofText text).sliceChars lexeme.span = piece at hcut
    cases hcut with
    | number hstart hrun _ => exact unbroken_run (by decide) hstart hrun
    | mark hmark => cases hmark

/-- Some of unbroken tokens are unbroken. -/
theorem Unbroken.mono {more : List Lexeme} (h : Unbroken more) (hsub : ∀ l ∈ tokens, l ∈ more) :
    Unbroken tokens :=
  ⟨fun l hl => h.identifier l (hsub l hl), fun l hl => h.number l (hsub l hl)⟩

/-- What the label of a node shows as it is has no line break. -/
def OneLine (tree : Expr) : Prop := ∀ text ∈ tree.kind.shown, '\n' ∉ text.toList

/-- A node that shows no text as it is. -/
theorem oneLine_of_kind (h : tree.kind.shown = []) : OneLine tree := by
  simp [OneLine, h]

/-- The label of a symbol is one line. -/
theorem Symbol.oneLine {named : String → Prop} (h : Symbol named tokens tree)
    (hunbroken : Unbroken tokens) : OneLine tree := by
  obtain ⟨htoken, -⟩ := h
  rename_i lexeme name
  have hname := hunbroken.identifier lexeme List.mem_cons_self name htoken
  simp [OneLine, Expr.symbol, Expr.leaf, Expr.kind, Kind.shown, hname]

/-- The names of a dotted name have no line break. -/
theorem Segments.unbroken {names : List String} (h : Segments tokens names)
    (hunbroken : Unbroken tokens) : ∀ name ∈ names, '\n' ∉ name.toList := by
  induction h with
  | last htoken =>
    rw [List.forall_mem_singleton]
    exact hunbroken.identifier _ List.mem_cons_self _ htoken
  | more htoken _ _ ih =>
    refine List.forall_mem_cons.mpr ⟨hunbroken.identifier _ List.mem_cons_self _ htoken, ih ?_⟩
    exact hunbroken.mono fun l hl => List.mem_cons_of_mem _ (List.mem_cons_of_mem _ hl)

/-- Names with periods between them. -/
theorem unbroken_intercalate {names : List String} (h : ∀ name ∈ names, '\n' ∉ name.toList) :
    '\n' ∉ (".".intercalate names).toList := by
  induction names with
  | nil => simp
  | cons name names ih =>
    obtain ⟨hname, hnames⟩ := List.forall_mem_cons.mp h
    cases names with
    | nil => simpa using hname
    | cons second names =>
      rw [String.intercalate_cons_of_ne_nil (List.cons_ne_nil _ _)]
      simp only [String.toList_append, List.mem_append, not_or]
      exact ⟨⟨hname, by decide⟩, ih hnames⟩

/-- The label of a type's name is one line. -/
theorem TypeRef.oneLine (h : TypeRef tokens tree) (hunbroken : Unbroken tokens) : OneLine tree := by
  obtain ⟨-, hsegments, -⟩ := h
  rename_i opening closing body names
  have hnames := hsegments.unbroken (hunbroken.mono fun l hl =>
    List.mem_cons_of_mem _ (List.mem_append_left _ hl))
  have hspace := unbroken_intercalate fun name hname => hnames name ((List.dropLast_sublist names).subset hname)
  have hlast : '\n' ∉ (names.getLast?.getD "").toList := by
    cases hlast : names.getLast? with
    | none => simp
    | some name => exact hnames name (List.mem_of_getLast? hlast)
  exact List.forall_mem_cons.mpr ⟨hlast, List.forall_mem_singleton.mpr hspace⟩

/-- The label of a call is one line. -/
theorem FunctionCall.oneLine {named : String → Prop} {inner : List Lexeme → Expr → Prop}
    (h : FunctionCall named inner tokens tree) (hunbroken : Unbroken tokens) : OneLine tree := by
  cases h with
  | plain htoken _ _ =>
    have hname := hunbroken.identifier _ List.mem_cons_self _ htoken
    simp [OneLine, Expr.kind, Kind.shown, hname]
  | onInstance _ _ htoken _ _ =>
    have hname := hunbroken.identifier _ (by simp) _ htoken
    simp [OneLine, Expr.kind, Kind.shown, hname]
  | onType _ _ htoken _ _ =>
    have hname := hunbroken.identifier _ (by simp) _ htoken
    simp [OneLine, Expr.kind, Kind.shown, hname]

/-- **The names in an expression**, inside of any parentheses. -/
theorem Expression.oneLine {named : String → Prop} (h : Expression named tokens tree)
    (hunbroken : Unbroken tokens) : OneLine tree := by
  revert hunbroken
  refine Expression.induction (motive := fun tokens tree => Unbroken tokens → OneLine tree) ?_ h
  intro tokens tree h hunbroken
  -- nothing that is joined or negated shows a name
  cases h with
  | join => exact oneLine_of_kind rfl
  | single h =>
  cases h with
  | join => exact oneLine_of_kind rfl
  | single h =>
  cases h with
  | not => exact oneLine_of_kind rfl
  | primary h =>
  cases h with
  | grouped h =>
    obtain ⟨b, -, -, ih⟩ := h
    rename_i body tree
    rw [OneLine, Expr.kind_withSpan]
    exact ih (hunbroken.mono fun l hl => by simp [Bracket.around, hl])
  | compared h => cases h; exact oneLine_of_kind rfl
  | call h => exact h.oneLine hunbroken
  | transform h => cases h; exact oneLine_of_kind rfl
  | group h => cases h; exact oneLine_of_kind rfl
  | metadata h => cases h <;> exact oneLine_of_kind rfl
  | quoted h => cases h; exact oneLine_of_kind rfl
  | evaluate h => cases h <;> exact oneLine_of_kind rfl
  | symbol htoken hnamed => exact (Symbol.intro htoken hnamed).oneLine hunbroken

/-- The label of an argument is one line. -/
theorem Argument.oneLine {named : String → Prop} (h : Argument (Expression named) tokens tree)
    (hunbroken : Unbroken tokens) : OneLine tree := by
  cases h with
  | expression h => exact h.oneLine hunbroken
  | @number sign fraction digits minus whole decimals hsign hwhole hfraction =>
    have hdigits := hunbroken.number digits (by simp) whole hwhole
    -- sign and digits are all there is in a number
    have hdecimals : ∀ text ∈ decimals, '\n' ∉ text.toList := by
      cases hfraction with
      | none => simp
      | some h =>
        obtain ⟨-, htoken⟩ := h
        rintro _ ⟨⟩
        exact hunbroken.number _ (by simp) _ htoken
    have hsign : '\n' ∉ (if minus.isSome then "-" else "").toList := by
      split <;> simp
    cases decimals with
    | none =>
      simp [OneLine, Expr.leaf, Expr.kind, Kind.shown, Grammar.numberText, hsign, hdigits]
    | some decimals =>
      simp [OneLine, Expr.leaf, Expr.kind, Kind.shown, Grammar.numberText, hsign, hdigits,
        hdecimals decimals rfl]

/-- A name that is white space, and the token it is taken from. -/
def IsBlankName (text : String) (tree : Expr) : Prop :=
  ∃ lexeme ∈ lex text, lexeme.token.isWhitespace = true ∧
    tree = Expr.symbol lexeme.token.text lexeme.span

/-- **Whatever a node of a parsed text is derived as**, its label shows names and numbers without line
breaks, unless it is that of white space in place of a name. -/
theorem Subtree.oneLine {named : String → Prop} (hpart : tokens <:+: lex text)
    (h : Subtree named tokens tree) : OneLine tree ∨ IsBlankName text tree := by
  have hunbroken := (unbroken_lex text).mono fun l hl => hpart.subset hl
  cases h with
  | expression h => exact .inl (h.oneLine hunbroken)
  | argument h => exact .inl (h.oneLine hunbroken)
  | typeRef h => exact .inl (h.oneLine hunbroken)
  | name h =>
    cases h with
    | symbol h => exact .inl (h.oneLine hunbroken)
    | @blank lexeme hspace =>
      exact .inr ⟨lexeme, hpart.subset List.mem_cons_self, hspace, rfl⟩
  | literal h =>
    obtain ⟨-, -, -⟩ := h
    exact .inl (oneLine_of_kind rfl)
  | run => exact .inl (oneLine_of_kind rfl)

end Derivation

open ProjectLens.Derivation

/-- What is put between and in place of items shows no name. -/
theorem Expr.IsMark.oneLine {e : Expr} (h : e.IsMark) : OneLine e := by
  rcases h.kind with hkind | hkind | ⟨shift, hkind⟩ <;> simp [OneLine, hkind, Kind.shown]

/-- Nodes of plain lists quote their texts. -/
theorem every_oneLine_simpleListExpr (chars : List Char) (semicolons : List Span) :
    (simpleListExpr chars semicolons).Every OneLine := by
  have hitem (core : Span) : (SimpleList.item chars core).Every OneLine := by
    unfold SimpleList.item
    split <;> exact .node (oneLine_of_kind rfl) (by simp)
  have hlater (length previous : Nat) (semicolons : List Span) :
      ∀ child ∈ SimpleList.later chars length previous semicolons, child.Every OneLine := by
    induction semicolons generalizing previous with
    | nil => simp [SimpleList.later]
    | cons semicolon rest ih =>
      rw [SimpleList.later]
      refine List.forall_mem_cons.mpr ⟨?_, List.forall_mem_cons.mpr ⟨hitem _, ih _⟩⟩
      exact .node (oneLine_of_kind rfl) (by simp)
  exact .node (oneLine_of_kind rfl) (List.forall_mem_cons.mpr ⟨hitem _, hlater _ _ _⟩)

/-- **The nodes of a parsed text** show names and numbers without line breaks, but for white space in
place of a name. -/
theorem oneLine_of_parseExpr {form : Form} {text : String} {expr : Expr}
    (h : parseExpr form text = .ok expr) :
    expr.Every fun e => OneLine e ∨ IsBlankName text e := by
  have hmark : ∀ e : Expr, e.IsMark → OneLine e ∨ IsBlankName text e := fun e he => .inl he.oneLine
  have hsubtree : ∀ l e, l <:+: lex text → Subtree anyName l e → OneLine e ∨ IsBlankName text e :=
    fun l e hpart he => he.oneLine hpart
  cases form with
  | root => exact every_of_parse_root hmark hsubtree h
  | list =>
    obtain ⟨parts, hparts, rfl⟩ := parseExpr_list_eq_ok.mp h
    exact .node (.inl (oneLine_of_kind rfl)) (every_of_parse_list hmark hsubtree hparts)
  | simpleList =>
    obtain ⟨semicolons, -, rfl⟩ := parseExpr_simpleList_eq_ok.mp h
    exact (every_oneLine_simpleListExpr text.toList semicolons).mono fun e he => .inl he

end ProjectLens
