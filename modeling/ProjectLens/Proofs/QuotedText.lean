import ProjectLens.Expression.Parts
import ProjectLens.Proofs.Splitting
import ProjectLens.Proofs.Subtrees

/-! # The text of quoted strings

A quoted string is read token by token: references are nodes of their own, and the tokens between them
are put together into runs, decoded one by one. Decoding a run token by token is decoding its characters
from left to right, since a per cent sign is left alone as a token only where no two digits follow, and
the end of a run never tears an escape apart.

* `percentDecode`: a text with its escapes decoded;
* `Token.Cut.percentDecode_eq`, `Grammar.Stretch.percentDecode_eq`: tokens decode the text under them;
* `QuotedRow`: the children of a quoted string;
* `Expr.Quotes`, `Derivation.Subtree.quotes`: the quoted text of every construct;
* `parseAs_quotes`: the trees of all texts. -/

namespace ProjectLens

open Token SimpleList

/-! ## Decoding a text -/

/-- **A text with its escapes decoded**: from left to right, a per cent sign and two hexadecimal digits
become the character with that code, and everything else stays. -/
def percentDecode : List Char → List Char
  | '%' :: high :: low :: rest =>
    match hexValue? high, hexValue? low with
    | some h, some l => Char.ofNat (16 * h + l) :: percentDecode rest
    | _, _ => '%' :: percentDecode (high :: low :: rest)
  | c :: rest => c :: percentDecode rest
  | [] => []

/-- What was decoded is not decoded again, and an escape that is cut short stays. -/
example : percentDecode "a%2541%4".toList = "a%41%4".toList := by decide

/-- A character other than `%` stands for itself. -/
theorem percentDecode_cons {c : Char} (rest : List Char) (h : c ≠ '%') :
    percentDecode (c :: rest) = c :: percentDecode rest := by
  rw [percentDecode]
  rintro _ _ _ rfl
  exact absurd rfl h

/-- So does a run of them. -/
theorem percentDecode_append {run : List Char} (rest : List Char) (h : ∀ c ∈ run, c ≠ '%') :
    percentDecode (run ++ rest) = run ++ percentDecode rest := by
  induction run with
  | nil => rfl
  | cons c run ih =>
    obtain ⟨hc, hrun⟩ := List.forall_mem_cons.mp h
    rw [List.cons_append, percentDecode_cons _ hc, ih hrun, List.cons_append]

/-- A per cent sign begins no escape unless two digits follow. -/
theorem percentDecode_percent {rest : List Char}
    (h : ∀ high low more, rest = high :: low :: more → hexValue? high = none ∨ hexValue? low = none) :
    percentDecode ('%' :: rest) = '%' :: percentDecode rest := by
  match rest with
  | [] => rfl
  | [_] => rfl
  | high :: low :: more =>
    rw [percentDecode]
    rcases h high low more rfl with hnone | hnone
    · rw [hnone]
    · rw [hnone]
      cases hexValue? high <;> rfl

namespace Token

variable {token : Token} {piece rest more : List Char}

/-- A mark decodes to its own text. -/
theorem decoded_of_isMark (h : token.isMark = true) : token.decoded = token.text := by
  cases token with
  | escape => cases h
  | _ => rfl

/-- **A token decodes the characters it is cut off as**, whatever of the text behind it is looked at. -/
theorem Cut.percentDecode_eq (h : Cut token piece (rest ++ more)) :
    percentDecode (piece ++ rest) = token.decoded.toList ++ percentDecode rest := by
  -- only an escape, an opening and a single character can begin with a per cent sign
  cases h with
  | @identifier c run _ hstarts hrun _ =>
    have hc : continuesName c = true := by rw [continuesName, hstarts, Bool.true_or]
    rw [percentDecode_append _ (run_ne_percent (by decide) hc hrun), decoded, text,
      String.toList_ofList]
    exact fun _ => Token.noConfusion
  | number hdigit hrun _ =>
    rw [percentDecode_append _ (run_ne_percent (by decide) hdigit hrun), decoded, text,
      String.toList_ofList]
    exact fun _ => Token.noConfusion
  | whitespace hspace hrun _ =>
    rw [percentDecode_append _ (run_ne_percent (by decide) hspace hrun), decoded, text,
      String.toList_ofList]
    exact fun _ => Token.noConfusion
  | escape hhigh hlow =>
    rw [decoded, String.toList_ofList]
    simp only [List.cons_append, List.nil_append]
    rw [percentDecode, hhigh, hlow]
  | mark hmark =>
    rw [decoded_of_isMark hmark]
    by_cases hopen : token = .itemMetadataOpen
    · -- the one mark that begins with a per cent sign goes on with a parenthesis
      subst hopen
      have hpercent : percentDecode ('%' :: '(' :: rest) = '%' :: percentDecode ('(' :: rest) := by
        refine percentDecode_percent ?_
        rintro high low more hsplit
        cases hsplit
        exact Or.inl rfl
      rw [percentDecode_cons rest (by decide)] at hpercent
      simpa [text] using hpercent
    · refine percentDecode_append _ ?_
      cases token <;> simp [isMark, text] at hmark hopen ⊢
  | @other c _ _ _ _ hnone =>
    rw [decoded, text, String.toList_ofList, List.singleton_append, List.singleton_append]
    · by_cases hpercent : c = '%'
      · -- two digits would follow in all of the text as well
        subst hpercent
        refine percentDecode_percent fun high low tail hrest => ?_
        refine digit_missing hnone high low (tail ++ more) ?_
        rw [hrest]
        rfl
      · exact percentDecode_cons _ hpercent
    · exact fun _ => Token.noConfusion

end Token

namespace Grammar

/-- **Tokens in a row decode the text under them.** -/
theorem Stretch.percentDecode_eq {text : String} {start stop : Nat} {tokens : List Lexeme}
    (h : Stretch text start tokens stop) :
    percentDecode (charsOf text.toList ⟨start, stop⟩) =
      (decode (tokens.map Lexeme.token)).toList := by
  have hdecode : ∀ tokens : List Token,
      (decode tokens).toList = tokens.flatMap fun token => token.decoded.toList := by
    intro tokens
    rw [decode, String.toList_join, List.flatMap_map]
  rw [hdecode]
  induction tokens generalizing start with
  | nil =>
    obtain rfl : start = stop := h.tiles
    rw [charsOf_self]
    rfl
  | cons lexeme rest ih =>
    obtain ⟨hmem, rfl, hlt, hrest⟩ := stretch_cons.mp h
    have hcut := lex_cut text lexeme hmem
    -- what follows the token begins with the rest of the stretch
    have hsplit : text.toList.drop lexeme.span.stop =
        charsOf text.toList ⟨lexeme.span.stop, stop⟩ ++
          (text.toList.drop lexeme.span.stop).drop (stop - lexeme.span.stop) :=
      (List.take_append_drop _ _).symm
    rw [hsplit] at hcut
    rw [charsOf_append (Nat.le_of_lt hlt) hrest.le, List.map_cons, List.flatMap_cons, ← ih hrest]
    exact hcut.percentDecode_eq

/-- A quote is one character. -/
theorem Stretch.quote {text : String} {start stop : Nat} {lexeme : Lexeme}
    (h : Stretch text start [lexeme] stop) (htoken : lexeme.token = .quote)
    (hlength : stop ≤ text.toList.length) :
    stop = start + 1 ∧ text.toList[start]? = some '\x27' := by
  obtain ⟨hmem, rfl, hlt, hnil⟩ := stretch_cons.mp h
  obtain rfl : lexeme.span.stop = stop := hnil.tiles
  -- the token was cut from the text, and a quote is cut from one character
  have hcut := lex_cut text lexeme hmem
  rw [htoken] at hcut
  have hchars : charsOf text.toList lexeme.span = ['\x27'] := by
    show (Index.ofText text).sliceChars lexeme.span = ['\x27']
    generalize (Index.ofText text).sliceChars lexeme.span = piece at hcut ⊢
    cases hcut with
    | mark _ => rfl
  have hcount : (charsOf text.toList lexeme.span).length = lexeme.span.stop - lexeme.span.start :=
    length_charsOf hlength
  rw [hchars, List.length_singleton] at hcount
  have hstop : lexeme.span.stop = lexeme.span.start + 1 := by omega
  refine ⟨hstop, ?_⟩
  have hfirst : (charsOf text.toList lexeme.span)[0]? = some '\x27' := by rw [hchars]; rfl
  rw [charsOf, List.getElem?_take, Span.length, hstop] at hfirst
  simpa using hfirst

end Grammar

/-! ## Quoted strings -/

/-- Whether a node is a plain run in a string. -/
def Kind.isContent : Kind → Bool
  | .stringContent _ => true
  | _ => false

/-- **The children of a quoted string.** -/
structure QuotedRow (chars : List Char) (children : List ListChild) : Prop where
  /-- Each child starts where the one before it stops. -/
  contiguous : children.IsChain fun a b => a.span.stop = b.span.start
  /-- No two plain runs are neighbours. -/
  separate : children.IsChain fun a b => ¬ (a.kind.isContent = true ∧ b.kind.isContent = true)
  /-- Right before the first child there is a quote. -/
  opening : ∀ first ∈ children.head?,
    0 < first.span.start ∧ chars[first.span.start - 1]? = some '\x27'
  /-- Right after the last child there is a quote. -/
  closing : ∀ last ∈ children.getLast?, chars[last.span.stop]? = some '\x27'
  /-- Plain runs are decoded. -/
  decoded : ∀ child ∈ children, ∀ content, child.kind = .stringContent content →
    content.toList = percentDecode (charsOf chars child.span)

/-- **The text of a literal** stands between two quotes, and is decoded. -/
structure QuotedBody (chars : List Char) (span : Span) (content : String) : Prop where
  /-- The quotes are two characters of it. -/
  room : span.start + 2 ≤ span.stop
  /-- It begins with a quote. -/
  opening : chars[span.start]? = some '\x27'
  /-- It ends with a quote. -/
  closing : chars[span.stop - 1]? = some '\x27'
  /-- The text between them is decoded. -/
  decoded : content.toList = percentDecode (charsOf chars ⟨span.start + 1, span.stop - 1⟩)

/-- **The quoted text of a node**, whatever it is. -/
structure Expr.Quotes (chars : List Char) (e : Expr) : Prop where
  /-- The children of a quoted string. -/
  string : e.kind = .quotedString → QuotedRow chars (e.children.map Expr.asChild)
  /-- The content of a literal. -/
  literal : ∀ content, e.kind = .quotedLiteral content → QuotedBody chars e.span content

/-- Whether a node is quoted text. -/
def Kind.isQuoted : Kind → Bool
  | .quotedString | .quotedLiteral _ => true
  | _ => false

/-- An expression that is not quoted has nothing to show. -/
theorem Expr.quotes_of_kind {chars : List Char} {e : Expr} (h : e.kind.isQuoted = false) :
    e.Quotes chars := by
  constructor
  · intro hkind
    rw [hkind] at h
    cases h
  · intro content hkind
    rw [hkind] at h
    cases h

namespace Derivation

open Grammar

variable {named : String → Prop} {inner : List Lexeme → Expr → Prop} {tokens : List Lexeme}
  {text : String} {tree : Expr} {trees : List Expr} {start stop : Nat}

/-- A plain run at the front of some parts begins with their first token. -/
theorem Parts.isPlain_head (h : Parts named inner tokens (tree :: trees))
    (hkind : tree.kind.isContent = true) :
    ∃ lexeme ∈ tokens.head?, isPlain lexeme.token = true := by
  cases h with
  | evaluate h _ => cases h <;> cases hkind
  | metadata h _ => cases h <;> cases hkind
  | group h _ => cases h; cases hkind
  | @plain run rest _ hrun hplain _ _ =>
    obtain ⟨lexeme, run, rfl⟩ := List.exists_cons_of_ne_nil hrun
    exact ⟨lexeme, rfl, hplain lexeme List.mem_cons_self⟩

/-- The parts of a string between two offsets. -/
structure PartsRow (chars : List Char) (start : Nat) (children : List ListChild) (stop : Nat) :
    Prop where
  abut : Abut start (children.map ListChild.span) stop
  separate : children.IsChain fun a b => ¬ (a.kind.isContent = true ∧ b.kind.isContent = true)
  decoded : ∀ child ∈ children, ∀ content, child.kind = .stringContent content →
    content.toList = percentDecode (charsOf chars child.span)

/-- A reference, then other parts. -/
theorem PartsRow.reference {chars : List Char} {middle : Nat} {children : List ListChild}
    (h : PartsRow chars middle children stop) (hspan : tree.span = ⟨start, middle⟩)
    (hle : start ≤ middle) (hkind : tree.kind.isContent = false) :
    PartsRow chars start (tree.asChild :: children) stop := by
  have hkind : tree.asChild.kind.isContent = false := hkind
  refine ⟨?_, List.isChain_cons.mpr ⟨fun _ _ => by simp [hkind], h.separate⟩, ?_⟩
  · show tree.span.start = start ∧ tree.span.start ≤ tree.span.stop ∧
      Abut tree.span.stop (children.map ListChild.span) stop
    rw [hspan]
    exact ⟨rfl, hle, h.abut⟩
  · refine List.forall_mem_cons.mpr ⟨fun content hcontent => ?_, h.decoded⟩
    rw [hcontent] at hkind
    cases hkind

/-- A reference over tokens, before parts that are a row from wherever its tokens end. -/
theorem Covers.partsRow {rest : List Lexeme} {children : List ListChild} (h : Covers tokens tree)
    (hkind : tree.kind.isContent = false) (hstretch : Stretch text start (tokens ++ rest) stop)
    (hrest : ∀ {middle : Nat}, Stretch text middle rest stop →
      PartsRow text.toList middle children stop) :
    PartsRow text.toList start (tree.asChild :: children) stop := by
  obtain ⟨middle, hfirst, hmore⟩ := stretch_append.mp hstretch
  have hspan := h.span_eq.trans (hfirst.tiles.cover_eq h.filled)
  exact (hrest hmore).reference hspan hfirst.le hkind

/-- **The parts of a string stand end to end**, and runs are as long as they can be. -/
theorem Parts.row (h : Parts named (Expression named) tokens trees)
    (hstretch : Stretch text start tokens stop) :
    PartsRow text.toList start (trees.map Expr.asChild) stop := by
  -- the induction is on the parts, from left to right
  induction h generalizing start with
  | nil => exact ⟨hstretch.tiles, .nil, by simp⟩
  | evaluate h _ ih => exact h.covers.partsRow (by cases h <;> rfl) hstretch ih
  | metadata h _ ih => exact h.covers.partsRow (by cases h <;> rfl) hstretch ih
  | group h _ ih => exact h.covers.partsRow (by cases h; rfl) hstretch ih
  | @plain run rest trees hrun _ hnext hparts ih =>
    obtain ⟨middle, hfirst, hrest⟩ := stretch_append.mp hstretch
    obtain ⟨habut, hseparate, hdecoded⟩ := ih hrest
    rw [hfirst.tiles.cover_eq hrun]
    refine ⟨⟨rfl, hfirst.le, habut⟩, List.isChain_cons.mpr ⟨?_, hseparate⟩, ?_⟩
    · -- a run right after this one would have been part of it
      intro next hmem hboth
      cases trees with
      | nil => cases hmem
      | cons other trees =>
        obtain rfl : other.asChild = next := Option.some.inj hmem
        obtain ⟨lexeme, hlexeme, hplain⟩ := hparts.isPlain_head hboth.2
        rw [hnext lexeme hlexeme] at hplain
        cases hplain
    · refine List.forall_mem_cons.mpr ⟨fun content hcontent => ?_, hdecoded⟩
      obtain rfl : decode (run.map Lexeme.token) = content := Kind.stringContent.inj hcontent
      exact hfirst.percentDecode_eq.symm

/-- Children that abut form a chain from the start to the end. -/
theorem isChain_of_abut {children : List ListChild} (h : Abut start (children.map ListChild.span) stop) :
    children.IsChain (fun a b => a.span.stop = b.span.start) ∧
      (∀ first ∈ children.head?, first.span.start = start) ∧
      ∀ last ∈ children.getLast?, last.span.stop = stop := by
  induction children generalizing start with
  | nil => exact ⟨.nil, by simp, by simp⟩
  | cons first rest ih =>
    obtain ⟨hstart, -, hrest⟩ := h
    obtain ⟨hchain, hnext, hlast⟩ := ih hrest
    refine ⟨List.isChain_cons.mpr ⟨fun next hmem => (hnext next hmem).symm, hchain⟩, ?_, ?_⟩
    · intro other hother
      obtain rfl : first = other := Option.some.inj hother
      exact hstart
    · cases rest with
      | nil =>
        intro last hmem
        obtain rfl : first = last := Option.some.inj hmem
        exact hrest
      | cons second rest => exact hlast

/-- **The children of a quoted string are between its quotes.** -/
theorem QuotedString.row (h : QuotedString named (Expression named) tokens tree)
    (hstretch : Stretch text start tokens stop) (hlength : stop ≤ text.toList.length) :
    QuotedRow text.toList (tree.children.map Expr.asChild) := by
  obtain ⟨hopening, hparts, hclosing⟩ := h
  rename_i opening closing body trees
  have hall : Stretch text start ([opening] ++ (body ++ [closing])) stop := hstretch
  obtain ⟨first, hopen, hrest⟩ := stretch_append.mp hall
  obtain ⟨last, hbody, hclose⟩ := stretch_append.mp hrest
  obtain ⟨rfl, hquote⟩ := hopen.quote hopening (Nat.le_trans hrest.le hlength)
  obtain ⟨-, hquote'⟩ := hclose.quote hclosing hlength
  obtain ⟨habut, hseparate, hdecoded⟩ := hparts.row hbody
  obtain ⟨hchain, hfirst, hlast⟩ := isChain_of_abut habut
  refine ⟨hchain, hseparate, ?_, ?_, hdecoded⟩
  · intro child hchild
    rw [hfirst child hchild]
    exact ⟨Nat.succ_pos start, hquote⟩
  · intro child hchild
    rw [hlast child hchild]
    exact hquote'

/-- **A quoted expression is a quoted string**, inside of any parentheses. -/
theorem Expression.exists_quotedString (h : Expression named tokens tree)
    (hkind : tree.kind.isQuoted = true) : tree.kind = .quotedString ∧ ∃ body inside,
      body <:+: tokens ∧ QuotedString named (Expression named) body inside ∧
        inside.children = tree.children := by
  revert hkind
  refine Expression.induction (motive := fun tokens tree => tree.kind.isQuoted = true →
    tree.kind = .quotedString ∧ ∃ body inside, body <:+: tokens ∧
      QuotedString named (Expression named) body inside ∧ inside.children = tree.children) ?_ h
  intro tokens tree h hkind
  -- nothing that is joined or negated is quoted
  cases h with
  | join => cases hkind
  | single h =>
  cases h with
  | join => cases hkind
  | single h =>
  cases h with
  | not => cases hkind
  | primary h =>
  cases h with
  | quoted h =>
    refine ⟨by cases h; rfl, tokens, tree, List.infix_rfl, h.mono fun _ _ _ h => h.2.1, rfl⟩
  | grouped h =>
    obtain ⟨b, -, -, ih⟩ := h
    rename_i body tree
    rw [Expr.kind_withSpan] at hkind ⊢
    obtain ⟨hstring, part, inside, hpart, hinside, hchildren⟩ := ih hkind
    rw [Expr.children_withSpan]
    refine ⟨hstring, part, inside, hpart.trans ?_, hinside, hchildren⟩
    exact ⟨b.opening :: b.before, b.after ++ [b.closing], by simp [Bracket.around]⟩
  | compared h => cases h; cases hkind
  | call h => cases h <;> cases hkind
  | transform h => cases h; cases hkind
  | group h => cases h; cases hkind
  | metadata h => cases h <;> cases hkind
  | evaluate h => cases h <;> cases hkind
  | symbol => cases hkind

/-- **A literal is decoded between its quotes.** -/
theorem QuotedLiteral.quotes (h : QuotedLiteral tokens tree)
    (hstretch : Stretch text start tokens stop) (hlength : stop ≤ text.toList.length) :
    tree.Quotes text.toList := by
  obtain ⟨hopening, -, hclosing⟩ := h
  rename_i opening closing body
  refine ⟨fun hkind => (by cases hkind), fun content hcontent => ?_⟩
  obtain rfl : decode (body.map Lexeme.token) = content := Kind.quotedLiteral.inj hcontent
  have hspan := hstretch.tiles.cover_eq (List.cons_ne_nil _ _)
  have hall : Stretch text start ([opening] ++ (body ++ [closing])) stop := hstretch
  obtain ⟨first, hopen, hrest⟩ := stretch_append.mp hall
  obtain ⟨last, hbody, hclose⟩ := stretch_append.mp hrest
  obtain ⟨rfl, hquote⟩ := hopen.quote hopening (Nat.le_trans hrest.le hlength)
  obtain ⟨rfl, hquote'⟩ := hclose.quote hclosing hlength
  have hle := hbody.le
  show QuotedBody text.toList (cover (opening :: (body ++ [closing]))) _
  rw [hspan]
  refine ⟨?_, hquote, hquote', hbody.percentDecode_eq.symm⟩
  show start + 2 ≤ last + 1
  omega

/-- Every quoted string of an expression covers its quotes and decodes the text between them. -/
theorem Expression.quotes (h : Expression named tokens tree)
    (hstretch : Stretch text start tokens stop) (hlength : stop ≤ text.toList.length) :
    tree.Quotes text.toList := by
  by_cases hkind : tree.kind.isQuoted = true
  · obtain ⟨hstring, body, inside, ⟨before, after, rfl⟩, hinside, hchildren⟩ :=
      h.exists_quotedString hkind
    obtain ⟨_, hfront, hafter⟩ := stretch_append.mp hstretch
    obtain ⟨_, -, hbody⟩ := stretch_append.mp hfront
    refine ⟨fun _ => ?_, fun content hliteral => ?_⟩
    · rw [← hchildren]
      exact hinside.row hbody (Nat.le_trans hafter.le hlength)
    · rw [hstring] at hliteral
      cases hliteral
  · exact Expr.quotes_of_kind (Bool.not_eq_true _ ▸ hkind)

/-- **The quoted text of every construct.** -/
theorem Subtree.quotes (h : Subtree named tokens tree) (hstretch : Stretch text start tokens stop)
    (hlength : stop ≤ text.toList.length) : tree.Quotes text.toList := by
  cases h with
  | expression h => exact h.quotes hstretch hlength
  | argument h =>
    cases h with
    | number => exact Expr.quotes_of_kind rfl
    | expression h => exact h.quotes hstretch hlength
  | typeRef h =>
    obtain ⟨-, -, -⟩ := h
    exact Expr.quotes_of_kind rfl
  | name h =>
    cases h with
    | symbol h =>
      obtain ⟨-, -⟩ := h
      exact Expr.quotes_of_kind rfl
    | blank => exact Expr.quotes_of_kind rfl
  | literal h => exact h.quotes hstretch hlength
  | run => exact Expr.quotes_of_kind rfl

end Derivation

/-! ## Trees of texts -/

open ProjectLens.Derivation

/-- **All quoted text in a parsed text.** -/
theorem quotes_of_parseExpr {form : Form} {text : String} {expr : Expr} (hform : form ≠ .simpleList)
    (h : parseExpr form text = .ok expr) : expr.Every (Expr.Quotes text.toList) := by
  have hmark : ∀ e : Expr, e.IsMark → e.Quotes text.toList := by
    rintro e ⟨hkind, -⟩
    apply Expr.quotes_of_kind
    rcases hkind with hkind | hkind | ⟨shift, hkind⟩ <;> rw [hkind] <;> rfl
  -- a construct stands over a stretch of the text, wherever it is
  have hsubtree : ∀ l e, l <:+: lex text → Subtree anyName l e → e.Quotes text.toList := by
    rintro l e ⟨before, after, hlex⟩ hsubtree
    have hall := Grammar.stretch_lex text
    rw [← hlex] at hall
    obtain ⟨_, hfront, hafter⟩ := Grammar.stretch_append.mp hall
    obtain ⟨_, -, hbody⟩ := Grammar.stretch_append.mp hfront
    exact hsubtree.quotes hbody (String.length_toList ▸ hafter.le)
  cases form with
  | root => exact every_of_parse_root hmark hsubtree h
  | list =>
    obtain ⟨parts, hparts, rfl⟩ := parseExpr_list_eq_ok.mp h
    exact .node (Expr.quotes_of_kind rfl) (every_of_parse_list hmark hsubtree hparts)
  | simpleList => exact absurd rfl hform

/-- The content of a plain run in a string. -/
def ExprNode.content? (node : ExprNode) : Option String :=
  match node.kind with
  | .stringContent content => some content
  | _ => none

/-- **The quoted text of a tree.** -/
structure ExprTree.Quotes (tree : ExprTree) (text : String) : Prop where
  /-- The children of a quoted string stand between its quotes end to end, and its runs are decoded. -/
  string : ∀ node ∈ tree.nodes, node.kind = .quotedString →
    QuotedRow text.toList ((tree.childrenOf node).map ExprNode.asChild)
  /-- The content of a literal is decoded from the text between its quotes. -/
  literal : ∀ node ∈ tree.nodes, ∀ content, node.kind = .quotedLiteral content →
    QuotedBody text.toList node.span content
  /-- The content of a quoted string is that of its plain runs in order. -/
  content : ∀ node ∈ tree.nodes, node.kind = .quotedString →
    tree.stringContent? node =
      some (String.join ((tree.childrenOf node).filterMap ExprNode.content?))

/-- **Quoted strings cover their text, and decode it**, in a text that is one expression and in a list
of expressions. -/
theorem parseAs_quotes {form : Form} {text : String} {tree : ExprTree} (hform : form ≠ .simpleList)
    (h : parseAs form text = .ok tree) : tree.Quotes text := by
  obtain ⟨expr, hexpr, rfl⟩ := parseAs_eq_ok.mp h
  obtain ⟨hw, -⟩ := parseExpr_wellFormed hexpr
  have hquotes := quotes_of_parseExpr hform hexpr
  refine ⟨?_, ?_, ?_⟩
  · intro node hnode hkind
    obtain ⟨e, hevery, hsame, -, hchildren, -⟩ := ExprTree.exists_expr hw hquotes hnode
    rw [hchildren]
    exact hevery.root.string ((congrArg ListChild.kind hsame).symm.trans hkind)
  · intro node hnode content hkind
    obtain ⟨e, hevery, hsame, -, -, -⟩ := ExprTree.exists_expr hw hquotes hnode
    rw [show node.span = e.span from congrArg ListChild.span hsame]
    exact hevery.root.literal content ((congrArg ListChild.kind hsame).symm.trans hkind)
  · intro node _ hkind
    rw [ExprTree.stringContent?, hkind]
    rfl

/-- A string with an escape, a reference and an escape that is cut short, and a transform with a
separator. -/
theorem parseAs_quotes_transform : ∃ tree,
    parseAs .root "@(I->'a%41$(X)%4', '%3b')" = .ok tree ∧
      tree.Quotes "@(I->'a%41$(X)%4', '%3b')" := by
  have hread : (parseAs .root "@(I->'a%41$(X)%4', '%3b')").toBool = true := by decide +kernel
  cases h : parseAs .root "@(I->'a%41$(X)%4', '%3b')" with
  | error complaint =>
    rw [h] at hread
    cases hread
  | ok tree => exact ⟨tree, rfl, parseAs_quotes Form.noConfusion h⟩

end ProjectLens
