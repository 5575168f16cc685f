import ProjectLens.Proofs.Links
import ProjectLens.Proofs.Moving
import ProjectLens.Proofs.Surroundings

/-! # Parentheses around a text

Parentheses around a text that is an expression change nothing but spans: the tokens are those of
the text one place further on, between the two parentheses, and they are read as the same expression
there, over all of the text.

* `lex_parens`: no token grows into the closing parenthesis;
* `Grammar.root_reads_enclosed`, `Grammar.root_parse_parens`: what is read;
* `ExprTree.enclosed`: a tree inside parentheses; `ExprTree.withLinks_enclosed`: its links stay;
* `parseAs_parenthesised`: any number of parentheses around a text. -/

namespace ProjectLens

/-! ## Tokens -/

namespace Token

/-- A run of characters ends before a parenthesis as it does at the end. -/
theorem takeWhile_closeParen {p : Char → Bool} (hp : p ')' = false) (rest : List Char) :
    (rest ++ [')']).takeWhile p = rest.takeWhile p ∧
      (rest ++ [')']).dropWhile p = rest.dropWhile p ++ [')'] := by
  induction rest with
  | nil => simp [hp]
  | cons c rest ih =>
    by_cases hc : p c = true
    · simp [hc, ih]
    · simp [hc]

/-- No mark has a closing parenthesis as its second or third character. -/
theorem punctuation?_closeParen (c : Char) (rest : List Char) :
    punctuation? c (rest ++ [')']) =
      (punctuation? c rest).map fun found => (found.1, found.2 ++ [')']) := by
  by_cases hc : c = '%'
  · subst hc
    match rest with
    | [] => rfl
    | [x] =>
      -- a parenthesis is not the second digit of an escape
      have hlow : hexValue? ')' = none := by decide
      by_cases hx : x = '('
      · subst hx
        rfl
      · cases hhigh : hexValue? x <;> simp [punctuation?, hx, hlow, hhigh]
    | x :: y :: rest =>
      by_cases hx : x = '('
      · subst hx
        rfl
      · cases hhigh : hexValue? x <;> cases hlow : hexValue? y <;>
          simp [punctuation?, hhigh, hlow]
  · cases rest with
    | nil => unfold punctuation?; split <;> simp_all
    | cons x rest => unfold punctuation?; split <;> simp_all

/-- **No token grows into a closing parenthesis.** -/
theorem next_closeParen (c : Char) (rest : List Char) :
    next c (rest ++ [')']) = ((next c rest).1, (next c rest).2 ++ [')']) := by
  unfold next
  by_cases hname : startsName c = true
  · obtain ⟨htake, hdrop⟩ := takeWhile_closeParen (p := continuesName) (by decide) rest
    rw [if_pos hname, if_pos hname, htake, hdrop]
  rw [if_neg hname, if_neg hname]
  by_cases hdigit : isDigit c = true
  · obtain ⟨htake, hdrop⟩ := takeWhile_closeParen (p := isDigit) (by decide) rest
    rw [if_pos hdigit, if_pos hdigit, htake, hdrop]
  rw [if_neg hdigit, if_neg hdigit]
  by_cases hspace : isSpace c = true
  · obtain ⟨htake, hdrop⟩ := takeWhile_closeParen (p := isSpace) (by decide) rest
    rw [if_pos hspace, if_pos hspace, htake, hdrop]
  rw [if_neg hspace, if_neg hspace, punctuation?_closeParen]
  cases punctuation? c rest <;> rfl

end Token

/-- A closing parenthesis after a text is one token more. -/
theorem lexFrom_closeParen (offset : Nat) (chars : List Char) :
    lexFrom offset (chars ++ [')']) = lexFrom offset chars ++
      [⟨.closeParen, ⟨offset + chars.length, offset + chars.length + 1⟩⟩] := by
  induction offset, chars using lexFrom.induct with
  | case1 offset =>
    have hnext : Token.next ')' [] = (.closeParen, []) := rfl
    simp [lexFrom, hnext]
  | case2 offset c rest found stop ih =>
    have hle := Token.next_length_le c rest
    rw [List.cons_append, lexFrom, lexFrom, Token.next_closeParen, List.cons_append]
    have hstop : offset + ((rest ++ [')']).length + 1 - ((Token.next c rest).2 ++ [')']).length) =
        stop := by
      simp only [List.length_append, List.length_singleton, stop, found]
      omega
    have hend : stop + found.2.length = offset + (c :: rest).length := by
      simp only [List.length_cons, stop, found]
      omega
    simp only [hstop]
    rw [ih, hend]

/-- **The tokens of a text in parentheses** are those of the text one place further on. -/
theorem lex_parens (text : String) :
    lex ("(" ++ text ++ ")") = ⟨.openParen, ⟨0, 1⟩⟩ :: ((lex text).map (Lexeme.moved 1) ++
      [⟨.closeParen, ⟨text.length + 1, text.length + 2⟩⟩]) := by
  have hchars : ("(" ++ text ++ ")").toList = '(' :: (text.toList ++ [')']) := by simp
  have hnext : Token.next '(' (text.toList ++ [')']) = (.openParen, text.toList ++ [')']) := rfl
  have hopen : 0 + ((text.toList ++ [')']).length + 1 - (text.toList ++ [')']).length) = 0 + 1 := by
    omega
  rw [lex, hchars, lexFrom]
  simp only [hnext, hopen]
  rw [lexFrom_closeParen, lexFrom_moved, lex, String.length_toList]
  simp only [Nat.zero_add, Nat.add_comm 1]

/-- `("(" ++ text ++ ")").length = text.length + 2`. -/
theorem length_parens (text : String) : ("(" ++ text ++ ")").length = text.length + 2 := by
  have hopen : "(".length = 1 := by decide
  have hclose : ")".length = 1 := by decide
  rw [String.length_append, String.length_append, hopen, hclose]
  omega

/-! ## What is read -/

namespace Grammar

open Rule ProjectLens.Derivation

variable {start stop start' stop' : Nat} {lexemes : List Lexeme} {tree : Expr} {rest : Input}
  {opening closing : Lexeme}

/-- **A text in parentheses is the same expression**, over all of it. The expression inside ends
before the parenthesis as it did at the end of the text, and the white space around it belongs to the
parentheses. -/
theorem root_reads_enclosed (tiles : Tiles start lexemes stop)
    (h : root.Reads ⟨lexemes, stop⟩ tree rest) (hopening : opening.token = .openParen)
    (hclosing : closing.token = .closeParen)
    (tiles' : Tiles start' (opening :: (lexemes ++ [closing])) stop') :
    root.Reads ⟨opening :: (lexemes ++ [closing]), stop'⟩ (tree.withSpan ⟨start', stop'⟩)
      ⟨[], stop'⟩ := by
  obtain ⟨_, middle, hws, hinside⟩ := reads_skipThen.mp ((root_reads_iff tiles).mp h)
  obtain rfl := reads_ws.mp hws
  obtain ⟨before, hbefore, hsplit⟩ := exists_blank_append_skipBlank lexemes
  rw [hsplit] at tiles
  obtain ⟨border, -, tiles⟩ := tiles_append.mp tiles
  obtain ⟨body, after, hcut, hafter, hstandalone, -, -⟩ :=
    exists_of_toEnd expression_standalone tiles hinside
  let b : Bracket .openParen :=
    ⟨opening, before, after, closing, hopening, hbefore, hafter, hclosing⟩
  have haround : opening :: (lexemes ++ [closing]) = b.around body := by
    rw [hsplit, hcut]
    simp [b, Bracket.around]
  -- before the parenthesis the expression ends as it did at the end of the text
  have hbody := hstandalone (followed_blank hafter)
  have hend := toEnd_takes (grouped_takes standalone_complete (.intro b hbody) []) blank_nil
  have hsharp : Begins (·.isWhitespace = false) (b.around body ++ [] ++ []) :=
    begins_cons.mpr (by rw [b.opening_token]; rfl)
  have hroot : root.Takes ([] ++ (b.around body ++ [])) (tree.withSpan (cover (b.around body))) [] :=
    (ws_takes blank_nil hsharp).skipThen hend.choice
  rw [haround] at tiles' ⊢
  rw [← tiles'.cover_eq (b.around_ne_nil body)]
  simp only [List.nil_append, List.append_nil] at hroot
  have hreads := hroot (by rwa [List.append_nil])
  rwa [List.append_nil] at hreads

/-- **A text in parentheses parses as the text does**, one place further on and over all of it. -/
theorem root_parse_parens {text : String} (h : root.parse text = .ok tree) :
    root.parse ("(" ++ text ++ ")") =
      .ok ((tree.moved 1).withSpan ⟨0, text.length + 2⟩) := by
  obtain ⟨rest, hreads, -⟩ := parse_eq_ok.mp h
  have hmoved : root.Reads ((Input.ofText text).moved 1) (tree.moved 1) (rest.moved 1) :=
    root_moves.reads hreads
  have htext := lex_tiles ("(" ++ text ++ ")")
  rw [lex_parens, length_parens] at htext
  have tiles : Tiles 1 ((lex text).map (Lexeme.moved 1)) (text.length + 1) := by
    obtain ⟨-, -, hinner⟩ := htext
    obtain ⟨border, hinner, hclose⟩ := tiles_append.mp hinner
    have hborder : text.length + 1 = border := hclose.1
    exact hborder ▸ hinner
  refine parse_eq_ok.mpr ⟨⟨[], text.length + 2⟩, ?_, rfl⟩
  rw [Input.ofText, lex_parens, length_parens]
  rw [Input.ofText, Input.moved] at hmoved
  exact root_reads_enclosed tiles hmoved rfl rfl htext

end Grammar

/-! ## Trees -/

namespace ExprNode

/-- The node some places further on. -/
def moved (places : Nat) (node : ExprNode) : ExprNode := { node with start := node.start + places }

/-- A node of a text inside parentheses: the root covers the whole text, and the others stand further
on. -/
def enclosed (places length id : Nat) (node : ExprNode) : ExprNode :=
  if id = 0 then { node with start := 0, length := length } else node.moved places

variable (places length id : Nat) (node : ExprNode)

/-- `(node.enclosed places length id).id = node.id`. -/
@[simp] theorem id_enclosed : (node.enclosed places length id).id = node.id := by
  unfold enclosed
  split <;> rfl

/-- `(node.enclosed places length id).children = node.children`. -/
@[simp] theorem children_enclosed : (node.enclosed places length id).children = node.children := by
  unfold enclosed
  split <;> rfl

end ExprNode

namespace ExprTree

/-- **The tree of a text inside parentheses**: the same kinds, children and links. -/
def enclosed (places length : Nat) (tree : ExprTree) : ExprTree :=
  ⟨tree.nodes.mapIdx (ExprNode.enclosed places length), tree.linked⟩

end ExprTree

namespace Expr

variable (places : Nat)

mutual

/-- `(e.moved places).size = e.size`. -/
theorem size_moved : (e : Expr) → (e.moved places).size = e.size
  | .node kind span children => by rw [moved, size, size, sizeAll_movedAll children]

/-- `sizeAll (movedAll places es) = sizeAll es`. -/
theorem sizeAll_movedAll : (es : List Expr) → sizeAll (movedAll places es) = sizeAll es
  | [] => rfl
  | e :: es => by rw [movedAll, sizeAll, sizeAll, size_moved e, sizeAll_movedAll es]

end

/-- `childIds id (movedAll places es) = childIds id es`. -/
theorem childIds_movedAll (id : Nat) (es : List Expr) :
    childIds id (movedAll places es) = childIds id es := by
  induction es generalizing id with
  | nil => rfl
  | cons e es ih => rw [movedAll, childIds, childIds, size_moved, ih]

mutual

/-- An expression further on has its nodes further on. -/
theorem nodesFrom_moved (id : Nat) : (e : Expr) →
    (e.moved places).nodesFrom id = (e.nodesFrom id).map (ExprNode.moved places)
  | .node kind span children => by
    rw [moved, nodesFrom, nodesFrom, List.map_cons, childIds_movedAll,
      nodesAllFrom_movedAll (id + 1) children]
    have hlength : (span.moved places).length = span.length := Nat.add_sub_add_right ..
    rw [hlength]
    rfl

/-- The nodes of moved trees are the moved nodes. -/
theorem nodesAllFrom_movedAll (id : Nat) : (es : List Expr) →
    nodesAllFrom id (movedAll places es) = (nodesAllFrom id es).map (ExprNode.moved places)
  | [] => rfl
  | e :: es => by
    rw [movedAll, nodesAllFrom, nodesAllFrom, List.map_append, nodesFrom_moved id e, size_moved,
      nodesAllFrom_movedAll (id + e.size) es]

end

/-- **The nodes of an expression inside parentheses.** -/
theorem nodesFrom_enclosed (stop : Nat) (e : Expr) :
    ((e.moved places).withSpan ⟨0, stop⟩).nodesFrom 0 =
      (e.nodesFrom 0).mapIdx (ExprNode.enclosed places stop) := by
  obtain ⟨kind, span, children⟩ := e
  -- the first node is the root, and no other is
  have hbelow (i : Nat) : ExprNode.enclosed places stop (i + 1) = ExprNode.moved places :=
    funext fun node => if_neg (Nat.succ_ne_zero i)
  rw [moved, withSpan, nodesFrom, nodesFrom, List.mapIdx_cons, childIds_movedAll,
    nodesAllFrom_movedAll]
  refine congrArg₂ List.cons rfl (List.ext_getElem? fun i => ?_)
  rw [List.getElem?_map, List.getElem?_mapIdx, hbelow]

end Expr

namespace Links

/-- Links are written into nodes inside parentheses as into the nodes themselves. -/
theorem write_enclosed (places length : Nat) (nodes : Array ExprNode) (links : List Links) :
    write (nodes.mapIdx (ExprNode.enclosed places length)) links =
      (write nodes links).mapIdx (ExprNode.enclosed places length) := by
  have hstep (nodes : Array ExprNode) (link : Links) :
      (nodes.mapIdx (ExprNode.enclosed places length)).modify link.id link.on =
        (nodes.modify link.id link.on).mapIdx (ExprNode.enclosed places length) := by
    refine Array.ext_getElem? fun i => ?_
    rw [Array.getElem?_modify, Array.getElem?_mapIdx, Array.getElem?_mapIdx, Array.getElem?_modify]
    split
    · rw [Option.map_map, Option.map_map]
      refine congrArg (Option.map · nodes[i]?) (funext fun node => ?_)
      simp only [Function.comp_apply, ExprNode.enclosed]
      split <;> rfl
    · rfl
  induction links generalizing nodes with
  | nil => rfl
  | cons link links ih =>
    rw [write, List.foldl_cons, ← write, hstep, ih, write, write, List.foldl_cons]

end Links

namespace ExprTree

/-- Linking goes by numbers and children only. -/
theorem withLinks_enclosed (places length : Nat) (tree : ExprTree) :
    (tree.enclosed places length).withLinks = tree.withLinks.enclosed places length := by
  have hlinks : (tree.enclosed places length).allLinks = tree.allLinks := by
    rw [allLinks, allLinks, List.flatMap_def, List.flatMap_def]
    refine congrArg List.flatten (List.ext_getElem? fun i => ?_)
    rw [enclosed, Array.toList_mapIdx, List.getElem?_map, List.getElem?_map, List.getElem?_mapIdx,
      Option.map_map]
    simp only [Function.comp_def, ExprNode.id_enclosed, ExprNode.children_enclosed]
  rw [withLinks_eq, withLinks_eq, hlinks]
  simp only [enclosed, Links.write_enclosed]

/-- The layout of a moved tree with a root from `0` to `stop` is the layout of the tree,
enclosed. -/
theorem ofExpr_enclosed (places stop : Nat) (expr : Expr) :
    ofExpr ((expr.moved places).withSpan ⟨0, stop⟩) = (ofExpr expr).enclosed places stop := by
  rw [ofExpr, Expr.nodesFrom_enclosed, enclosed, ofExpr, List.mapIdx_toArray]

/-- Parentheses inside parentheses. -/
theorem enclosed_enclosed (places length places' length' : Nat) (tree : ExprTree) :
    (tree.enclosed places length).enclosed places' length' =
      tree.enclosed (places + places') length' := by
  have hnode (i : Nat) (node : ExprNode) :
      (node.enclosed places length i).enclosed places' length' i =
        node.enclosed (places + places') length' i := by
    by_cases hi : i = 0
    · simp [ExprNode.enclosed, hi]
    · simp [ExprNode.enclosed, ExprNode.moved, hi, Nat.add_assoc]
  simp only [enclosed, Array.mapIdx_mapIdx, Function.comp_def, hnode]

end ExprTree

/-! ## Any number of parentheses -/

/-- A text inside so many parentheses. -/
def parenthesised : Nat → String → String
  | 0, text => text
  | count + 1, text => "(" ++ parenthesised count text ++ ")"

/-- `(parenthesised count text).length = text.length + 2 * count`. -/
theorem length_parenthesised (count : Nat) (text : String) :
    (parenthesised count text).length = text.length + 2 * count := by
  induction count with
  | zero => rfl
  | succ count ih => rw [parenthesised, length_parens, ih, Nat.mul_succ, Nat.add_assoc]

/-- A text in parentheses is the same tree. -/
theorem parseAs_parens {text : String} {tree : ExprTree} (h : parseAs .root text = .ok tree) :
    parseAs .root ("(" ++ text ++ ")") = .ok (tree.enclosed 1 (text.length + 2)) := by
  obtain ⟨expr, hparse, rfl⟩ := parseAs_root_iff.mp h
  refine parseAs_root_iff.mpr ⟨_, Grammar.root_parse_parens hparse, ?_⟩
  rw [ExprTree.ofExpr_enclosed, ExprTree.withLinks_enclosed]

/-- **Parentheses change nothing but spans**: a text inside any number of them is the same tree, whose
root covers all of the text and whose other nodes stand further on by one place for each. -/
theorem parseAs_parenthesised {text : String} {tree : ExprTree} (h : parseAs .root text = .ok tree) :
    parseAs .root ("(" ++ text ++ ")") = .ok (tree.enclosed 1 (text.length + 2)) ∧
      ∀ count, 0 < count → parseAs .root (parenthesised count text) =
        .ok (tree.enclosed count (text.length + 2 * count)) := by
  refine ⟨parseAs_parens h, fun count hcount => ?_⟩
  induction count with
  | zero => exact absurd hcount (Nat.lt_irrefl 0)
  | succ count ih =>
    rcases Nat.eq_zero_or_pos count with rfl | hpos
    · exact parseAs_parens h
    · -- one more pair around what the others are around
      have houter := parseAs_parens (ih hpos)
      rwa [length_parenthesised, ExprTree.enclosed_enclosed] at houter

/-- A condition between white space, with a call whose name is that of negation. -/
theorem parseAs_parenthesised_condition : ∃ tree, parseAs .root " not(A, 1) And B " = .ok tree ∧
    parseAs .root "( not(A, 1) And B )" = .ok (tree.enclosed 1 19) ∧
      ∀ count, 0 < count → parseAs .root (parenthesised count " not(A, 1) And B ") =
        .ok (tree.enclosed count (17 + 2 * count)) := by
  have hread : (parseAs .root " not(A, 1) And B ").toBool = true := by decide +kernel
  cases h : parseAs .root " not(A, 1) And B " with
  | error complaint =>
    rw [h] at hread
    cases hread
  | ok tree =>
    have htext : "(" ++ " not(A, 1) And B " ++ ")" = "( not(A, 1) And B )" := by decide +kernel
    have hlength : " not(A, 1) And B ".length = 17 := by decide +kernel
    have hboth := parseAs_parenthesised h
    rw [htext, hlength] at hboth
    exact ⟨tree, rfl, hboth⟩

end ProjectLens
