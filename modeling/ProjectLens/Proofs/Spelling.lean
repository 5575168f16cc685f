import Mathlib.Data.List.Chain
import ProjectLens.Proofs.Layout
import ProjectLens.Text.Index

/-! # Tokens spell their text

A text is cut into tokens from the front, each as long as it can be. What a token covers is its own
text, and only the digits of an escape may be written in lower case where the token shows upper case.

* `Token.Cut token piece rest`: what it takes to cut `token` off as `piece` in front of `rest`;
  `Token.next_cut`: the next token is cut off in one of these ways;
* `Token.WrittenAs`, `upperEscapes`: how tokens are written, and what a text is once its escapes are in
  upper case;
* `lexFrom_cut`, `lexFrom_text`, `lexFrom_maximal`: what each token covers, what all of them show, and
  which tokens cannot be neighbours;
* `Lossless`, `lossless_lex`: all of it for the tokens of a whole text. -/

namespace ProjectLens

namespace Token

/-! ## Cutting off one token -/

/-- Whether the token is punctuation, so that it is written in one way only. -/
def isMark : Token → Bool
  | .escape _ | .identifier _ | .number _ | .whitespace _ | .other _ => false
  | _ => true

/-- **A token is cut off as `piece` in front of `rest`.** Runs go as far as they can, and a character
is a token of its own only where nothing longer begins with it. -/
inductive Cut : Token → List Char → List Char → Prop where
  /-- An identifier with all the letters and digits that follow. -/
  | identifier {c : Char} {run rest : List Char} : startsName c = true →
      (∀ d ∈ run, continuesName d = true) → (∀ d ∈ rest.head?, continuesName d = false) →
      Cut (.identifier (String.ofList (c :: run))) (c :: run) rest
  /-- Digits with all the digits that follow. -/
  | number {c : Char} {run rest : List Char} : isDigit c = true →
      (∀ d ∈ run, isDigit d = true) → (∀ d ∈ rest.head?, isDigit d = false) →
      Cut (.number (String.ofList (c :: run))) (c :: run) rest
  /-- White space with all the white space that follows. -/
  | whitespace {c : Char} {run rest : List Char} : isSpace c = true →
      (∀ d ∈ run, isSpace d = true) → (∀ d ∈ rest.head?, isSpace d = false) →
      Cut (.whitespace (String.ofList (c :: run))) (c :: run) rest
  /-- `%` and two hexadecimal digits. -/
  | escape {high low : Char} {h l : Nat} {rest : List Char} : hexValue? high = some h →
      hexValue? low = some l → Cut (.escape (Char.ofNat (16 * h + l))) ['%', high, low] rest
  /-- Punctuation. -/
  | mark {token : Token} {rest : List Char} : token.isMark = true →
      Cut token token.text.toList rest
  /-- A character of its own. -/
  | other {c : Char} {rest : List Char} : startsName c = false → isDigit c = false →
      isSpace c = false → punctuation? c rest = none → Cut (.other c) [c] rest

variable {token : Token} {piece rest : List Char} {c : Char}

/-- A run stops at the first character that does not belong to it. -/
theorem head?_dropWhile (p : Char → Bool) (rest : List Char) :
    ∀ d ∈ (rest.dropWhile p).head?, p d = false := by
  intro d hd
  have hstop := List.head?_dropWhile_not p rest
  rw [Option.mem_def.mp hd] at hstop
  exact hstop

/-- All of `rest.takeWhile p` satisfy `p`. -/
theorem mem_takeWhile (p : Char → Bool) (rest : List Char) : ∀ d ∈ rest.takeWhile p, p d = true :=
  List.all_eq_true.mp List.all_takeWhile

/-- Punctuation and escapes are cut off as they are written. -/
theorem punctuation?_cut {found : Token × List Char} (h : punctuation? c rest = some found) :
    ∃ piece, c :: rest = piece ++ found.2 ∧ Cut found.1 piece found.2 := by
  unfold punctuation? at h
  split at h
  case h_4 high low rest _ =>
    -- an escape, if both characters are digits
    split at h
    · next hhigh hlow =>
      cases h
      exact ⟨_, rfl, .escape hhigh hlow⟩
    · cases h
  case h_18 => cases h
  all_goals
    cases h
    exact ⟨_, by simp [text], .mark rfl⟩

/-- **The next token is cut off the front of the text.** -/
theorem next_cut (c : Char) (rest : List Char) :
    ∃ piece, c :: rest = piece ++ (next c rest).2 ∧ Cut (next c rest).1 piece (next c rest).2 := by
  have split_run : ∀ p : Char → Bool, c :: rest = (c :: rest.takeWhile p) ++ rest.dropWhile p := by
    intro p
    rw [List.cons_append, List.takeWhile_append_dropWhile]
  unfold next
  -- one case for each kind of first character, in the order they are tried in
  by_cases hname : startsName c = true
  · rw [if_pos hname]
    exact ⟨_, split_run _, .identifier hname (mem_takeWhile _ rest) (head?_dropWhile _ rest)⟩
  · rw [if_neg hname]
    by_cases hdigit : isDigit c = true
    · rw [if_pos hdigit]
      exact ⟨_, split_run _, .number hdigit (mem_takeWhile _ rest) (head?_dropWhile _ rest)⟩
    · rw [if_neg hdigit]
      by_cases hspace : isSpace c = true
      · rw [if_pos hspace]
        exact ⟨_, split_run _, .whitespace hspace (mem_takeWhile _ rest) (head?_dropWhile _ rest)⟩
      · rw [if_neg hspace]
        cases hfound : punctuation? c rest with
        | some found => exact punctuation?_cut hfound
        | none =>
          simp only [Bool.not_eq_true] at hname hdigit hspace
          exact ⟨[c], rfl, .other hname hdigit hspace hfound⟩

/-! ## How tokens are written -/

/-- A hexadecimal digit in upper case, any other character unchanged. -/
def upperDigit (c : Char) : Char := if 'a' ≤ c ∧ c ≤ 'f' then Char.ofNat (c.toNat - 32) else c

/-- **The ways to write a token**: an escape with its digits in either letter case, any other token only
as its text. -/
def WrittenAs (token : Token) (written : String) : Prop :=
  match token with
  | .escape _ => String.ofList (written.toList.map upperDigit) = token.text
  | _ => written = token.text

/-- A character before `a` is in upper case already. -/
theorem upperDigit_of_lt (h : c.toNat < 97) : upperDigit c = c := by
  have hletter : ¬ ('a' ≤ c ∧ c ≤ 'f') := by
    rintro ⟨hletter, -⟩
    exact Nat.not_le_of_lt h hletter
  rw [upperDigit, if_neg hletter]

/-- The digit for a value is the digit that was read, in upper case. -/
theorem upperHex_eq {value : Nat} (h : hexValue? c = some value) :
    value < 16 ∧ upperHex value = upperDigit c := by
  unfold hexValue? at h
  -- one case for each row of digits, told apart by their codes
  by_cases hdecimal : '0' ≤ c ∧ c ≤ '9'
  · rw [if_pos hdecimal] at h
    cases h
    have hlow : 48 ≤ c.toNat := hdecimal.1
    have hhigh : c.toNat ≤ 57 := hdecimal.2
    refine ⟨by omega, ?_⟩
    rw [upperHex, if_pos (by omega), upperDigit_of_lt (by omega), Nat.add_sub_cancel' hlow,
      Char.ofNat_toNat]
  · rw [if_neg hdecimal] at h
    by_cases hcapital : 'A' ≤ c ∧ c ≤ 'F'
    · rw [if_pos hcapital] at h
      cases h
      have hlow : 65 ≤ c.toNat := hcapital.1
      have hhigh : c.toNat ≤ 70 := hcapital.2
      refine ⟨by omega, ?_⟩
      rw [upperHex, if_neg (by omega), upperDigit_of_lt (by omega),
        Nat.add_sub_cancel' (by omega), Char.ofNat_toNat]
    · rw [if_neg hcapital] at h
      by_cases hsmall : 'a' ≤ c ∧ c ≤ 'f'
      · -- the only digits whose upper case is another character
        rw [if_pos hsmall] at h
        cases h
        have hlow : 97 ≤ c.toNat := hsmall.1
        have hhigh : c.toNat ≤ 102 := hsmall.2
        refine ⟨by omega, ?_⟩
        rw [upperHex, if_neg (by omega), upperDigit, if_pos hsmall]
        congr 1
        omega
      · rw [if_neg hsmall] at h
        cases h

/-- An escape shows the digits it was read from, in upper case. -/
theorem text_escape {high low : Char} {h l : Nat} (hhigh : hexValue? high = some h)
    (hlow : hexValue? low = some l) :
    (Token.escape (Char.ofNat (16 * h + l))).text =
      String.ofList ['%', upperDigit high, upperDigit low] := by
  obtain ⟨hh, hupper⟩ := upperHex_eq hhigh
  obtain ⟨hl, hupper'⟩ := upperHex_eq hlow
  have hcode : (Char.ofNat (16 * h + l)).toNat = 16 * h + l := by
    have hvalid : (16 * h + l).isValidChar := by
      left
      omega
    rw [Char.ofNat, dif_pos hvalid]
    rfl
  have hfirst : (16 * h + l) / 16 = h := by omega
  have hsecond : (16 * h + l) % 16 = l := by omega
  rw [text, hcode, hfirst, hsecond, hupper, hupper']

namespace Cut

/-- A token covers a character. -/
theorem ne_nil (h : Cut token piece rest) : piece ≠ [] := by
  cases h with
  | mark hmark => cases token <;> simp [isMark, text] at hmark ⊢
  | _ => exact List.cons_ne_nil _ _

/-- **A token is written as it is cut off.** -/
theorem writtenAs (h : Cut token piece rest) : token.WrittenAs (String.ofList piece) := by
  cases h with
  | escape hhigh hlow =>
    rw [WrittenAs, text_escape hhigh hlow, String.toList_ofList]
    rfl
  | mark hmark =>
    cases token with
    | escape => cases hmark
    | _ => exact String.ofList_toList
  | _ => rfl

end Cut

/-! ## Neighbours -/

/-- Whether a token would have gone on with the other one, had that stood right after it. -/
def absorbs : Token → Token → Bool
  | .whitespace _, .whitespace _ | .number _, .number _ => true
  | .identifier _, .identifier _ | .identifier _, .number _ => true
  | _, _ => false

/-- **No token stands right after one that would have gone on with it.** -/
theorem Cut.absorbs_eq_false {later : Token} {laterPiece : List Char}
    (h : Cut token piece (laterPiece ++ rest)) (hlater : Cut later laterPiece rest) :
    token.absorbs later = false := by
  cases h with
  | identifier _ _ hends =>
    -- what follows an identifier begins with neither a letter nor a digit
    cases hlater with
    | identifier hstarts =>
      have := hends _ rfl
      simp [continuesName, hstarts] at this
    | number hdigit =>
      have := hends _ rfl
      simp [continuesName, hdigit] at this
    | mark hmark => cases later <;> first | rfl | cases hmark
    | _ => rfl
  | number _ _ hends =>
    cases hlater with
    | number hdigit =>
      have := hends _ rfl
      simp [hdigit] at this
    | mark hmark => cases later <;> first | rfl | cases hmark
    | _ => rfl
  | whitespace _ _ hends =>
    cases hlater with
    | whitespace hspace =>
      have := hends _ rfl
      simp [hspace] at this
    | mark hmark => cases later <;> first | rfl | cases hmark
    | _ => rfl
  | mark hmark => cases token <;> first | rfl | cases hmark
  | escape => rfl
  | other => rfl

end Token

/-! ## Texts with their escapes in upper case -/

/-- **A text with the digits of its escapes in upper case**, from left to right. -/
def upperEscapes : List Char → List Char
  | '%' :: high :: low :: rest =>
    if (Token.hexValue? high).isSome ∧ (Token.hexValue? low).isSome then
      '%' :: Token.upperDigit high :: Token.upperDigit low :: upperEscapes rest
    else '%' :: upperEscapes (high :: low :: rest)
  | c :: rest => c :: upperEscapes rest
  | [] => []

open Token

/-- Only a per cent sign begins an escape. -/
theorem upperEscapes_cons {c : Char} (rest : List Char) (h : c ≠ '%') :
    upperEscapes (c :: rest) = c :: upperEscapes rest := by
  rw [upperEscapes]
  rintro _ _ _ rfl
  exact absurd rfl h

/-- A run without `%` is left as it is. -/
theorem upperEscapes_append {run : List Char} (rest : List Char) (h : ∀ c ∈ run, c ≠ '%') :
    upperEscapes (run ++ rest) = run ++ upperEscapes rest := by
  induction run with
  | nil => rfl
  | cons c run ih =>
    obtain ⟨hc, hrun⟩ := List.forall_mem_cons.mp h
    rw [List.cons_append, upperEscapes_cons _ hc, ih hrun, List.cons_append]

/-- A per cent sign begins no escape unless two digits follow. -/
theorem upperEscapes_percent {rest : List Char}
    (h : ∀ high low more, rest = high :: low :: more → hexValue? high = none ∨ hexValue? low = none) :
    upperEscapes ('%' :: rest) = '%' :: upperEscapes rest := by
  match rest with
  | [] => rfl
  | [_] => rfl
  | high :: low :: more =>
    have hdigits : ¬ ((hexValue? high).isSome ∧ (hexValue? low).isSome) := by
      rintro ⟨hhigh, hlow⟩
      rcases h high low more rfl with hnone | hnone
      · rw [hnone] at hhigh
        cases hhigh
      · rw [hnone] at hlow
        cases hlow
    rw [upperEscapes, if_neg hdigits]

/-- A per cent sign that is a token of its own has no two digits after it. -/
theorem digit_missing {rest : List Char} (h : punctuation? '%' rest = none) :
    ∀ high low more, rest = high :: low :: more → hexValue? high = none ∨ hexValue? low = none := by
  rintro high low more rfl
  cases hhigh : hexValue? high with
  | none => exact Or.inl rfl
  | some value =>
    cases hlow : hexValue? low with
    | none => exact Or.inr rfl
    | some value' =>
      exfalso
      unfold punctuation? at h
      split at h <;> simp_all

namespace Token.Cut

variable {token : Token} {piece rest : List Char}

/-- No run of letters, digits or white space has a per cent sign in it. -/
theorem run_ne_percent {p : Char → Bool} {c : Char} {run : List Char} (hp : p '%' = false)
    (hc : p c = true) (hrun : ∀ d ∈ run, p d = true) : ∀ d ∈ c :: run, d ≠ '%' := by
  rintro d hd rfl
  have hpercent : p '%' = true := by
    rcases List.mem_cons.mp hd with rfl | hd
    · exact hc
    · exact hrun _ hd
  rw [hp] at hpercent
  cases hpercent

/-- What a token shows is what it covers, once escapes are in upper case. -/
theorem upperEscapes_eq (h : Cut token piece rest) :
    upperEscapes (piece ++ rest) = token.text.toList ++ upperEscapes rest := by
  -- as in the token, only digits after a per cent sign change
  cases h with
  | @identifier c run _ hstarts hrun _ =>
    have hc : continuesName c = true := by rw [continuesName, hstarts, Bool.true_or]
    rw [upperEscapes_append _ (run_ne_percent (by decide) hc hrun), text, String.toList_ofList]
  | number hdigit hrun _ =>
    rw [upperEscapes_append _ (run_ne_percent (by decide) hdigit hrun), text,
      String.toList_ofList]
  | whitespace hspace hrun _ =>
    rw [upperEscapes_append _ (run_ne_percent (by decide) hspace hrun), text,
      String.toList_ofList]
  | escape hhigh hlow =>
    rw [text_escape hhigh hlow, String.toList_ofList]
    simp only [List.cons_append, List.nil_append]
    rw [upperEscapes, if_pos]
    rw [hhigh, hlow]
    exact ⟨rfl, rfl⟩
  | mark hmark =>
    by_cases hopen : token = .itemMetadataOpen
    · -- the one mark that begins with a per cent sign goes on with a parenthesis
      subst hopen
      have hpercent : upperEscapes ('%' :: '(' :: rest) = '%' :: upperEscapes ('(' :: rest) := by
        refine upperEscapes_percent ?_
        rintro high low more hsplit
        cases hsplit
        exact Or.inl rfl
      rw [upperEscapes_cons rest (by decide)] at hpercent
      simpa [text] using hpercent
    · refine upperEscapes_append _ ?_
      cases token <;> simp [isMark, text] at hmark hopen ⊢
  | @other c _ _ _ _ hnone =>
    rw [text, String.toList_ofList, List.singleton_append, List.singleton_append]
    by_cases hpercent : c = '%'
    · subst hpercent
      exact upperEscapes_percent (digit_missing hnone)
    · exact upperEscapes_cons _ hpercent

end Token.Cut

/-! ## The tokens of a text -/

/-- **Induction over the tokens of a text**: what holds of no tokens, and of tokens with one more cut
off in front of them, holds of the tokens of any text. -/
theorem lexFrom_induction {motive : Nat → List Char → List Lexeme → Prop}
    (nil : ∀ offset, motive offset [] [])
    (cons : ∀ offset token piece rest, Token.Cut token piece rest →
      motive (offset + piece.length) rest (lexFrom (offset + piece.length) rest) →
      motive offset (piece ++ rest)
        (⟨token, ⟨offset, offset + piece.length⟩⟩ :: lexFrom (offset + piece.length) rest))
    (offset : Nat) (chars : List Char) : motive offset chars (lexFrom offset chars) := by
  induction offset, chars using lexFrom.induct with
  | case1 offset =>
    rw [lexFrom]
    exact nil offset
  | case2 offset c rest found stop ih =>
    -- the first token is cut off as the first piece of the text
    obtain ⟨piece, hsplit, hcut⟩ := next_cut c rest
    have hstop : stop = offset + piece.length := by
      have hlength := congrArg List.length hsplit
      rw [List.length_cons, List.length_append] at hlength
      simp only [stop, found]
      omega
    rw [hstop] at ih
    have hlex : lexFrom offset (c :: rest) =
        ⟨found.1, ⟨offset, stop⟩⟩ :: lexFrom stop found.2 := by rw [lexFrom]
    rw [hlex, hstop, hsplit]
    exact cons offset found.1 piece found.2 hcut ih

/-- **Every token is cut off the text at its span.** -/
theorem lexFrom_cut (offset : Nat) (chars : List Char) :
    ∀ front : List Char, front.length = offset → ∀ lexeme ∈ lexFrom offset chars,
      lexeme.token.Cut ((Index.ofChars (front ++ chars)).sliceChars lexeme.span)
        ((front ++ chars).drop lexeme.span.stop) := by
  induction offset, chars using lexFrom_induction with
  | nil offset => simp
  | cons offset token piece rest hcut ih =>
    rintro front rfl lexeme hlexeme
    rcases List.mem_cons.mp hlexeme with rfl | hlexeme
    · -- the first token stands right after the characters in front
      have hslice : (Index.ofChars (front ++ (piece ++ rest))).sliceChars
          ⟨front.length, front.length + piece.length⟩ = piece := by
        rw [Index.sliceChars, Index.ofChars, List.drop_left, Nat.add_sub_cancel_left,
          List.take_left]
      have hrest : (front ++ (piece ++ rest)).drop (front.length + piece.length) = rest := by
        rw [← List.append_assoc, ← List.length_append, List.drop_left]
      rw [hslice, hrest]
      exact hcut
    · -- the others stand behind one piece more
      have hlater := ih (front ++ piece) (List.length_append ..) lexeme hlexeme
      rwa [List.append_assoc] at hlater

/-- **The tokens show the text**, its escapes in upper case. -/
theorem lexFrom_text (offset : Nat) (chars : List Char) :
    ((lexFrom offset chars).flatMap fun lexeme => lexeme.token.text.toList) =
      upperEscapes chars := by
  induction offset, chars using lexFrom_induction with
  | nil offset => rfl
  | cons offset token piece rest hcut ih =>
    rw [List.flatMap_cons, ih, hcut.upperEscapes_eq]

/-- **Tokens are as long as they can be**: none would have gone on with the next one. -/
theorem lexFrom_maximal (offset : Nat) (chars : List Char) :
    (lexFrom offset chars).IsChain fun a b => a.token.absorbs b.token = false := by
  -- the next token is also cut off what follows the first one
  have both : (lexFrom offset chars).IsChain (fun a b => a.token.absorbs b.token = false) ∧
      ∀ first ∈ (lexFrom offset chars).head?, ∃ piece rest, chars = piece ++ rest ∧
        Token.Cut first.token piece rest := by
    induction offset, chars using lexFrom_induction with
    | nil offset => exact ⟨.nil, by simp⟩
    | cons offset token piece rest hcut ih =>
      obtain ⟨hchain, hfirst⟩ := ih
      refine ⟨hchain.cons fun later hlater => ?_, ?_⟩
      · obtain ⟨laterPiece, more, rfl, hlaterCut⟩ := hfirst later hlater
        exact hcut.absorbs_eq_false hlaterCut
      · rintro first hfirst
        cases hfirst
        exact ⟨piece, rest, rfl, hcut⟩
  exact both.1

/-- The tokens of a text, each cut off at its span. -/
theorem lex_cut (text : String) : ∀ lexeme ∈ lex text,
    lexeme.token.Cut ((Index.ofText text).sliceChars lexeme.span)
      (text.toList.drop lexeme.span.stop) :=
  lexFrom_cut 0 text.toList [] rfl

/-- **Nothing of a text is lost in its tokens.** -/
structure Lossless (text : String) (lexemes : List Lexeme) : Prop where
  /-- Tokens stand end to end from the start of the text to its end, and none is empty. -/
  tiles : Tiles 0 lexemes text.length
  /-- A token is written at its span, an escape in either letter case. -/
  written : ∀ lexeme ∈ lexemes, lexeme.token.WrittenAs ((Index.ofText text).slice lexeme.span)
  /-- All tokens together show the text, the digits of its escapes in upper case. -/
  shown : String.join (lexemes.map fun lexeme => lexeme.token.text) =
    String.ofList (upperEscapes text.toList)
  /-- No token would have gone on with the one after it. -/
  maximal : lexemes.IsChain fun a b => a.token.absorbs b.token = false

/-- **Cutting a text into tokens is lossless.** -/
theorem lossless_lex (text : String) : Lossless text (lex text) where
  tiles := lex_tiles text
  written lexeme hlexeme := (lex_cut text lexeme hlexeme).writtenAs
  shown := by
    apply String.toList_inj.mp
    rw [String.toList_join, List.flatMap_map, String.toList_ofList]
    exact lexFrom_text 0 text.toList
  maximal := lexFrom_maximal 0 text.toList

end ProjectLens
