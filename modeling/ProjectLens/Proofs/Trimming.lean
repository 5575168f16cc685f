import ProjectLens.Expression.Slots
import ProjectLens.Proofs.Cursors
import ProjectLens.Proofs.Spelling
import ProjectLens.Proofs.Taking

/-! # White space around tokens

A simple list cuts white space off its slots character by character, a list of expressions token by
token. White space tokens are of white space only, and the tokens at either end of an expression have
none, so both stop at the same place.

* `SimpleList.trimStart_eq`, `SimpleList.trimStop_eq`: where cutting stops;
* `Token.Cut.isSpace_of_isWhitespace`, `Token.Cut.isBlank_of_isSolid`: what characters tokens have;
* `Grammar.Stretch`: tokens of a text in a row, and the characters under them. -/

namespace ProjectLens

/-! ## Cutting white space off -/

namespace SimpleList

variable {chars : List Char} {a b c : Nat}

/-- A stretch of a text is cut at any offset in it. -/
theorem charsOf_append (hab : a ≤ b) (hbc : b ≤ c) :
    charsOf chars ⟨a, c⟩ = charsOf chars ⟨a, b⟩ ++ charsOf chars ⟨b, c⟩ := by
  have hlength : c - a = (b - a) + (c - b) := by omega
  have hdrop : (chars.drop a).drop (b - a) = chars.drop b := by
    rw [List.drop_drop, Nat.add_sub_cancel' hab]
  simp only [charsOf, Span.length]
  rw [hlength, List.take_add, hdrop]

/-- `(charsOf chars ⟨a, b⟩).length = b - a` within the text. -/
theorem length_charsOf (hb : b ≤ chars.length) : (charsOf chars ⟨a, b⟩).length = b - a := by
  simp only [charsOf, Span.length, List.length_take, List.length_drop]
  omega

/-- An empty span has no characters. -/
theorem charsOf_self (chars : List Char) (a : Nat) : charsOf chars ⟨a, a⟩ = [] := by
  simp [charsOf, Span.length]

/-- **White space at the front is cut off up to the first other character.** -/
theorem trimStart_eq (hab : a ≤ b) (hbc : b ≤ c) (hc : c ≤ chars.length)
    (hblank : ∀ x ∈ charsOf chars ⟨a, b⟩, isBlank x = true)
    (hsharp : (charsOf chars ⟨b, c⟩).head?.any isBlank = false) :
    trimStart chars ⟨a, c⟩ = ⟨b, c⟩ := by
  rw [trimStart, charsOf_append hab hbc, Markup.takeWhile_run hblank hsharp,
    length_charsOf (Nat.le_trans hbc hc), Nat.add_sub_cancel' hab]

/-- **White space at the back is cut off up to the last other character.** -/
theorem trimStop_eq (hab : a ≤ b) (hbc : b ≤ c) (hc : c ≤ chars.length)
    (hblank : ∀ x ∈ charsOf chars ⟨b, c⟩, isBlank x = true)
    (hsharp : (charsOf chars ⟨a, b⟩).getLast?.any isBlank = false) :
    trimStop chars ⟨a, c⟩ = ⟨a, b⟩ := by
  have hback : ∀ x ∈ (charsOf chars ⟨b, c⟩).reverse, isBlank x = true := by
    intro x hx
    exact hblank x (List.mem_reverse.mp hx)
  have hfront : (charsOf chars ⟨a, b⟩).reverse.head?.any isBlank = false := by
    rw [List.head?_reverse]
    exact hsharp
  rw [trimStop, charsOf_append hab hbc, List.reverse_append, Markup.takeWhile_run hback hfront,
    List.length_reverse, length_charsOf hc, Nat.sub_sub_self hbc]

end SimpleList

/-! ## The characters of tokens -/

/-- Characters of the basic alphabet after the space are not white space. -/
theorem isBlank_eq_false {c : Char} (hlow : 0x21 ≤ c.toNat) (hhigh : c.toNat < 0x85) :
    isBlank c = false := by
  unfold isBlank CharSet.contains blankSet
  simp only [CharSet.holdsFrom]
  rw [if_neg (by omega), if_neg (by omega), if_neg (by omega), if_neg (by omega), if_pos hhigh]
  rfl

namespace Token

variable {token : Token} {piece rest : List Char} {c : Char}

/-- What separates tokens is blank. -/
theorem isBlank_of_isSpace (h : isSpace c = true) : isBlank c = true := by
  have hcases : c = ' ' ∨ c = '\t' ∨ c = '\r' ∨ c = '\n' := of_decide_eq_true h
  rcases hcases with rfl | rfl | rfl | rfl <;> decide

/-- What a name starts with is not blank. -/
theorem isBlank_of_startsName (h : startsName c = true) : isBlank c = false := by
  have hcases : ('A' ≤ c ∧ c ≤ 'Z') ∨ ('a' ≤ c ∧ c ≤ 'z') ∨ c = '_' := of_decide_eq_true h
  rcases hcases with ⟨hlow, hhigh⟩ | ⟨hlow, hhigh⟩ | rfl
  · have hlow : 65 ≤ c.toNat := hlow
    have hhigh : c.toNat ≤ 90 := hhigh
    exact isBlank_eq_false (by omega) (by omega)
  · have hlow : 97 ≤ c.toNat := hlow
    have hhigh : c.toNat ≤ 122 := hhigh
    exact isBlank_eq_false (by omega) (by omega)
  · decide

/-- A digit is not blank. -/
theorem isBlank_of_isDigit (h : isDigit c = true) : isBlank c = false := by
  have hcases : '0' ≤ c ∧ c ≤ '9' := of_decide_eq_true h
  have hlow : 48 ≤ c.toNat := hcases.1
  have hhigh : c.toNat ≤ 57 := hcases.2
  exact isBlank_eq_false (by omega) (by omega)

/-- What a name goes on with is not blank. -/
theorem isBlank_of_continuesName (h : continuesName c = true) : isBlank c = false := by
  rcases Bool.or_eq_true_iff.mp h with hname | hdigit
  · exact isBlank_of_startsName hname
  · exact isBlank_of_isDigit hdigit

/-- A hexadecimal digit is not blank. -/
theorem isBlank_of_hexValue {value : Nat} (h : hexValue? c = some value) : isBlank c = false := by
  -- all digits lie between two codes where nothing is blank
  have hrange : 48 ≤ c.toNat ∧ c.toNat ≤ 102 := by
    unfold hexValue? at h
    split at h
    · next hdigit =>
      have hlow : 48 ≤ c.toNat := hdigit.1
      have hhigh : c.toNat ≤ 57 := hdigit.2
      omega
    split at h
    · next hcapital =>
      have hlow : 65 ≤ c.toNat := hcapital.1
      have hhigh : c.toNat ≤ 70 := hcapital.2
      omega
    split at h
    · next hletter =>
      have hlow : 97 ≤ c.toNat := hletter.1
      have hhigh : c.toNat ≤ 102 := hletter.2
      omega
    · cases h
  exact isBlank_eq_false (by omega) (by omega)

/-- Whether the token is one of no white space: any but white space and single characters. -/
def isSolid : Token → Bool
  | .whitespace _ | .other _ => false
  | _ => true

/-- **White space tokens are white space** character by character. -/
theorem Cut.isSpace_of_isWhitespace (h : token.Cut piece rest) (hspace : token.isWhitespace = true) :
    ∀ x ∈ piece, isSpace x = true := by
  cases h with
  | whitespace hfirst hrun _ =>
    intro x hx
    rcases List.mem_cons.mp hx with rfl | hx
    · exact hfirst
    · exact hrun x hx
  | mark hmark =>
    cases token with
    | whitespace text => cases hmark
    | _ => cases hspace
  | _ => cases hspace

/-- **No character of any other token is white space**, if it is not a single character. -/
theorem Cut.isBlank_of_isSolid (h : token.Cut piece rest) (hsolid : token.isSolid = true) :
    ∀ x ∈ piece, isBlank x = false := by
  cases h with
  | identifier hfirst hrun _ =>
    intro x hx
    rcases List.mem_cons.mp hx with rfl | hx
    · exact isBlank_of_startsName hfirst
    · exact isBlank_of_continuesName (hrun x hx)
  | number hfirst hrun _ =>
    intro x hx
    rcases List.mem_cons.mp hx with rfl | hx
    · exact isBlank_of_isDigit hfirst
    · exact isBlank_of_isDigit (hrun x hx)
  | whitespace _ _ _ => cases hsolid
  | escape hhigh hlow =>
    simp only [List.forall_mem_cons]
    exact ⟨by decide, isBlank_of_hexValue hhigh, isBlank_of_hexValue hlow, by simp⟩
  | mark hmark =>
    -- punctuation is written in one way, which has no white space
    have hmarks : token.text.toList.all (fun x => !isBlank x) = true := by
      cases token <;> first | decide | cases hmark
    simpa using hmarks
  | other _ _ _ _ => cases hsolid

end Token

/-! ## Tokens in a row -/

namespace Grammar

open SimpleList

/-- Where no character is white space, none that is asked for is. -/
theorem any_isBlank_eq_false {x : Option Char} (h : ∀ c ∈ x, isBlank c = false) :
    x.any isBlank = false := by
  cases x with
  | none => rfl
  | some c => exact h c rfl

/-- The last of some tokens, and there is one, is one of these. -/
def Ends (p : Token → Prop) (tokens : List Lexeme) : Prop :=
  ∃ front last, tokens = front ++ [last] ∧ p last.token

/-- What the last token is does not depend on the tokens before. -/
theorem Ends.append {p : Token → Prop} {tokens : List Lexeme} (h : Ends p tokens)
    (before : List Lexeme) : Ends p (before ++ tokens) := by
  obtain ⟨front, last, rfl, hp⟩ := h
  exact ⟨before ++ front, last, (List.append_assoc ..).symm, hp⟩

/-- **Tokens of a text in a row** from one offset to another. -/
structure Stretch (text : String) (start : Nat) (tokens : List Lexeme) (stop : Nat) : Prop where
  /-- They are tokens of the text. -/
  mem : ∀ lexeme ∈ tokens, lexeme ∈ lex text
  /-- They stand end to end. -/
  tiles : Tiles start tokens stop

variable {text : String} {tokens more : List Lexeme} {start stop : Nat}

/-- The tokens of a text are a stretch of it, from its start to its end. -/
theorem stretch_lex (text : String) : Stretch text 0 (lex text) text.length :=
  ⟨fun _ h => h, lex_tiles text⟩

/-- A stretch in two parts is two stretches that meet. -/
theorem stretch_append : Stretch text start (tokens ++ more) stop ↔
    ∃ middle, Stretch text start tokens middle ∧ Stretch text middle more stop := by
  constructor
  · rintro ⟨hmem, tiles⟩
    obtain ⟨middle, htokens, hmore⟩ := tiles_append.mp tiles
    obtain ⟨hleft, hright⟩ := List.forall_mem_append.mp hmem
    exact ⟨middle, ⟨hleft, htokens⟩, ⟨hright, hmore⟩⟩
  · rintro ⟨middle, ⟨hleft, htokens⟩, ⟨hright, hmore⟩⟩
    exact ⟨List.forall_mem_append.mpr ⟨hleft, hright⟩, tiles_append.mpr ⟨middle, htokens, hmore⟩⟩

/-- A stretch is its first token and the stretch from there on. -/
theorem stretch_cons {lexeme : Lexeme} : Stretch text start (lexeme :: more) stop ↔
    lexeme ∈ lex text ∧ lexeme.span.start = start ∧ start < lexeme.span.stop ∧
      Stretch text lexeme.span.stop more stop := by
  constructor
  · rintro ⟨hmem, hstart, hlt, tiles⟩
    obtain ⟨hfirst, hmore⟩ := List.forall_mem_cons.mp hmem
    exact ⟨hfirst, hstart, hlt, hmore, tiles⟩
  · rintro ⟨hfirst, hstart, hlt, hmore, tiles⟩
    exact ⟨List.forall_mem_cons.mpr ⟨hfirst, hmore⟩, hstart, hlt, tiles⟩

namespace Stretch

variable (h : Stretch text start tokens stop)
include h

/-- `Stretch text start tokens stop → start ≤ stop`. -/
theorem le : start ≤ stop := h.tiles.le

/-- **Under white space tokens there is white space only.** -/
theorem isSpace_of_blank (hblank : Blank tokens) :
    ∀ x ∈ charsOf text.toList ⟨start, stop⟩, Token.isSpace x = true := by
  induction tokens generalizing start with
  | nil =>
    obtain rfl : start = stop := h.tiles
    simp [charsOf_self]
  | cons lexeme rest ih =>
    obtain ⟨hmem, rfl, hlt, hrest⟩ := stretch_cons.mp h
    obtain ⟨hspace, hblank⟩ := blank_cons.mp hblank
    rw [charsOf_append (Nat.le_of_lt hlt) hrest.le]
    intro x hx
    rcases List.mem_append.mp hx with hx | hx
    · exact (lex_cut text lexeme hmem).isSpace_of_isWhitespace hspace x hx
    · exact ih hrest hblank x hx

/-- The characters of blank tokens are blank. -/
theorem isBlank_of_blank (hblank : Blank tokens) :
    ∀ x ∈ charsOf text.toList ⟨start, stop⟩, isBlank x = true :=
  fun x hx => Token.isBlank_of_isSpace (h.isSpace_of_blank hblank x hx)

/-- **Tokens that open with a solid one** open with a character that is not white space. -/
theorem head?_of_opens (hopens : Opens (·.isSolid = true) tokens) :
    (charsOf text.toList ⟨start, stop⟩).head?.any isBlank = false := by
  obtain ⟨first, more, rfl, hsolid⟩ := hopens
  obtain ⟨hmem, rfl, hlt, hmore⟩ := stretch_cons.mp h
  have hcut := lex_cut text first hmem
  have hfirst : charsOf text.toList ⟨first.span.start, first.span.stop⟩ =
      (Index.ofText text).sliceChars first.span := rfl
  rw [charsOf_append (Nat.le_of_lt hlt) hmore.le, hfirst, List.head?_append_of_ne_nil _ hcut.ne_nil]
  refine any_isBlank_eq_false fun c hc => ?_
  exact hcut.isBlank_of_isSolid hsolid c (List.mem_of_mem_head? hc)

/-- **Tokens that end with a solid one** end with a character that is not white space. -/
theorem getLast?_of_ends (hends : Ends (·.isSolid = true) tokens) :
    (charsOf text.toList ⟨start, stop⟩).getLast?.any isBlank = false := by
  obtain ⟨front, last, rfl, hsolid⟩ := hends
  obtain ⟨border, hfront, hlast⟩ := stretch_append.mp h
  obtain ⟨hmem, rfl, hlt, hnil⟩ := stretch_cons.mp hlast
  obtain rfl : last.span.stop = stop := hnil.tiles
  have hcut := lex_cut text last hmem
  have hpiece : charsOf text.toList ⟨last.span.start, last.span.stop⟩ =
      (Index.ofText text).sliceChars last.span := rfl
  rw [charsOf_append hfront.le (Nat.le_of_lt hlt), hpiece,
    List.getLast?_append_of_ne_nil _ hcut.ne_nil]
  refine any_isBlank_eq_false fun c hc => ?_
  exact hcut.isBlank_of_isSolid hsolid c (List.mem_of_getLast? hc)

end Stretch

end Grammar

end ProjectLens
