import ProjectLens.Text.Span

/-! # The tokens of expressions

Expression text is cut into punctuation, identifiers, runs of digits, runs of white space and `%XX`
escapes; every other character is a token of its own, so cutting never fails and no character is
lost.

* `Token`, `Token.text` (as written, escapes in upper case), `Token.decoded` (as meant);
* `Token.next`: the longest token at the front of a text;
* `Lexeme`, `lex`: the tokens of a whole text with their spans. -/

namespace ProjectLens

/-- A token of an expression. -/
inductive Token where
  /-- `$(` -/
  | evaluateOpen
  /-- `@(` -/
  | itemGroupOpen
  /-- `%(` -/
  | itemMetadataOpen
  /-- `(` -/
  | openParen
  /-- `)` -/
  | closeParen
  /-- `[` -/
  | openBracket
  /-- `]` -/
  | closeBracket
  /-- `::` -/
  | doubleColon
  /-- `->` -/
  | arrow
  /-- `==` -/
  | equals
  /-- `!=` -/
  | notEquals
  /-- `!` -/
  | bang
  /-- The apostrophe. -/
  | quote
  /-- `,` -/
  | comma
  /-- `;` -/
  | semicolon
  /-- `.` -/
  | period
  /-- `%` and two hexadecimal digits, as the character they stand for. -/
  | escape (char : Char)
  /-- A letter or underscore followed by letters, digits and underscores. -/
  | identifier (name : String)
  /-- A run of digits. -/
  | number (digits : String)
  /-- A run of spaces, tabs, carriage returns and line feeds. -/
  | whitespace (text : String)
  /-- Any other character. -/
  | other (char : Char)
  deriving DecidableEq, Repr

namespace Token

/-- One hexadecimal digit, in upper case. -/
def upperHex (n : Nat) : Char := if n < 10 then Char.ofNat (48 + n) else Char.ofNat (55 + n)

/-- The token as written; an escape with its digits in upper case. -/
def text : Token → String
  | .evaluateOpen => "$("
  | .itemGroupOpen => "@("
  | .itemMetadataOpen => "%("
  | .openParen => "("
  | .closeParen => ")"
  | .openBracket => "["
  | .closeBracket => "]"
  | .doubleColon => "::"
  | .arrow => "->"
  | .equals => "=="
  | .notEquals => "!="
  | .bang => "!"
  | .quote => "'"
  | .comma => ","
  | .semicolon => ";"
  | .period => "."
  | .escape c => String.ofList ['%', upperHex (c.toNat / 16), upperHex (c.toNat % 16)]
  | .identifier name => name
  | .number digits => digits
  | .whitespace text => text
  | .other c => String.ofList [c]

/-- What the token contributes to a string: an escape the character it stands for, every other token
its text. -/
def decoded : Token → String
  | .escape c => String.ofList [c]
  | token => token.text

/-- Whether the token is white space. -/
def isWhitespace : Token → Bool
  | .whitespace _ => true
  | _ => false

/-- A letter of the basic alphabet in lower case, any other character unchanged. -/
def lowerLetter (c : Char) : Char :=
  if 'A' ≤ c ∧ c ≤ 'Z' then Char.ofNat (c.toNat + 32) else c

/-- Whether two texts differ at most in the case of basic letters. -/
def sameLetters (a b : String) : Bool := a.toList.map lowerLetter == b.toList.map lowerLetter

/-- Whether the token is a keyword, in any letter case. -/
def isKeyword (word : String) : Token → Bool
  | .identifier name => sameLetters name word
  | _ => false

/-- The value of a hexadecimal digit. -/
def hexValue? (c : Char) : Option Nat :=
  if '0' ≤ c ∧ c ≤ '9' then some (c.toNat - 48)
  else if 'A' ≤ c ∧ c ≤ 'F' then some (c.toNat - 55)
  else if 'a' ≤ c ∧ c ≤ 'f' then some (c.toNat - 87)
  else none

/-- Whether an identifier may start with a character. -/
def startsName (c : Char) : Bool :=
  ('A' ≤ c ∧ c ≤ 'Z') ∨ ('a' ≤ c ∧ c ≤ 'z') ∨ c = '_'

/-- Whether a character is a decimal digit. -/
def isDigit (c : Char) : Bool := '0' ≤ c ∧ c ≤ '9'

/-- Whether an identifier may go on with a character. -/
def continuesName (c : Char) : Bool := startsName c || isDigit c

/-- Whether a character belongs to white space tokens. -/
def isSpace (c : Char) : Bool := c = ' ' ∨ c = '\t' ∨ c = '\r' ∨ c = '\n'

/-- The punctuation that starts with a character, longer forms first, with what follows it. -/
def punctuation? (c : Char) (rest : List Char) : Option (Token × List Char) :=
  match c, rest with
  | '$', '(' :: rest => some (.evaluateOpen, rest)
  | '@', '(' :: rest => some (.itemGroupOpen, rest)
  | '%', '(' :: rest => some (.itemMetadataOpen, rest)
  | '%', high :: low :: rest =>
    match hexValue? high, hexValue? low with
    | some h, some l => some (.escape (Char.ofNat (16 * h + l)), rest)
    | _, _ => none
  | ':', ':' :: rest => some (.doubleColon, rest)
  | '-', '>' :: rest => some (.arrow, rest)
  | '=', '=' :: rest => some (.equals, rest)
  | '!', '=' :: rest => some (.notEquals, rest)
  | '(', rest => some (.openParen, rest)
  | ')', rest => some (.closeParen, rest)
  | '[', rest => some (.openBracket, rest)
  | ']', rest => some (.closeBracket, rest)
  | '!', rest => some (.bang, rest)
  | '\x27', rest => some (.quote, rest)
  | ',', rest => some (.comma, rest)
  | ';', rest => some (.semicolon, rest)
  | '.', rest => some (.period, rest)
  | _, _ => none

/-- The longest token that starts with a character, and the text after it. -/
def next (c : Char) (rest : List Char) : Token × List Char :=
  if startsName c then
    (.identifier (String.ofList (c :: rest.takeWhile continuesName)), rest.dropWhile continuesName)
  else if isDigit c then
    (.number (String.ofList (c :: rest.takeWhile isDigit)), rest.dropWhile isDigit)
  else if isSpace c then
    (.whitespace (String.ofList (c :: rest.takeWhile isSpace)), rest.dropWhile isSpace)
  else match punctuation? c rest with
    | some found => found
    | none => (.other c, rest)

/-- Punctuation takes nothing but characters off the front of the text. -/
theorem punctuation?_length_le {c : Char} {rest : List Char} {found : Token × List Char}
    (h : punctuation? c rest = some found) : found.2.length ≤ rest.length := by
  unfold punctuation? at h
  -- one case for each spelling; an escape has one more for the value of its digits
  split at h <;> (try split at h) <;> simp only [Option.some.injEq, reduceCtorEq] at h
  all_goals
    subst h
    simp only [List.length_cons, Nat.le_refl]
    try omega

/-- No token reaches past the text it is taken from. -/
theorem next_length_le (c : Char) (rest : List Char) : (next c rest).2.length ≤ rest.length := by
  have dropWhile_le (p : Char → Bool) : (rest.dropWhile p).length ≤ rest.length :=
    (List.dropWhile_sublist p).length_le
  unfold next
  split
  · exact dropWhile_le _
  split
  · exact dropWhile_le _
  split
  · exact dropWhile_le _
  split
  · next found h => exact punctuation?_length_le h
  · exact Nat.le_refl _

end Token

/-- A token with its span. -/
structure Lexeme where
  /-- The token. -/
  token : Token
  /-- The characters it covers. -/
  span : Span
  deriving DecidableEq, Repr

/-- The tokens of a text that starts at an offset. -/
def lexFrom (offset : Nat) : List Char → List Lexeme
  | [] => []
  | c :: rest =>
    let found := Token.next c rest
    let stop := offset + (rest.length + 1 - found.2.length)
    ⟨found.1, ⟨offset, stop⟩⟩ :: lexFrom stop found.2
termination_by chars => chars.length
decreasing_by exact Nat.lt_succ_of_le (Token.next_length_le c rest)

/-- The tokens of a text. -/
def lex (text : String) : List Lexeme := lexFrom 0 text.toList

end ProjectLens
