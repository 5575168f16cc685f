import ProjectLens.Text.Visible

/-! # Quoted texts

The form in which outlines and messages show a text: between quotation marks on one line, with every
character that does not show by itself escaped. -/

namespace ProjectLens.Quoted

/-- The lower-case hexadecimal digits of a number, most significant first. -/
def hexDigits (n : Nat) : List Char := Nat.toDigits 16 n

/-- An escape by code point. -/
def escapeCode (c : Char) : List Char :=
  ['\\', 'u', '\x7b'] ++ hexDigits c.toNat ++ ['\x7d']

/-- One character between marks `mark`: the mark, the backslash and the common controls by a letter,
whatever else does not show by code point. -/
def escapeChar (mark c : Char) : List Char :=
  if c = mark then ['\\', mark]
  else if c = '\\' then ['\\', '\\']
  else if c = '\t' then ['\\', 't']
  else if c = '\r' then ['\\', 'r']
  else if c = '\n' then ['\\', 'n']
  else if c.toNat = 0 then ['\\', '0']
  else if isVisible c then [c]
  else escapeCode c

/-- A text between quotation marks. -/
def ofText (text : String) : String :=
  String.ofList ('\x22' :: text.toList.flatMap (escapeChar '\x22') ++ ['\x22'])

/-- A character between apostrophes. -/
def ofChar (c : Char) : String :=
  String.ofList ('\x27' :: escapeChar '\x27' c ++ ['\x27'])

end ProjectLens.Quoted
