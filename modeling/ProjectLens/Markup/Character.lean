/-! # Characters of markup

Which characters a document may hold, which may start a name and which may go on with it. -/

namespace ProjectLens.Markup

/-- Whether a character separates parts of markup. -/
def isSpace (c : Char) : Bool := c = ' ' ∨ c = '\t' ∨ c = '\n' ∨ c = '\r'

/-- Whether a character may stand in a document: no control characters but those that separate, and
neither of the two non-characters at the end of the basic plane. -/
def isChar (c : Char) : Bool :=
  if c.toNat < 0x20 then isSpace c else c.toNat ≠ 0xFFFE ∧ c.toNat ≠ 0xFFFF

/-- Whether a code point lies in one of some closed ranges. -/
def inRanges (ranges : List (Nat × Nat)) (c : Char) : Bool :=
  ranges.any fun (low, high) => low ≤ c.toNat ∧ c.toNat ≤ high

/-- Whether a character may start a name. -/
def startsName : Char → Bool :=
  inRanges [(0x41, 0x5A), (0x61, 0x7A), (0x3A, 0x3A), (0x5F, 0x5F), (0xC0, 0xD6), (0xD8, 0xF6),
    (0xF8, 0x2FF), (0x370, 0x37D), (0x37F, 0x1FFF), (0x200C, 0x200D), (0x2070, 0x218F),
    (0x2C00, 0x2FEF), (0x3001, 0xD7FF), (0xF900, 0xFDCF), (0xFDF0, 0xFFFD), (0x10000, 0xEFFFF)]

/-- Whether a name may go on with a character. -/
def continuesName (c : Char) : Bool :=
  startsName c ||
    inRanges [(0x30, 0x39), (0x2D, 0x2E), (0xB7, 0xB7), (0x300, 0x36F), (0x203F, 0x2040)] c

/-- Whether a character is a letter of the basic alphabet. -/
def isLetter : Char → Bool := inRanges [(0x41, 0x5A), (0x61, 0x7A)]

/-- Whether a character is a decimal digit. -/
def isDigit : Char → Bool := inRanges [(0x30, 0x39)]

/-- The first byte of a character in UTF-8, as the character with that number. -/
def leadByte (c : Char) : Char :=
  let n := c.toNat
  Char.ofNat (if n < 0x80 then n else if n < 0x800 then 0xC0 + n / 0x40
    else if n < 0x10000 then 0xE0 + n / 0x1000 else 0xF0 + n / 0x40000)

end ProjectLens.Markup
