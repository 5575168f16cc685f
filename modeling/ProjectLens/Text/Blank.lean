import ProjectLens.Text.CharSet

/-! # White space

The characters with the Unicode property `White_Space`, and trimming by it. -/

namespace ProjectLens

/-- The code points at which the property `White_Space` changes. -/
def blankSet : CharSet := .mk
  [0x9, 0xe, 0x20, 0x21, 0x85, 0x86, 0xa0, 0xa1, 0x1680, 0x1681, 0x2000, 0x200b, 0x2028, 0x202a,
   0x202f, 0x2030, 0x205f, 0x2060, 0x3000, 0x3001]

/-- Whether a character is white space. -/
def isBlank (c : Char) : Bool := blankSet.contains c

/-- The characters without white space at the front. -/
def trimFront (chars : List Char) : List Char := chars.dropWhile isBlank

/-- The characters without white space at the back. -/
def trimBack (chars : List Char) : List Char := (chars.reverse.dropWhile isBlank).reverse

/-- The characters without white space at either side. -/
def trimBlank (chars : List Char) : List Char := trimBack (trimFront chars)

/-- Whether a text is empty or all white space. -/
def isBlankText (text : String) : Bool := text.toList.all isBlank

end ProjectLens
