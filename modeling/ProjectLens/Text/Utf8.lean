/-! # Characters from bytes

Files are sequences of bytes in UTF-8. A sequence that is not well-formed can be refused, or read
with a mark in place of every piece that is no character.

* `Utf8.decodeOne`: the character at the start, or the longest start of a character that is broken
off;
* `Utf8.decode?`: all characters, if the bytes are well-formed;
* `Utf8.decodeLossily`: all characters, with marks. -/

namespace ProjectLens.Utf8

/-- What the first byte of a character says: number of bytes to follow, the bits it gives itself,
and the bounds of the next byte. -/
structure Lead where
  /-- Number of bytes to follow. -/
  more : Nat
  /-- Its own bits of the code point. -/
  bits : Nat
  /-- The least value of the next byte. -/
  low : UInt8
  /-- The greatest value of the next byte. -/
  high : UInt8
  deriving DecidableEq, Repr

/-- What a byte says as the first one of a character. The bounds keep out overlong forms, surrogates
and code points past the last one. -/
def lead? (b : UInt8) : Option Lead :=
  let n := b.toNat
  if n < 0x80 then some ⟨0, n, 0, 0⟩
  else if n < 0xC2 then none
  else if n < 0xE0 then some ⟨1, n - 0xC0, 0x80, 0xBF⟩
  else if n = 0xE0 then some ⟨2, 0, 0xA0, 0xBF⟩
  else if n = 0xED then some ⟨2, 0xD, 0x80, 0x9F⟩
  else if n < 0xF0 then some ⟨2, n - 0xE0, 0x80, 0xBF⟩
  else if n = 0xF0 then some ⟨3, 0, 0x90, 0xBF⟩
  else if n < 0xF4 then some ⟨3, n - 0xF0, 0x80, 0xBF⟩
  else if n = 0xF4 then some ⟨3, 4, 0x80, 0x8F⟩
  else none

/-- Goes on with a character of which `more` bytes are to follow; `none` when it is broken off. -/
def follow (bits : Nat) (low high : UInt8) : Nat → List UInt8 → Option Char × List UInt8
  | 0, rest => (some (Char.ofNat bits), rest)
  | _ + 1, [] => (none, [])
  | more + 1, b :: rest =>
    if low ≤ b ∧ b ≤ high then follow (bits * 64 + b.toNat % 64) 0x80 0xBF more rest
    else (none, b :: rest)

/-- The character that starts with a byte, and the bytes after it. -/
def decodeOne (b : UInt8) (rest : List UInt8) : Option Char × List UInt8 :=
  match lead? b with
  | none => (none, rest)
  | some lead => follow lead.bits lead.low lead.high lead.more rest

/-- Going on with a character never adds bytes. -/
theorem length_follow_le (bits : Nat) (low high : UInt8) (more : Nat) (rest : List UInt8) :
    (follow bits low high more rest).2.length ≤ rest.length := by
  induction more generalizing bits low high rest with
  | zero => simp [follow]
  | succ more ih =>
    cases rest with
    | nil => simp [follow]
    | cons b rest =>
      simp only [follow]
      split
      · exact Nat.le_trans (ih _ _ _ _) (Nat.le_succ _)
      · exact Nat.le_refl _

/-- Reading a character never adds bytes. -/
theorem length_decodeOne_le (b : UInt8) (rest : List UInt8) :
    (decodeOne b rest).2.length ≤ rest.length := by
  simp only [decodeOne]
  split
  · exact Nat.le_refl _
  · exact length_follow_le _ _ _ _ _

/-- All characters of some bytes, with `none` for every piece that is no character. -/
def decode : List UInt8 → List (Option Char)
  | [] => []
  | b :: rest => (decodeOne b rest).1 :: decode (decodeOne b rest).2
termination_by bytes => bytes.length
decreasing_by exact Nat.lt_succ_of_le (length_decodeOne_le b rest)

/-- The text of some bytes, if they are well-formed. -/
def decode? (bytes : List UInt8) : Option String := ((decode bytes).mapM id).map String.ofList

/-- The mark for a piece that is no character. -/
def replacement : Char := Char.ofNat 0xFFFD

/-- The text of some bytes, with marks for pieces that are no characters. -/
def decodeLossily (bytes : List UInt8) : String :=
  String.ofList ((decode bytes).map fun c => c.getD replacement)

end ProjectLens.Utf8
