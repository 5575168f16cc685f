/-! # Cutting texts at a character -/

namespace ProjectLens

/-- The pieces of a text between the places where a character stands; there is always one more piece
than such places. -/
def pieces (mark : Char) : List Char → List (List Char)
  | [] => [[]]
  | c :: rest =>
    if c = mark then [] :: pieces mark rest
    else match pieces mark rest with
      | [] => [[c]]
      | piece :: others => (c :: piece) :: others

end ProjectLens
