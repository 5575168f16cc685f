/-! # Structured output

The values that structured output is made of, and their two printed forms: on one line, and spread
over indented lines. Numbers are natural numbers: nothing the inspector counts is negative.

* `Json`: the values; an object keeps its members in the order they were given;
* `Json.sorted`: members in key order, throughout;
* `Json.compact`, `Json.pretty`: the printed forms. -/

namespace ProjectLens

/-- A value of structured output. -/
inductive Json where
  /-- No value. -/
  | null
  /-- A truth value. -/
  | bool (value : Bool)
  /-- A count. -/
  | num (value : Nat)
  /-- A text. -/
  | str (value : String)
  /-- An ordered list. -/
  | arr (items : List Json)
  /-- Named members, in order. -/
  | obj (members : List (String × Json))
  deriving Repr, Inhabited

namespace Json

/-- The value of something optional. -/
def opt {α : Type} (encode : α → Json) : Option α → Json
  | none => .null
  | some a => encode a

/-- A list of values. -/
def list {α : Type} (encode : α → Json) (items : List α) : Json := .arr (items.map encode)

/-- Whether a value is nothing or an empty list. -/
def isVoid : Json → Bool
  | .null => true
  | .arr [] => true
  | _ => false

/-- An object without the members that hold nothing or an empty list. -/
def dense (members : List (String × Json)) : Json :=
  .obj (members.filter fun member => !member.2.isVoid)

/-- One hexadecimal digit, in lower case. -/
def hexDigit (n : Nat) : Char := if n < 10 then Char.ofNat (48 + n) else Char.ofNat (87 + n)

/-- One character of a printed text. Quotation marks, backslashes and control characters are
escaped, those with a letter of their own by that letter. -/
def escapeChar (c : Char) : List Char :=
  if c = '\x22' then ['\\', '\x22']
  else if c = '\\' then ['\\', '\\']
  else if c = '\n' then ['\\', 'n']
  else if c = '\r' then ['\\', 'r']
  else if c = '\t' then ['\\', 't']
  else if c = '\x08' then ['\\', 'b']
  else if c = '\x0c' then ['\\', 'f']
  else if c.toNat < 0x20 then
    ['\\', 'u', '0', '0', hexDigit (c.toNat / 16), hexDigit (c.toNat % 16)]
  else [c]

/-- A printed text, with its quotation marks. -/
def quote (s : String) : String :=
  String.ofList ('\x22' :: s.toList.flatMap escapeChar ++ ['\x22'])

mutual

/-- The same value with the members of every object in key order. -/
def sorted : Json → Json
  | .arr items => .arr (sortedItems items)
  | .obj members => .obj ((sortedMembers members).mergeSort fun a b => a.1 ≤ b.1)
  | value => value

/-- `sorted` for the items of a list. -/
def sortedItems : List Json → List Json
  | [] => []
  | item :: items => sorted item :: sortedItems items

/-- `sorted` for the values of members. -/
def sortedMembers : List (String × Json) → List (String × Json)
  | [] => []
  | (key, value) :: members => (key, sorted value) :: sortedMembers members

end

mutual

/-- The value on one line. -/
def compact : Json → String
  | .null => "null"
  | .bool true => "true"
  | .bool false => "false"
  | .num n => toString n
  | .str s => quote s
  | .arr items => "[" ++ ",".intercalate (compactItems items) ++ "]"
  | .obj members => "\x7b" ++ ",".intercalate (compactMembers members) ++ "\x7d"

/-- `compact` for the items of a list. -/
def compactItems : List Json → List String
  | [] => []
  | item :: items => compact item :: compactItems items

/-- `compact` for members. -/
def compactMembers : List (String × Json) → List String
  | [] => []
  | (key, value) :: members => (quote key ++ ":" ++ compact value) :: compactMembers members

end

/-- Puts entries on lines of their own, two columns further in than the brackets around them. -/
def block (opening closing margin : String) : List String → String
  | [] => opening ++ closing
  | entries =>
    opening ++ "\n" ++ ",\n".intercalate (entries.map fun entry => margin ++ "  " ++ entry) ++
      "\n" ++ margin ++ closing

mutual

/-- The value over several lines, `margin` being what the lines inside it start with. -/
def prettyFrom (margin : String) : Json → String
  | .arr items => block "[" "]" margin (prettyItems (margin ++ "  ") items)
  | .obj members => block "\x7b" "\x7d" margin (prettyMembers (margin ++ "  ") members)
  | .null => "null"
  | .bool true => "true"
  | .bool false => "false"
  | .num n => toString n
  | .str s => quote s

/-- `prettyFrom` for the items of a list. -/
def prettyItems (margin : String) : List Json → List String
  | [] => []
  | item :: items => prettyFrom margin item :: prettyItems margin items

/-- `prettyFrom` for members. -/
def prettyMembers (margin : String) : List (String × Json) → List String
  | [] => []
  | (key, value) :: members =>
    (quote key ++ ": " ++ prettyFrom margin value) :: prettyMembers margin members

end

/-- The value over several lines, each level two columns further in. -/
def pretty (value : Json) : String := prettyFrom "" value

end Json

end ProjectLens
