/-!
# Json — JSON values and their indented text

JSON values with whole numbers only, whose objects keep the order of their members, and the text
that shows them over several lines.
-/

namespace MonkeyLang

inductive Json
  | null
  | bool (value : Bool)
  | num (value : Int)
  | str (value : String)
  | arr (items : List Json)
  | obj (members : List (String × Json))

namespace Json

/-! ## Strings -/

/-- A hexadecimal digit, in lower case. -/
def hexDigit (n : Nat) : Char :=
  if n < 10 then Char.ofNat ('0'.toNat + n) else Char.ofNat ('a'.toNat + (n - 10))

/-- How a character stands in a string: the quote and the backslash are marked by a backslash,
five control characters have short forms, the other controls below the space are numbered, and
all else stands for itself. -/
def escaped (c : Char) : List Char :=
  if c = '\x22' then ['\\', '\x22']
  else if c = '\\' then ['\\', '\\']
  else if c = '\x08' then ['\\', 'b']
  else if c = '\x0c' then ['\\', 'f']
  else if c = '\n' then ['\\', 'n']
  else if c = '\r' then ['\\', 'r']
  else if c = '\t' then ['\\', 't']
  else if c.toNat < 32 then
    ['\\', 'u', '0', '0', hexDigit (c.toNat / 16), hexDigit (c.toNat % 16)]
  else [c]

/-- A string between quotes. -/
def quoted (s : String) : String :=
  "\"" ++ String.ofList (s.toList.flatMap escaped) ++ "\""

/-! ## Values over several lines -/

/-- A whole number in decimal. -/
def numeral : Int → String
  | .ofNat n => Nat.repr n
  | .negSucc n => "-" ++ Nat.repr (n + 1)

/-- A new line, indented by two blanks per level. -/
def newLine (level : Nat) : String :=
  "\n" ++ String.ofList (List.replicate (2 * level) ' ')

mutual

/-- The text of a value that starts on a line of the given level.  Items and members stand on
lines of their own, one level deeper; an empty list or object stays on its line. -/
def render (level : Nat) : Json → String
  | null => "null"
  | bool true => "true"
  | bool false => "false"
  | num n => numeral n
  | str s => quoted s
  | arr [] => "[]"
  | arr (j :: js) => "[" ++ newLine (level + 1) ++ render (level + 1) j ++ renderItems level js
  | obj [] => "\x7b\x7d"
  | obj ((key, j) :: ms) =>
      "\x7b" ++ newLine (level + 1) ++ quoted key ++ ": " ++ render (level + 1) j
        ++ renderMembers level ms

/-- The items behind the first one, and the end of the list. -/
def renderItems (level : Nat) : List Json → String
  | [] => newLine level ++ "]"
  | j :: js => "," ++ newLine (level + 1) ++ render (level + 1) j ++ renderItems level js

/-- The members behind the first one, and the end of the object. -/
def renderMembers (level : Nat) : List (String × Json) → String
  | [] => newLine level ++ "\x7d"
  | (key, j) :: ms =>
      "," ++ newLine (level + 1) ++ quoted key ++ ": " ++ render (level + 1) j
        ++ renderMembers level ms

end

/-- The indented text of a value. -/
def pretty (j : Json) : String :=
  render 0 j

end Json
end MonkeyLang
