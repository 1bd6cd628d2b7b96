import MonkeyLang.Token.Kind

/-!
# Token — a kind with the text it was read from

A token keeps the exact piece of source text that produced it.  The end of input is a token
too, with empty text.
-/

namespace MonkeyLang

/-- A piece of source text and what it is. -/
structure Token where
  kind : Kind
  literal : String
  deriving DecidableEq

namespace Token

/-- The end of the input. -/
def eof : Token :=
  ⟨.eof, ""⟩

/-- The line for a token in a listing: the name of its kind, a blank, and its text.  The blank
stands even before the empty text of the end of input. -/
def display (t : Token) : String :=
  t.kind.name ++ " " ++ t.literal

end Token
end MonkeyLang
