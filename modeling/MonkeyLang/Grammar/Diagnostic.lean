import MonkeyLang.Token.Kind

/-!
# Diagnostic — what is wrong with a source text, and where

A syntax error says what was found in place of what.  A diagnostic adds where: the number of
tokens that were still unread when the error was noticed, the blamed token included.
-/

namespace MonkeyLang

/-- A defect of a source text. -/
inductive SyntaxError
  | unexpected (expected actual : Kind)
  | noOperand (found : Kind)
  | invalidInteger (digits : String)
  deriving DecidableEq

/-- The line that reports a defect. -/
def SyntaxError.message : SyntaxError → String
  | .unexpected expected actual =>
      "expected next token to be " ++ expected.symbol ++ ", got " ++ actual.symbol ++ " instead"
  | .noOperand found => "no prefix parser function from " ++ found.symbol ++ " found"
  | .invalidInteger digits => "could not parse " ++ digits ++ " as integer"

/-- A defect and its place, counted from the end of the tokens: `unread` tokens were left, of
which the blamed one is the first.  At the end of the input none is left. -/
structure Diagnostic where
  error : SyntaxError
  unread : Nat
  deriving DecidableEq

end MonkeyLang
