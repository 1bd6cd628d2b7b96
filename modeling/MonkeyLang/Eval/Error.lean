import MonkeyLang.Value.Basic

/-!
# Error — why an evaluation fails

The causes of failure, with the operators and types that took part in them, and the one function
that puts them into words.
-/

namespace MonkeyLang

inductive EvalError
  | identifierNotFound (name : String)
  | typeMismatch (left : ValueType) (op : InfixOp) (right : ValueType)
  | unknownPrefixOperator (op : PrefixOp) (right : ValueType)
  | unknownInfixOperator (left : ValueType) (op : InfixOp) (right : ValueType)
  | notAFunction (found : ValueType)
  | wrongArgumentCount (expected found : Nat)
  | divisionByZero
  deriving DecidableEq

def EvalError.message : EvalError → String
  | .identifierNotFound name => "identifier not found: " ++ name
  | .typeMismatch left op right =>
      "type mismatch: " ++ left.name ++ " " ++ op.symbol ++ " " ++ right.name
  | .unknownPrefixOperator op right => "unknown operator: " ++ op.symbol ++ right.name
  | .unknownInfixOperator left op right =>
      "unknown operator: " ++ left.name ++ " " ++ op.symbol ++ " " ++ right.name
  | .notAFunction found => "not a function: " ++ found.name
  | .wrongArgumentCount expected found =>
      "wrong number of arguments: expected " ++ Nat.repr expected ++ ", got " ++ Nat.repr found
  | .divisionByZero => "division by zero"

end MonkeyLang
