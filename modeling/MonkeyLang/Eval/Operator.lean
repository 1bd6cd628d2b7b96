import MonkeyLang.Eval.Error

/-!
# Operator — what operators do to values

Integers are 64-bit signed words: sums, differences, products and negation wrap around, and
division truncates toward zero.  Booleans can only be compared for equality.  Everything else
fails, with a type mismatch if the operands differ in type.
-/

namespace MonkeyLang

/-- An operator in front of a value. -/
def PrefixOp.apply : PrefixOp → Value → Except EvalError Value
  | .bang, v => .ok (.boolean !v.truthy)
  | .minus, .integer n => .ok (.integer (-n))
  | .minus, v => .error (.unknownPrefixOperator .minus v.type)

/-- An operator between two integers.  The quotient of the least integer and minus one wraps
around to the least integer. -/
def InfixOp.applyInt : InfixOp → Int64 → Int64 → Except EvalError Value
  | .plus, a, b => .ok (.integer (a + b))
  | .minus, a, b => .ok (.integer (a - b))
  | .asterisk, a, b => .ok (.integer (a * b))
  | .slash, a, b => if b = 0 then .error .divisionByZero else .ok (.integer (a / b))
  | .lt, a, b => .ok (.boolean (a < b))
  | .gt, a, b => .ok (.boolean (b < a))
  | .eq, a, b => .ok (.boolean (a == b))
  | .notEq, a, b => .ok (.boolean (a != b))

/-- An operator between operand types that it does not know. -/
def InfixOp.refuse (op : InfixOp) (left right : ValueType) : EvalError :=
  if left = right then .unknownInfixOperator left op right else .typeMismatch left op right

/-- An operator between two values. -/
def InfixOp.apply (op : InfixOp) (left right : Value) : Except EvalError Value :=
  match op, left, right with
  | op, .integer a, .integer b => op.applyInt a b
  | .eq, .boolean a, .boolean b => .ok (.boolean (a == b))
  | .notEq, .boolean a, .boolean b => .ok (.boolean (a != b))
  | op, v, w => .error (op.refuse v.type w.type)

end MonkeyLang
