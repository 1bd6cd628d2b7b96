import MonkeyLang.Syntax.Basic
import MonkeyLang.Token.Kind

/-!
# Precedence — how tightly operators bind

Seven levels, from the loosest to the tightest.  Every token kind has a level as a continuation
of an expression; the kinds that cannot continue one have the lowest level.  Above the lowest
level stand exactly the infix operators and the bracket of a call
(`Precedence.lowest_lt_ofKind_iff`).
-/

namespace MonkeyLang

/-- The levels, loosest first. -/
inductive Precedence
  | lowest
  | equals
  | lessGreater
  | sum
  | product
  | unary
  | call
  deriving DecidableEq

namespace Precedence

/-! ## Order -/

def rank : Precedence → Nat
  | lowest => 0
  | equals => 1
  | lessGreater => 2
  | sum => 3
  | product => 4
  | unary => 5
  | call => 6

instance : LT Precedence :=
  ⟨fun p q => p.rank < q.rank⟩

instance (p q : Precedence) : Decidable (p < q) :=
  inferInstanceAs (Decidable (p.rank < q.rank))

/-! ## Levels of tokens -/

/-- The level of a token that continues an expression. -/
def ofKind : Kind → Precedence
  | .eq => equals
  | .notEq => equals
  | .lt => lessGreater
  | .gt => lessGreater
  | .plus => sum
  | .minus => sum
  | .asterisk => product
  | .slash => product
  | .lparen => call
  | _ => lowest

end Precedence

/-! ## Operators of tokens -/

/-- The operator that a token stands for between two operands. -/
def InfixOp.ofKind? : Kind → Option InfixOp
  | .plus => some .plus
  | .minus => some .minus
  | .asterisk => some .asterisk
  | .slash => some .slash
  | .lt => some .lt
  | .gt => some .gt
  | .eq => some .eq
  | .notEq => some .notEq
  | _ => none

/-- The level at which an operator binds. -/
def InfixOp.precedence : InfixOp → Precedence
  | .plus => .sum
  | .minus => .sum
  | .asterisk => .product
  | .slash => .product
  | .lt => .lessGreater
  | .gt => .lessGreater
  | .eq => .equals
  | .notEq => .equals

theorem InfixOp.precedence_of_ofKind? {k : Kind} {op : InfixOp} (h : InfixOp.ofKind? k = some op) :
    Precedence.ofKind k = op.precedence := by
  cases k <;> cases h <;> rfl

/-- What continues an expression is an infix operator or the bracket of a call. -/
theorem Precedence.lowest_lt_ofKind_iff (k : Kind) :
    Precedence.lowest < Precedence.ofKind k ↔ (InfixOp.ofKind? k).isSome ∨ k = .lparen := by
  cases k <;> decide

end MonkeyLang
