/-!
# Syntax — expressions, statements and programs

The syntax trees of the language.  A block is a list of statements, and so is a program; an
`if` may lack its second branch and a `return` its value.  Trees can hold more than source text
can say, such as negative integers and blocks that stand as statements.
-/

namespace MonkeyLang

/-! ## Operators -/

/-- Operators written before their operand. -/
inductive PrefixOp
  | bang
  | minus
  deriving DecidableEq

/-- Operators written between their operands. -/
inductive InfixOp
  | plus
  | minus
  | asterisk
  | slash
  | lt
  | gt
  | eq
  | notEq
  deriving DecidableEq

def PrefixOp.symbol : PrefixOp → String
  | .bang => "!"
  | .minus => "-"

def InfixOp.symbol : InfixOp → String
  | .plus => "+"
  | .minus => "-"
  | .asterisk => "*"
  | .slash => "/"
  | .lt => "<"
  | .gt => ">"
  | .eq => "=="
  | .notEq => "!="

/-! ## Trees -/

mutual

/-- What has a value. -/
inductive Expr
  | ident (name : String)
  | int (value : Int64)
  | bool (value : Bool)
  | prefixOp (op : PrefixOp) (right : Expr)
  | infixOp (op : InfixOp) (left right : Expr)
  | cond (condition : Expr) (consequence : List Stmt) (alternative : Option (List Stmt))
  | fn (parameters : List String) (body : List Stmt)
  | call (callee : Expr) (arguments : List Expr)

/-- One step of a program or block. -/
inductive Stmt
  | bind (name : String) (value : Expr)
  | ret (value : Option Expr)
  | expr (value : Expr)
  | block (body : List Stmt)

end

/-- A whole source text: statements in order. -/
structure Program where
  statements : List Stmt

end MonkeyLang
