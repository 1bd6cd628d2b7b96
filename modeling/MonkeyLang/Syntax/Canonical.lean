import MonkeyLang.Syntax.Basic

/-!
# Canonical — syntax trees as text

The canonical text of a tree puts every operator application in parentheses and writes no braces
around blocks, so that it shows the shape of expressions.  Statements follow one another without
a separator; only `let` and `return` bring their own semicolon.
-/

namespace MonkeyLang

/-- Texts with a comma and a blank between them. -/
def listed : List String → String
  | [] => ""
  | [s] => s
  | s :: ss => s ++ ", " ++ listed ss

/-- A number in decimal, with a sign in front if it is negative. -/
def decimal (n : Int64) : String :=
  match n.toInt with
  | .ofNat k => Nat.repr k
  | .negSucc k => "-" ++ Nat.repr (k + 1)

def truthText : Bool → String
  | true => "true"
  | false => "false"

/-! ## Trees -/

mutual

def Expr.text : Expr → String
  | .ident name => name
  | .int value => decimal value
  | .bool value => truthText value
  | .prefixOp op right => "(" ++ op.symbol ++ right.text ++ ")"
  | .infixOp op left right => "(" ++ left.text ++ " " ++ op.symbol ++ " " ++ right.text ++ ")"
  | .cond condition consequence none =>
      "if" ++ condition.text ++ " " ++ Stmt.texts consequence
  | .cond condition consequence (some alternative) =>
      "if" ++ condition.text ++ " " ++ Stmt.texts consequence
        ++ " else " ++ Stmt.texts alternative
  | .fn parameters body => "fn(" ++ listed parameters ++ ") " ++ Stmt.texts body
  | .call callee arguments => callee.text ++ "(" ++ listed (Expr.textList arguments) ++ ")"

/-- The texts of expressions, one by one. -/
def Expr.textList : List Expr → List String
  | [] => []
  | e :: es => e.text :: Expr.textList es

def Stmt.text : Stmt → String
  | .bind name value => "let " ++ name ++ " = " ++ value.text ++ ";"
  | .ret (some value) => "return " ++ value.text ++ ";"
  | .ret none => "return;"
  | .expr value => value.text
  | .block body => Stmt.texts body

/-- The texts of statements, one directly after the other. -/
def Stmt.texts : List Stmt → String
  | [] => ""
  | s :: ss => s.text ++ Stmt.texts ss

end

def Program.text (p : Program) : String :=
  Stmt.texts p.statements

end MonkeyLang
