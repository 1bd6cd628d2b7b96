import MonkeyLang.Syntax.Canonical

/-!
# Leading — the words that nodes start with

Every node of a syntax tree has a leading word: the keyword, name, number, operator or bracket
that stands for it.  The leading words of a whole tree are listed parents first.
-/

namespace MonkeyLang

/-! ## One node -/

/-- The word that stands for an expression; a call is known by its bracket. -/
def Expr.leading : Expr → String
  | .ident name => name
  | .int value => decimal value
  | .bool value => truthText value
  | .prefixOp op _ => op.symbol
  | .infixOp op _ _ => op.symbol
  | .cond _ _ _ => "if"
  | .fn _ _ => "fn"
  | .call _ _ => "("

/-- The word that stands for a block. -/
def blockLeading : String :=
  "\x7b"

def Stmt.leading : Stmt → String
  | .bind _ _ => "let"
  | .ret _ => "return"
  | .expr value => value.leading
  | .block _ => blockLeading

/-- A program starts with its first statement's word, and an empty one with nothing. -/
def Program.leading (p : Program) : String :=
  match p.statements with
  | [] => ""
  | s :: _ => s.leading

/-! ## All nodes, parents first

A name node stands inside an identifier expression, so such an expression lists its name twice.
A block lists its bracket before its statements, and a block statement lists it once more. -/

mutual

def Expr.leadings : Expr → List String
  | .ident name => [name, name]
  | .int value => [decimal value]
  | .bool value => [truthText value]
  | .prefixOp op right => op.symbol :: right.leadings
  | .infixOp op left right => op.symbol :: (left.leadings ++ right.leadings)
  | .cond condition consequence none =>
      "if" :: (condition.leadings ++ blockLeading :: Stmt.leadingsList consequence)
  | .cond condition consequence (some alternative) =>
      "if" :: (condition.leadings ++ blockLeading :: Stmt.leadingsList consequence
        ++ blockLeading :: Stmt.leadingsList alternative)
  | .fn parameters body => "fn" :: (parameters ++ blockLeading :: Stmt.leadingsList body)
  | .call callee arguments => "(" :: (callee.leadings ++ Expr.leadingsList arguments)

def Expr.leadingsList : List Expr → List String
  | [] => []
  | e :: es => e.leadings ++ Expr.leadingsList es

def Stmt.leadings : Stmt → List String
  | .bind name value => "let" :: name :: value.leadings
  | .ret (some value) => "return" :: value.leadings
  | .ret none => ["return"]
  | .expr value => value.leading :: value.leadings
  | .block body => blockLeading :: blockLeading :: Stmt.leadingsList body

def Stmt.leadingsList : List Stmt → List String
  | [] => []
  | s :: ss => s.leadings ++ Stmt.leadingsList ss

end

/-- The leading words of a program: its own, and then those of its statements. -/
def Program.leadings (p : Program) : List String :=
  p.leading :: Stmt.leadingsList p.statements

end MonkeyLang
