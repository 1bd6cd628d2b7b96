import MonkeyLang.Eval.Operator
import MonkeyLang.Eval.Run

/-!
# Eval — evaluating syntax trees

Expressions and statements are evaluated in a scope, from left to right.  Every evaluation is
granted a number of nested steps (`fuel`); an evaluation that ends does so in the same way
whatever it was granted beyond what it needed.

Blocks do not open scopes; only calls do.  The scope of a call is enclosed by the scope that the
function was made in, never by the scope of its caller.
-/

namespace MonkeyLang

mutual

def evalExpr : Nat → ScopeId → Expr → Run Value
  | 0, _, _ => .exhausted
  | fuel + 1, s, e =>
      match e with
      | .ident name => .lookUp s name
      | .int n => .pure (.integer n)
      | .bool b => .pure (.boolean b)
      | .prefixOp op right => do
          let v ← evalExpr fuel s right
          .ofExcept (op.apply v)
      | .infixOp op left right => do
          let v ← evalExpr fuel s left
          let w ← evalExpr fuel s right
          .ofExcept (op.apply v w)
      | .cond condition consequence alternative => do
          let v ← evalExpr fuel s condition
          if v.truthy then evalStmts fuel s .null consequence
          else
            match alternative with
            | some body => evalStmts fuel s .null body
            | none => .pure .null
      | .fn parameters body => .close s parameters body
      | .call callee arguments => do
          let f ← evalExpr fuel s callee
          let vs ← evalExprs fuel s arguments
          applyValue fuel f vs

/-- The values of expressions in order. -/
def evalExprs : Nat → ScopeId → List Expr → Run (List Value)
  | 0, _, _ => .exhausted
  | _ + 1, _, [] => .pure []
  | fuel + 1, s, e :: es => do
      let v ← evalExpr fuel s e
      let vs ← evalExprs fuel s es
      .pure (v :: vs)

/-- Call a value: it has to be a function, and the arguments as many as its parameters.  The
body runs in a new scope, and a `return` in it ends the call only. -/
def applyValue : Nat → Value → List Value → Run Value
  | 0, _, _ => .exhausted
  | fuel + 1, .function c, vs =>
      if vs.length = c.parameters.length then do
        let s ← Run.openScope c.scope (rebindAll [] (c.parameters.zip vs))
        Run.settle (evalStmts fuel s .null c.body)
      else .fail (.wrongArgumentCount c.parameters.length vs.length)
  | _ + 1, v, _ => .fail (.notAFunction v.type)

def evalStmt : Nat → ScopeId → Stmt → Run Value
  | 0, _, _ => .exhausted
  | fuel + 1, s, stmt =>
      match stmt with
      | .bind name e => do
          let v ← evalExpr fuel s e
          Run.define s name v
      | .ret none => .leave .null
      | .ret (some e) => do
          let v ← evalExpr fuel s e
          .leave v
      | .expr e => evalExpr fuel s e
      | .block body => evalStmts fuel s .null body

/-- Statements in order.  The value is that of the last one, and `last` if there is none. -/
def evalStmts : Nat → ScopeId → Value → List Stmt → Run Value
  | 0, _, _, _ => .exhausted
  | _ + 1, _, last, [] => .pure last
  | fuel + 1, s, _, stmt :: stmts => do
      let v ← evalStmt fuel s stmt
      evalStmts fuel s v stmts

end

end MonkeyLang
