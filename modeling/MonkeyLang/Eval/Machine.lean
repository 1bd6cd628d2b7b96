import MonkeyLang.Eval.Program

/-!
# Machine — evaluating with a scope in effect

A machine holds a store and the scope that is in effect.  Names are looked up and bound in that
scope, and function literals capture it.  A call puts a new scope into effect while the body of the
function runs, and then the scope of its caller again, whichever way the body ended.

A machine is kept from one program to the next: `interpret` and `evaluate` give back the machine
that they leave.
-/

namespace MonkeyLang

structure Machine where
  scope : ScopeId
  store : Store

namespace Machine

/-! ## Work -/

/-- A computation on a machine; nothing if it was not granted enough steps. -/
def Work (α : Type) :=
  Machine → Option (Completion α × Machine)

namespace Work

variable {α β : Type}

@[inline]
def pure (a : α) : Work α :=
  fun k => some (.value a, k)

/-- One piece of work and then, if it ended with a value, another one on the machine it left. -/
@[inline]
def bind (m : Work α) (f : α → Work β) : Work β :=
  fun k =>
    match m k with
    | none => none
    | some (.value a, k') => f a k'
    | some (.returned v, k') => some (.returned v, k')
    | some (.failed e, k') => some (.failed e, k')

@[always_inline]
instance : Monad Work where
  pure := pure
  bind := bind

def exhausted : Work α :=
  fun _ => none

/-- A run in the scope that is in effect. -/
@[inline]
def here (m : ScopeId → Run α) : Work α :=
  fun k => (m k.scope k.store).map fun (c, σ) => (c, { k with store := σ })

/-- Work with another scope in effect.  Whichever way it ends, the scope that was in effect before
is so again. -/
def during (s : ScopeId) (m : Work α) : Work α :=
  fun k => (m { k with scope := s }).map fun (c, k') => (c, { k' with scope := k.scope })

/-- Turn a `return` into the value of the work; failures pass. -/
def settle (m : Work Value) : Work Value :=
  fun k =>
    match m k with
    | some (.returned v, k') => some (.value v, k')
    | other => other

end Work

/-! ## Evaluation -/

mutual

def evalExpr : Nat → Expr → Work Value
  | 0, _ => .exhausted
  | fuel + 1, e =>
      match e with
      | .ident name => .here fun s => .lookUp s name
      | .int n => .pure (.integer n)
      | .bool b => .pure (.boolean b)
      | .prefixOp op right => do
          let v ← evalExpr fuel right
          .here fun _ => .ofExcept (op.apply v)
      | .infixOp op left right => do
          let v ← evalExpr fuel left
          let w ← evalExpr fuel right
          .here fun _ => .ofExcept (op.apply v w)
      | .cond condition consequence alternative => do
          let v ← evalExpr fuel condition
          if v.truthy then evalStmts fuel .null consequence
          else
            match alternative with
            | some body => evalStmts fuel .null body
            | none => .pure .null
      | .fn parameters body => .here fun s => .close s parameters body
      | .call callee arguments => do
          let f ← evalExpr fuel callee
          let vs ← evalExprs fuel arguments
          applyValue fuel f vs

def evalExprs : Nat → List Expr → Work (List Value)
  | 0, _ => .exhausted
  | _ + 1, [] => .pure []
  | fuel + 1, e :: es => do
      let v ← evalExpr fuel e
      let vs ← evalExprs fuel es
      .pure (v :: vs)

def applyValue : Nat → Value → List Value → Work Value
  | 0, _, _ => .exhausted
  | fuel + 1, .function c, vs =>
      if vs.length = c.parameters.length then do
        let s ← Work.here fun _ => Run.openScope c.scope (rebindAll [] (c.parameters.zip vs))
        Work.settle (Work.during s (evalStmts fuel .null c.body))
      else .here fun _ => .fail (.wrongArgumentCount c.parameters.length vs.length)
  | _ + 1, v, _ => .here fun _ => .fail (.notAFunction v.type)

def evalStmt : Nat → Stmt → Work Value
  | 0, _ => .exhausted
  | fuel + 1, stmt =>
      match stmt with
      | .bind name e => do
          let v ← evalExpr fuel e
          .here fun s => .define s name v
      | .ret none => .here fun _ => .leave .null
      | .ret (some e) => do
          let v ← evalExpr fuel e
          .here fun _ => .leave v
      | .expr e => evalExpr fuel e
      | .block body => evalStmts fuel .null body

def evalStmts : Nat → Value → List Stmt → Work Value
  | 0, _, _ => .exhausted
  | _ + 1, last, [] => .pure last
  | fuel + 1, _, stmt :: stmts => do
      let v ← evalStmt fuel stmt
      evalStmts fuel v stmts

end

/-! ## Programs and single expressions -/

/-- The result of work that no call is waiting for, and the machine it leaves. -/
def Work.result (m : Work Value) (k : Machine) : Option (Except EvalError Value × Machine) :=
  (m k).map fun (c, k') => (c.result, k')

/-- Evaluate a program in the scope in effect. -/
def interpret (fuel : Nat) (p : Program) (k : Machine) :
    Option (Except EvalError Value × Machine) :=
  (evalStmts fuel .null p.statements).result k

/-- Evaluate a single expression in the scope in effect; a `return` inside it becomes its value. -/
def evaluate (fuel : Nat) (e : Expr) (k : Machine) : Option (Except EvalError Value × Machine) :=
  (evalExpr fuel e).result k

end Machine
end MonkeyLang
