import MonkeyLang.Eval.Basic
import MonkeyLang.Grammar.Program

/-!
# Program — running whole programs

Programs and single expressions are run in a scope of a store.  A `return` that no call stops
ends the program, and its value is the result.  `run` does everything for a source text: it reads
the text and evaluates it in a store of its own, unless there are syntax errors.
-/

namespace MonkeyLang

/-! ## In a scope -/

/-- What a program comes to, and the store it leaves.  Nothing if `fuel` nested steps are not
enough. -/
abbrev Outcome :=
  Option (Except EvalError Value × Store)

/-- The end of a run that no call is waiting for: a `return` has become a value already or
becomes one here. -/
def Completion.result : Completion Value → Except EvalError Value
  | .value v => .ok v
  | .returned v => .ok v
  | .failed e => .error e

def Run.outcome (m : Run Value) (σ : Store) : Outcome :=
  (m σ).map fun (c, σ') => (c.result, σ')

/-- Evaluate a program in the scope `s`; an empty program comes to null. -/
def eval (fuel : Nat) (p : Program) (s : ScopeId) (σ : Store) : Outcome :=
  (evalStmts fuel s .null p.statements).outcome σ

/-- An evaluator that is kept on one scope. -/
structure Interpreter where
  scope : ScopeId

/-- Evaluate a program in the scope of the interpreter. -/
def Interpreter.interpret (i : Interpreter) (fuel : Nat) (p : Program) (σ : Store) : Outcome :=
  eval fuel p i.scope σ

/-- Evaluate a single expression in the scope of the interpreter; a `return` inside it becomes
its value. -/
def Interpreter.evaluate (i : Interpreter) (fuel : Nat) (e : Expr) (σ : Store) : Outcome :=
  (evalExpr fuel i.scope e).outcome σ

/-! ## From source text -/

/-- Why a source text has no value. -/
inductive RunError
  | parse (errors : List SyntaxError)
  | eval (error : EvalError)

/-- Texts with a semicolon and a blank between them. -/
def semicolonSeparated : List String → String
  | [] => ""
  | [s] => s
  | s :: ss => s ++ "; " ++ semicolonSeparated ss

def RunError.message : RunError → String
  | .parse errors =>
      Nat.repr errors.length ++ " parse error(s): "
        ++ semicolonSeparated (errors.map SyntaxError.message)
  | .eval error => error.message

/-- Evaluate a program in a new scope of a new store. -/
def evalFresh (fuel : Nat) (p : Program) : Option (Except EvalError Value) :=
  let (s, σ) := Store.fresh
  (eval fuel p s σ).map Prod.fst

/-- Read a source text and evaluate it on its own.  With any syntax error nothing is
evaluated. -/
def run (fuel : Nat) (source : String) : Option (Except RunError Value) :=
  match parse? source with
  | .error errors => some (.error (.parse errors))
  | .ok p => (evalFresh fuel p).map fun result => result.mapError RunError.eval

/-- A bound on nested steps that no evaluation reaches before the memory of any machine is used
up: steps nest no deeper than calls, trees and statement lists together. -/
def ampleFuel : Nat :=
  1000000000000

end MonkeyLang
