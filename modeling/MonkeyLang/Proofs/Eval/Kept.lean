import MonkeyLang.Eval.Fuel
import MonkeyLang.Eval.Machine

/-!
# Kept — a machine never loses its scope

Whatever a machine evaluates, and whichever way the evaluation ends, the scope that was in effect
before is in effect behind it, and the evaluation is the one that `evalExpr`, `evalStmts` and the
others carry out in that scope.  So programs and single expressions that are evaluated one after
the other on a machine that is kept come to the same results, and leave the same store, as if each
of them were evaluated on its own in that scope.

`Work.Follows` is what holds of every piece of work.  It is closed under sequencing, and a call
keeps it because the body is followed in the new scope.
-/

namespace MonkeyLang
namespace Machine

/-! ## Work in a scope -/

namespace Work

variable {α β : Type}

/-- The work on a machine is the run in the scope that is in effect, which is so behind it too. -/
def Follows (m : Work α) (r : ScopeId → Run α) : Prop :=
  ∀ s σ, m ⟨s, σ⟩ = (r s σ).map fun (c, τ) => (c, ⟨s, τ⟩)

namespace Follows

theorem exhausted : Follows (Work.exhausted : Work α) fun _ => Run.exhausted :=
  fun _ _ => rfl

theorem pure (a : α) : Follows (Work.pure a) fun _ => Run.pure a :=
  fun _ _ => rfl

theorem here (r : ScopeId → Run α) : Follows (Work.here r) r :=
  fun _ _ => rfl

theorem bind {m : Work α} {r : ScopeId → Run α} {f : α → Work β} {g : ScopeId → α → Run β}
    (hm : Follows m r) (hf : ∀ a, Follows (f a) fun s => g s a) :
    Follows (m >>= f) fun s => r s >>= g s := by
  intro s σ
  change Work.bind m f ⟨s, σ⟩ = (Run.bind (r s) (g s) σ).map _
  unfold Work.bind Run.bind
  rw [hm s σ]
  cases r s σ with
  | none => rfl
  | some end_ =>
      obtain ⟨c, τ⟩ := end_
      cases c with
      | value a => exact hf a s τ
      | returned v => rfl
      | failed e => rfl

theorem settle {m : Work Value} {r : ScopeId → Run Value} (hm : Follows m r) :
    Follows (Work.settle m) fun s => Run.settle (r s) := by
  intro s σ
  change Work.settle m ⟨s, σ⟩ = (Run.settle (r s) σ).map _
  unfold Work.settle Run.settle
  rw [hm s σ]
  cases r s σ with
  | none => rfl
  | some end_ =>
      obtain ⟨c, τ⟩ := end_
      cases c <;> rfl

/-- With another scope in effect the work follows the run in that scope, and what is in effect
behind it is the scope from before. -/
theorem during {m : Work α} {r : ScopeId → Run α} (hm : Follows m r) (t : ScopeId) :
    Follows (Work.during t m) fun _ => r t := by
  intro s σ
  change Work.during t m ⟨s, σ⟩ = (r t σ).map _
  unfold Work.during
  rw [hm t σ]
  cases r t σ with
  | none => rfl
  | some end_ => rfl

end Follows
end Work

/-! ## Every evaluation -/

/-- With `fuel` nested steps the machine follows the evaluation in a scope. -/
structure FollowsAt (fuel : Nat) : Prop where
  expr : ∀ e, (evalExpr fuel e).Follows fun s => MonkeyLang.evalExpr fuel s e
  exprs : ∀ es, (evalExprs fuel es).Follows fun s => MonkeyLang.evalExprs fuel s es
  apply : ∀ f vs, (applyValue fuel f vs).Follows fun _ => MonkeyLang.applyValue fuel f vs
  stmt : ∀ st, (evalStmt fuel st).Follows fun s => MonkeyLang.evalStmt fuel s st
  stmts : ∀ v ss, (evalStmts fuel v ss).Follows fun s => MonkeyLang.evalStmts fuel s v ss

namespace FollowsAt

variable {fuel : Nat}

/-- Without any step nothing ends on either side. -/
theorem zero : FollowsAt 0 where
  expr e := by
    simp only [evalExpr, MonkeyLang.evalExpr]
    exact .exhausted
  exprs es := by
    simp only [evalExprs, MonkeyLang.evalExprs]
    exact .exhausted
  apply f vs := by
    simp only [applyValue, MonkeyLang.applyValue]
    exact .exhausted
  stmt st := by
    simp only [evalStmt, MonkeyLang.evalStmt]
    exact .exhausted
  stmts v ss := by
    simp only [evalStmts, MonkeyLang.evalStmts]
    exact .exhausted

theorem expr_succ (h : FollowsAt fuel) (e : Expr) :
    (evalExpr (fuel + 1) e).Follows fun s => MonkeyLang.evalExpr (fuel + 1) s e := by
  cases e with
  | ident name =>
      simp only [evalExpr, MonkeyLang.evalExpr]
      exact .here _
  | int n =>
      simp only [evalExpr, MonkeyLang.evalExpr]
      exact .pure _
  | bool b =>
      simp only [evalExpr, MonkeyLang.evalExpr]
      exact .pure _
  | prefixOp op right =>
      simp only [evalExpr, MonkeyLang.evalExpr]
      exact (h.expr right).bind fun v => .here _
  | infixOp op left right =>
      simp only [evalExpr, MonkeyLang.evalExpr]
      exact (h.expr left).bind fun v => (h.expr right).bind fun w => .here _
  | cond condition consequence alternative =>
      cases alternative with
      | none =>
          simp only [evalExpr, MonkeyLang.evalExpr]
          refine (h.expr condition).bind fun v => ?_
          split
          · exact h.stmts .null consequence
          · exact .pure _
      | some body =>
          simp only [evalExpr, MonkeyLang.evalExpr]
          refine (h.expr condition).bind fun v => ?_
          split
          · exact h.stmts .null consequence
          · exact h.stmts .null body
  | fn parameters body =>
      simp only [evalExpr, MonkeyLang.evalExpr]
      exact .here _
  | call callee arguments =>
      simp only [evalExpr, MonkeyLang.evalExpr]
      exact (h.expr callee).bind fun f => (h.exprs arguments).bind fun vs => h.apply f vs

theorem exprs_succ (h : FollowsAt fuel) (es : List Expr) :
    (evalExprs (fuel + 1) es).Follows fun s => MonkeyLang.evalExprs (fuel + 1) s es := by
  cases es with
  | nil =>
      simp only [evalExprs, MonkeyLang.evalExprs]
      exact .pure _
  | cons e es =>
      simp only [evalExprs, MonkeyLang.evalExprs]
      exact (h.expr e).bind fun v => (h.exprs es).bind fun vs => .pure _

theorem apply_succ (h : FollowsAt fuel) (f : Value) (vs : List Value) :
    (applyValue (fuel + 1) f vs).Follows fun _ => MonkeyLang.applyValue (fuel + 1) f vs := by
  cases f with
  | function c =>
      simp only [applyValue, MonkeyLang.applyValue]
      split
      · -- the body runs with the new scope in effect, and not with that of the caller
        refine Work.Follows.bind (.here _) fun t => ?_
        exact ((h.stmts .null c.body).during t).settle
      · exact .here _
  | integer n =>
      simp only [applyValue, MonkeyLang.applyValue]
      exact .here _
  | boolean b =>
      simp only [applyValue, MonkeyLang.applyValue]
      exact .here _
  | null =>
      simp only [applyValue, MonkeyLang.applyValue]
      exact .here _

theorem stmt_succ (h : FollowsAt fuel) (st : Stmt) :
    (evalStmt (fuel + 1) st).Follows fun s => MonkeyLang.evalStmt (fuel + 1) s st := by
  cases st with
  | bind name e =>
      simp only [evalStmt, MonkeyLang.evalStmt]
      exact (h.expr e).bind fun v => .here _
  | ret value =>
      cases value with
      | none =>
          simp only [evalStmt, MonkeyLang.evalStmt]
          exact .here _
      | some e =>
          simp only [evalStmt, MonkeyLang.evalStmt]
          exact (h.expr e).bind fun v => .here _
  | expr e =>
      simp only [evalStmt, MonkeyLang.evalStmt]
      exact h.expr e
  | block body =>
      simp only [evalStmt, MonkeyLang.evalStmt]
      exact h.stmts .null body

theorem stmts_succ (h : FollowsAt fuel) (v : Value) (ss : List Stmt) :
    (evalStmts (fuel + 1) v ss).Follows fun s => MonkeyLang.evalStmts (fuel + 1) s v ss := by
  cases ss with
  | nil =>
      simp only [evalStmts, MonkeyLang.evalStmts]
      exact .pure _
  | cons st ss =>
      simp only [evalStmts, MonkeyLang.evalStmts]
      exact (h.stmt st).bind fun w => h.stmts w ss

end FollowsAt

theorem followsAt (fuel : Nat) : FollowsAt fuel := by
  induction fuel with
  | zero => exact .zero
  | succ fuel ih => exact ⟨ih.expr_succ, ih.exprs_succ, ih.apply_succ, ih.stmt_succ, ih.stmts_succ⟩

/-! ## Programs and single expressions -/

theorem Work.Follows.result {m : Work Value} {r : ScopeId → Run Value} (h : m.Follows r)
    (s : ScopeId) (σ : Store) :
    m.result ⟨s, σ⟩ = ((r s).outcome σ).map fun (x, τ) => (x, ⟨s, τ⟩) := by
  unfold Work.result Run.outcome
  rw [h s σ, Option.map_map, Option.map_map]
  rfl

theorem interpret_eq (fuel : Nat) (p : Program) (s : ScopeId) (σ : Store) :
    interpret fuel p ⟨s, σ⟩ = (eval fuel p s σ).map fun (x, τ) => (x, ⟨s, τ⟩) :=
  ((followsAt fuel).stmts .null p.statements).result s σ

theorem interpret_eq_some_iff {fuel : Nat} {p : Program} {s : ScopeId} {σ τ : Store}
    {r : Except EvalError Value} :
    interpret fuel p ⟨s, σ⟩ = some (r, ⟨s, τ⟩) ↔ eval fuel p s σ = some (r, τ) := by
  rw [interpret_eq]
  constructor
  · intro h
    rcases Option.map_eq_some_iff.1 h with ⟨end_, hEval, hEnd⟩
    cases hEnd
    exact hEval
  · intro h
    exact Option.map_eq_some_iff.2 ⟨(r, τ), h, rfl⟩

theorem evaluate_eq (fuel : Nat) (e : Expr) (s : ScopeId) (σ : Store) :
    evaluate fuel e ⟨s, σ⟩ =
      ((Interpreter.mk s).evaluate fuel e σ).map fun (x, τ) => (x, ⟨s, τ⟩) :=
  ((followsAt fuel).expr e).result s σ

end Machine

/-! ## One expression as a program -/

/-- A single expression evaluates as it does as the only statement of a program. -/
theorem evalStmts_expr (fuel : Nat) (s : ScopeId) (e : Expr) :
    evalStmts (fuel + 2) s .null [.expr e] = evalExpr fuel s e := by
  funext σ
  simp only [evalStmts, evalStmt]
  change Run.bind (evalExpr fuel s e) Run.pure σ = evalExpr fuel s e σ
  unfold Run.bind
  cases evalExpr fuel s e σ with
  | none => rfl
  | some end_ =>
      obtain ⟨c, τ⟩ := end_
      cases c <;> rfl

theorem eval_expr (fuel : Nat) (s : ScopeId) (e : Expr) :
    eval (fuel + 2) ⟨[.expr e]⟩ s = (Interpreter.mk s).evaluate fuel e := by
  funext σ
  unfold eval Interpreter.evaluate
  rw [evalStmts_expr]

/-! ## One after the other -/

/-- What a machine is given to evaluate. -/
inductive Job
  | program (p : Program)
  | expression (e : Expr)

namespace Job

/-- Evaluate on a machine, which is left to the next job. -/
def perform (fuel : Nat) : Job → Machine → Option (Except EvalError Value × Machine)
  | program p => Machine.interpret fuel p
  | expression e => Machine.evaluate fuel e

/-- The job as a program, which is an expression statement if it is a single expression. -/
def asProgram : Job → Program
  | program p => p
  | expression e => ⟨[.expr e]⟩

/-- Perform jobs in order on one machine; a failure does not keep it from the next job. -/
def performAll (fuel : Nat) :
    List Job → Machine → Option (List (Except EvalError Value) × Machine)
  | [], k => some ([], k)
  | j :: js, k =>
      match j.perform fuel k with
      | none => none
      | some (r, k') => (performAll fuel js k').map fun (rs, k'') => (r :: rs, k'')

/-- Evaluate jobs in order, each as a program on its own in the scope `s`. -/
def evalAll (fuel : Nat) (s : ScopeId) :
    List Job → Store → Option (List (Except EvalError Value) × Store)
  | [], σ => some ([], σ)
  | j :: js, σ =>
      match eval fuel j.asProgram s σ with
      | none => none
      | some (r, σ') => (evalAll fuel s js σ').map fun (rs, σ'') => (r :: rs, σ'')

variable {fuel : Nat} {s : ScopeId} {σ : Store}

/-- What a machine comes to, its job comes to as a program, and the scope of the machine is in
effect again. -/
theorem eval_of_perform {j : Job} {r : Except EvalError Value} {k : Machine}
    (h : j.perform fuel ⟨s, σ⟩ = some (r, k)) :
    k.scope = s ∧ eval (fuel + 2) j.asProgram s σ = some (r, k.store) := by
  cases j with
  | program p =>
      have hInterpret : Machine.interpret fuel p ⟨s, σ⟩ = some (r, k) := h
      rw [Machine.interpret_eq] at hInterpret
      rcases Option.map_eq_some_iff.1 hInterpret with ⟨end_, hEval, hEnd⟩
      cases hEnd
      exact ⟨rfl, eval_of_le (Nat.le_add_right fuel 2) hEval⟩
  | expression e =>
      have hEvaluate : Machine.evaluate fuel e ⟨s, σ⟩ = some (r, k) := h
      rw [Machine.evaluate_eq, ← eval_expr] at hEvaluate
      rcases Option.map_eq_some_iff.1 hEvaluate with ⟨end_, hEval, hEnd⟩
      cases hEnd
      exact ⟨rfl, hEval⟩

theorem perform_of_eval {j : Job} {r : Except EvalError Value} {τ : Store}
    (h : eval fuel j.asProgram s σ = some (r, τ)) : j.perform fuel ⟨s, σ⟩ = some (r, ⟨s, τ⟩) := by
  cases j with
  | program p => exact Machine.interpret_eq_some_iff.2 h
  | expression e =>
      -- two more steps lead to the expression of the program
      have hMore : eval (fuel + 2) ⟨[.expr e]⟩ s σ = some (r, τ) :=
        eval_of_le (Nat.le_add_right fuel 2) h
      rw [eval_expr] at hMore
      change Machine.evaluate fuel e ⟨s, σ⟩ = _
      rw [Machine.evaluate_eq]
      exact Option.map_eq_some_iff.2 ⟨(r, τ), hMore, rfl⟩

theorem evalAll_of_performAll {js : List Job} {rs : List (Except EvalError Value)} {k : Machine}
    (h : performAll fuel js ⟨s, σ⟩ = some (rs, k)) :
    k.scope = s ∧ evalAll (fuel + 2) s js σ = some (rs, k.store) := by
  induction js generalizing rs σ with
  | nil =>
      cases h
      exact ⟨rfl, rfl⟩
  | cons j js ih =>
      rw [performAll] at h
      cases hFirst : j.perform fuel ⟨s, σ⟩ with
      | none => simp [hFirst] at h
      | some end_ =>
          obtain ⟨r, t, τ⟩ := end_
          -- the scope that the first job left in effect is the one that it was given
          obtain ⟨rfl, hEval⟩ := eval_of_perform hFirst
          rw [hFirst] at h
          rcases Option.map_eq_some_iff.1 h with ⟨⟨rs', k'⟩, hRest, hEnd⟩
          cases hEnd
          rcases ih hRest with ⟨hScope, hEvalRest⟩
          refine ⟨hScope, ?_⟩
          rw [evalAll, hEval]
          exact Option.map_eq_some_iff.2 ⟨(rs', k.store), hEvalRest, rfl⟩

theorem performAll_of_evalAll {js : List Job} {rs : List (Except EvalError Value)} {τ : Store}
    (h : evalAll fuel s js σ = some (rs, τ)) :
    performAll fuel js ⟨s, σ⟩ = some (rs, ⟨s, τ⟩) := by
  induction js generalizing rs σ with
  | nil =>
      cases h
      rfl
  | cons j js ih =>
      rw [evalAll] at h
      cases hFirst : eval fuel j.asProgram s σ with
      | none => simp [hFirst] at h
      | some end_ =>
          obtain ⟨r, υ⟩ := end_
          rw [hFirst] at h
          rcases Option.map_eq_some_iff.1 h with ⟨⟨rs', τ'⟩, hRest, hEnd⟩
          cases hEnd
          rw [performAll, perform_of_eval hFirst]
          exact Option.map_eq_some_iff.2 ⟨(rs', ⟨s, τ⟩), ih hRest, rfl⟩

/-- Programs and single expressions that are evaluated in order on one machine come to the
results, and leave the store, that they come to and leave if each is evaluated on its own in the
scope that the machine began with; and the machine has that scope in effect in the end. -/
theorem performAll_iff_evalAll (js : List Job) (s t : ScopeId) (σ τ : Store)
    (rs : List (Except EvalError Value)) :
    (∃ fuel, performAll fuel js ⟨s, σ⟩ = some (rs, ⟨t, τ⟩)) ↔
      t = s ∧ ∃ fuel, evalAll fuel s js σ = some (rs, τ) := by
  constructor
  · rintro ⟨fuel, h⟩
    rcases evalAll_of_performAll h with ⟨hScope, hEval⟩
    exact ⟨hScope, fuel + 2, hEval⟩
  · rintro ⟨rfl, fuel, h⟩
    exact ⟨fuel, performAll_of_evalAll h⟩

/-- A failure in the body of a call, and the binding that is made next. -/
example :
    performAll 9
        [program ⟨[.bind "f" (.fn [] [.expr (.ident "a")]), .expr (.call (.ident "f") [])]⟩,
          program ⟨[.bind "b" (.int 1)]⟩, expression (.ident "b")] ⟨0, Store.fresh.2⟩ =
      some ([.error (.identifierNotFound "a"), .ok (.integer 1), .ok (.integer 1)],
        ⟨0, ⟨#[⟨none, [("f", .function ⟨0, [], [.expr (.ident "a")], 0⟩), ("b", .integer 1)]⟩,
          ⟨some 0, []⟩], 1⟩⟩) := by
  with_unfolding_all rfl

end Job
end MonkeyLang
