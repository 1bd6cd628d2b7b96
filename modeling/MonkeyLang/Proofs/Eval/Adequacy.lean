import MonkeyLang.Proofs.Eval.Kept
import MonkeyLang.Proofs.Eval.Semantics

/-!
# Adequacy — the evaluator follows the rules

Granted enough steps, evaluation completes exactly in the ways that the rules of `BigStep` derive.
From the rules to the evaluator the proof goes by the derivation: every rule is an evaluation that
ends, if those of its premises end.  From the evaluator to the rules it goes by the steps granted.

How many steps are granted makes no difference as soon as they suffice.
-/

namespace MonkeyLang

/-- What is left of a completion when a call ends. -/
def Completion.settled : Completion Value → Completion Value
  | .value v => .value v
  | .returned v => .value v
  | .failed e => .failed e

namespace Run

variable {α β : Type} {σ τ υ : Store}

/-! ## Ends -/

/-- Granted enough steps, the run completes with `c` and leaves `τ`. -/
def Ends (m : Nat → Run α) (σ : Store) (c : Completion α) (τ : Store) : Prop :=
  ∃ n, ∀ k, n ≤ k → m k σ = some (c, τ)

/-- More steps change no end, so one that is reached with some number of steps is reached with all
greater ones. -/
theorem ends_iff {m : Nat → Run α} (hMore : ∀ n k, n ≤ k → (m n).Refines (m k))
    {c : Completion α} : Ends m σ c τ ↔ ∃ n, m n σ = some (c, τ) := by
  constructor
  · rintro ⟨n, h⟩
    exact ⟨n, h n (Nat.le_refl n)⟩
  · rintro ⟨n, h⟩
    exact ⟨n, fun k hk => hMore n k hk σ _ h⟩

theorem ofExcept_eq (r : Except EvalError α) (σ : Store) :
    Run.ofExcept r σ = some (.ofExcept r, σ) := by
  cases r <;> rfl

namespace Ends

theorem of_eq {m : Run α} {c : Completion α} (h : m σ = some (c, τ)) :
    Ends (fun _ => m) σ c τ :=
  ⟨0, fun _ _ => h⟩

theorem of_succ {m : Nat → Run α} {c : Completion α} (h : Ends (fun n => m (n + 1)) σ c τ) :
    Ends m σ c τ := by
  rcases h with ⟨n, h⟩
  refine ⟨n + 1, fun k hk => ?_⟩
  cases k with
  | zero => cases hk
  | succ k => exact h k (Nat.le_of_succ_le_succ hk)

theorem bind {m : Nat → Run α} {f : Nat → α → Run β} {a : α} {c : Completion β}
    (hm : Ends m σ (.value a) τ) (hf : Ends (fun n => f n a) τ c υ) :
    Ends (fun n => m n >>= f n) σ c υ := by
  rcases hm with ⟨n, hm⟩
  rcases hf with ⟨n', hf⟩
  refine ⟨max n n', fun k hk => ?_⟩
  have hFirst := hm k (Nat.le_trans (Nat.le_max_left n n') hk)
  have hSecond := hf k (Nat.le_trans (Nat.le_max_right n n') hk)
  change Run.bind (m k) (f k) σ = some (c, υ)
  simp only [Run.bind, hFirst, hSecond]

theorem bind_exit {m : Nat → Run α} {f : Nat → α → Run β} {x : Exit}
    (hm : Ends m σ x.completion τ) : Ends (fun n => m n >>= f n) σ x.completion τ := by
  rcases hm with ⟨n, hm⟩
  refine ⟨n, fun k hk => ?_⟩
  change Run.bind (m k) (f k) σ = some (x.completion, τ)
  cases x <;> simp only [Run.bind, hm k hk, Exit.completion]

theorem ofExcept (r : Except EvalError α) (σ : Store) :
    Ends (fun _ => Run.ofExcept r) σ (.ofExcept r) σ :=
  of_eq (ofExcept_eq r σ)

theorem settle {m : Nat → Run Value} {c : Completion Value} (hm : Ends m σ c τ) :
    Ends (fun n => Run.settle (m n)) σ c.settled τ := by
  rcases hm with ⟨n, hm⟩
  refine ⟨n, fun k hk => ?_⟩
  cases c <;> simp only [Run.settle, hm k hk, Completion.settled]

/-- A call ends if its body ends in the new scope. -/
theorem call {f : Closure} {vs : List Value} {s : ScopeId} {c : Completion Value}
    (hCount : vs.length = f.parameters.length)
    (hOpen : σ.openScope (some f.scope) [] = (s, τ))
    (hBody : Ends (fun n => evalStmts n s .null f.body)
      (τ.defineAll s (f.parameters.zip vs)) c υ) :
    Ends (fun n => applyValue n (.function f) vs) σ c.settled υ := by
  rcases Store.eq_of_openScope hOpen with ⟨rfl, rfl⟩
  rw [Store.defineAll_openScope] at hBody
  refine .of_succ ?_
  simp only [applyValue, if_pos hCount]
  exact Ends.bind (.of_eq rfl) hBody.settle

end Ends

/-- A sequence of two runs that ends has ended in the second one, or in an exit of the first. -/
theorem exists_of_bind {m : Run α} {f : α → Run β} {c : Completion β}
    (h : (m >>= f) σ = some (c, υ)) :
    (∃ a τ, m σ = some (.value a, τ) ∧ f a τ = some (c, υ)) ∨
      ∃ x : Exit, m σ = some (x.completion, υ) ∧ c = x.completion := by
  change Run.bind m f σ = some (c, υ) at h
  unfold Run.bind at h
  cases hFirst : m σ with
  | none => simp [hFirst] at h
  | some end_ =>
      obtain ⟨d, τ⟩ := end_
      rw [hFirst] at h
      cases d with
      | value a => exact .inl ⟨a, τ, rfl, h⟩
      | returned v =>
          cases h
          exact .inr ⟨.returned v, rfl, rfl⟩
      | failed e =>
          cases h
          exact .inr ⟨.failed e, rfl, rfl⟩

theorem exists_of_settle {m : Run Value} {c : Completion Value}
    (h : Run.settle m σ = some (c, τ)) : ∃ d, m σ = some (d, τ) ∧ c = d.settled := by
  unfold Run.settle at h
  cases hRun : m σ with
  | none => simp [hRun] at h
  | some end_ =>
      obtain ⟨d, υ⟩ := end_
      rw [hRun] at h
      cases d <;> cases h <;> exact ⟨_, rfl, rfl⟩

end Run

/-- A conditional, whether or not it has a second branch. -/
theorem evalExpr_cond (fuel : Nat) (s : ScopeId) (condition : Expr) (yes : List Stmt)
    (no : Option (List Stmt)) :
    evalExpr (fuel + 1) s (.cond condition yes no) =
      evalExpr fuel s condition >>= fun v =>
        if v.truthy then evalStmts fuel s .null yes
        else
          match no with
          | some body => evalStmts fuel s .null body
          | none => .pure .null := by
  cases no <;> simp only [evalExpr]

/-- Behind the last statement its value comes out. -/
theorem eq_of_evalStmts_nil {fuel : Nat} {s : ScopeId} {v : Value} {σ τ : Store}
    {c : Completion Value} (h : evalStmts fuel s v [] σ = some (c, τ)) :
    c = .value v ∧ τ = σ := by
  cases fuel with
  | zero =>
      rw [evalStmts] at h
      cases h
  | succ fuel =>
      simp only [evalStmts] at h
      cases h
      exact ⟨rfl, rfl⟩

namespace BigStep

open Run (Ends)

/-! ## From the rules to the evaluator -/

mutual

theorem Evaluates.ends : ∀ {s : ScopeId} {σ : Store} {e : Expr} {c : Completion Value} {τ : Store},
    Evaluates s σ e c τ → Ends (fun n => evalExpr n s e) σ c τ
  | _, _, _, _, _, .ident hSees => by
      refine .of_succ ?_
      simp only [evalExpr]
      refine .of_eq ?_
      simp only [Run.lookUp, Store.get?_eq_some_iff.2 hSees]
  | _, _, _, _, _, .unbound hUnseen => by
      refine .of_succ ?_
      simp only [evalExpr]
      refine .of_eq ?_
      simp only [Run.lookUp, Store.get?_eq_none_iff.2 hUnseen]
  | _, _, _, _, _, .int n => by
      refine .of_succ ?_
      simp only [evalExpr]
      exact .of_eq rfl
  | _, _, _, _, _, .bool b => by
      refine .of_succ ?_
      simp only [evalExpr]
      exact .of_eq rfl
  | _, _, _, _, _, .fn hClose => by
      refine .of_succ ?_
      simp only [evalExpr]
      refine .of_eq ?_
      simp only [Run.close, hClose]
  | _, _, _, _, _, .prefixOp hRight hOp => by
      refine .of_succ ?_
      simp only [evalExpr]
      rw [← PrefixOp.gives_iff.1 hOp]
      exact hRight.ends.bind (.ofExcept _ _)
  | _, _, _, _, _, .prefixExit hRight => by
      refine .of_succ ?_
      simp only [evalExpr]
      exact hRight.ends.bind_exit
  | _, _, _, _, _, .infixOp hLeft hRight hOp => by
      refine .of_succ ?_
      simp only [evalExpr]
      rw [← InfixOp.gives_iff.1 hOp]
      exact hLeft.ends.bind (hRight.ends.bind (.ofExcept _ _))
  | _, _, _, _, _, .leftExit hLeft => by
      refine .of_succ ?_
      simp only [evalExpr]
      exact hLeft.ends.bind_exit
  | _, _, _, _, _, .rightExit hLeft hRight => by
      refine .of_succ ?_
      simp only [evalExpr]
      exact hLeft.ends.bind hRight.ends.bind_exit
  | _, _, _, _, _, .consequence hCondition hTrue hYes => by
      refine .of_succ ?_
      simp only [evalExpr_cond]
      refine hCondition.ends.bind ?_
      simp only [Value.truthy_eq_true_iff.2 hTrue, if_true]
      exact hYes.ends .null fun _ => rfl
  | _, _, _, _, _, .alternative hCondition hFalse hNo => by
      refine .of_succ ?_
      simp only [evalExpr]
      refine hCondition.ends.bind ?_
      simp only [Value.truthy_eq_false_iff.2 hFalse, Bool.false_eq_true, if_false]
      exact hNo.ends .null fun _ => rfl
  | _, _, _, _, _, .noAlternative hCondition hFalse => by
      refine .of_succ ?_
      simp only [evalExpr]
      refine hCondition.ends.bind ?_
      simp only [Value.truthy_eq_false_iff.2 hFalse, Bool.false_eq_true, if_false]
      exact .of_eq rfl
  | _, _, _, _, _, .conditionExit hCondition => by
      refine .of_succ ?_
      simp only [evalExpr_cond]
      exact hCondition.ends.bind_exit
  | _, _, _, _, _, .call hCallee hArguments hCall => by
      refine .of_succ ?_
      simp only [evalExpr]
      exact hCallee.ends.bind (hArguments.ends.bind hCall.ends)
  | _, _, _, _, _, .calleeExit hCallee => by
      refine .of_succ ?_
      simp only [evalExpr]
      exact hCallee.ends.bind_exit
  | _, _, _, _, _, .argumentExit hCallee hArguments => by
      refine .of_succ ?_
      simp only [evalExpr]
      exact hCallee.ends.bind hArguments.ends.bind_exit

theorem EvaluatesAll.ends : ∀ {s : ScopeId} {σ : Store} {es : List Expr}
    {c : Completion (List Value)} {τ : Store}, EvaluatesAll s σ es c τ →
      Ends (fun n => evalExprs n s es) σ c τ
  | _, _, _, _, _, .nil => by
      refine .of_succ ?_
      simp only [evalExprs]
      exact .of_eq rfl
  | _, _, _, _, _, .cons hFirst hRest => by
      refine .of_succ ?_
      simp only [evalExprs]
      exact hFirst.ends.bind (hRest.ends.bind (.of_eq rfl))
  | _, _, _, _, _, .firstExit hFirst => by
      refine .of_succ ?_
      simp only [evalExprs]
      exact hFirst.ends.bind_exit
  | _, _, _, _, _, .restExit hFirst hRest => by
      refine .of_succ ?_
      simp only [evalExprs]
      exact hFirst.ends.bind hRest.ends.bind_exit

theorem Calls.ends : ∀ {σ : Store} {f : Value} {vs : List Value} {c : Completion Value} {τ : Store},
    Calls σ f vs c τ → Ends (fun n => applyValue n f vs) σ c τ
  | _, f, _, _, _, .noFunction hType => by
      refine .of_succ ?_
      cases f with
      | function f => exact absurd rfl hType
      | integer n =>
          simp only [applyValue]
          exact .of_eq rfl
      | boolean b =>
          simp only [applyValue]
          exact .of_eq rfl
      | null =>
          simp only [applyValue]
          exact .of_eq rfl
  | _, _, _, _, _, .argumentCount hCount => by
      refine .of_succ ?_
      simp only [applyValue, if_neg hCount]
      exact .of_eq rfl
  | _, _, _, _, _, .value hCount hOpen hBody => by
      exact .call hCount hOpen (hBody.ends .null fun _ => rfl)
  | _, _, _, _, _, .returned hCount hOpen hBody => by
      exact .call hCount hOpen (hBody.ends .null fun _ => rfl)
  | _, _, _, _, _, .failed hCount hOpen hBody => by
      exact .call hCount hOpen (hBody.ends .null fun _ => rfl)

theorem Executes.ends : ∀ {s : ScopeId} {σ : Store} {st : Stmt} {c : Completion Value} {τ : Store},
    Executes s σ st c τ → Ends (fun n => evalStmt n s st) σ c τ
  | _, _, _, _, _, .bind hValue => by
      refine .of_succ ?_
      simp only [evalStmt]
      exact hValue.ends.bind (.of_eq rfl)
  | _, _, _, _, _, .bindExit hValue => by
      refine .of_succ ?_
      simp only [evalStmt]
      exact hValue.ends.bind_exit
  | _, _, _, _, _, .ret => by
      refine .of_succ ?_
      simp only [evalStmt]
      exact .of_eq rfl
  | _, _, _, _, _, .retValue hValue => by
      refine .of_succ ?_
      simp only [evalStmt]
      exact hValue.ends.bind (.of_eq rfl)
  | _, _, _, _, _, .retExit hValue => by
      refine .of_succ ?_
      simp only [evalStmt]
      exact hValue.ends.bind_exit
  | _, _, _, _, _, .expr hValue => by
      refine .of_succ ?_
      simp only [evalStmt]
      exact hValue.ends
  | _, _, _, _, _, .block hBody => by
      refine .of_succ ?_
      simp only [evalStmt]
      exact hBody.ends .null fun _ => rfl

/-- What statements start from counts only if there are none. -/
theorem ExecutesAll.ends : ∀ {s : ScopeId} {σ : Store} {ss : List Stmt} {c : Completion Value}
    {τ : Store}, ExecutesAll s σ ss c τ → ∀ v : Value, (ss = [] → v = .null) →
      Ends (fun n => evalStmts n s v ss) σ c τ
  | _, _, _, _, _, .nil, v, hv => by
      refine .of_succ ?_
      simp only [evalStmts]
      rw [hv rfl]
      exact .of_eq rfl
  | _, _, _, _, _, .last hFirst, v, hv => by
      refine .of_succ ?_
      simp only [evalStmts]
      refine hFirst.ends.bind (.of_succ ?_)
      simp only [evalStmts]
      exact .of_eq rfl
  | _, _, _, _, _, .cons hFirst hRest, v, hv => by
      refine .of_succ ?_
      simp only [evalStmts]
      exact hFirst.ends.bind (hRest.ends _ nofun)
  | _, _, _, _, _, .exit hFirst, v, hv => by
      refine .of_succ ?_
      simp only [evalStmts]
      exact hFirst.ends.bind_exit

end

/-! ## From the evaluator to the rules -/

/-- What is reached with `fuel` nested steps follows the rules. -/
structure DerivesAt (fuel : Nat) : Prop where
  expr : ∀ s σ e c τ, evalExpr fuel s e σ = some (c, τ) → Evaluates s σ e c τ
  exprs : ∀ s σ es c τ, evalExprs fuel s es σ = some (c, τ) → EvaluatesAll s σ es c τ
  apply : ∀ σ f vs c τ, applyValue fuel f vs σ = some (c, τ) → Calls σ f vs c τ
  stmt : ∀ s σ st c τ, evalStmt fuel s st σ = some (c, τ) → Executes s σ st c τ
  stmts : ∀ s σ v ss c τ, evalStmts fuel s v ss σ = some (c, τ) → (ss = [] → v = .null) →
    ExecutesAll s σ ss c τ

namespace DerivesAt

variable {fuel : Nat}

/-- Without any step nothing is reached. -/
theorem zero : DerivesAt 0 where
  expr s σ e c τ h := by
    rw [evalExpr] at h
    cases h
  exprs s σ es c τ h := by
    rw [evalExprs] at h
    cases h
  apply σ f vs c τ h := by
    rw [applyValue] at h
    cases h
  stmt s σ st c τ h := by
    rw [evalStmt] at h
    cases h
  stmts s σ v ss c τ h := by
    rw [evalStmts] at h
    cases h

theorem expr_succ (ih : DerivesAt fuel) (s : ScopeId) (σ : Store) (e : Expr)
    (c : Completion Value) (τ : Store) (h : evalExpr (fuel + 1) s e σ = some (c, τ)) :
    Evaluates s σ e c τ := by
  cases e with
  | ident name =>
      simp only [evalExpr, Run.lookUp] at h
      split at h
      · next v hGet =>
          cases h
          exact .ident (Store.get?_eq_some_iff.1 hGet)
      · next hGet =>
          cases h
          exact .unbound (Store.get?_eq_none_iff.1 hGet)
  | int n =>
      simp only [evalExpr] at h
      cases h
      exact .int n
  | bool b =>
      simp only [evalExpr] at h
      cases h
      exact .bool b
  | prefixOp op right =>
      simp only [evalExpr] at h
      rcases Run.exists_of_bind h with ⟨v, υ, hRight, hOp⟩ | ⟨x, hRight, rfl⟩
      · rw [Run.ofExcept_eq] at hOp
        cases hOp
        exact .prefixOp (ih.expr s σ right _ _ hRight) (op.gives_apply v)
      · exact .prefixExit (ih.expr s σ right _ _ hRight)
  | infixOp op left right =>
      simp only [evalExpr] at h
      rcases Run.exists_of_bind h with ⟨v, υ, hLeft, h⟩ | ⟨x, hLeft, rfl⟩
      · have hLeft := ih.expr s σ left _ _ hLeft
        rcases Run.exists_of_bind h with ⟨w, ω, hRight, hOp⟩ | ⟨x, hRight, rfl⟩
        · rw [Run.ofExcept_eq] at hOp
          cases hOp
          exact .infixOp hLeft (ih.expr s υ right _ _ hRight) (op.gives_apply v w)
        · exact .rightExit hLeft (ih.expr s υ right _ _ hRight)
      · exact .leftExit (ih.expr s σ left _ _ hLeft)
  | cond condition yes no =>
      rw [evalExpr_cond] at h
      rcases Run.exists_of_bind h with ⟨v, υ, hCondition, h⟩ | ⟨x, hCondition, rfl⟩
      · have hCondition := ih.expr s σ condition _ _ hCondition
        split at h
        · next hv =>
            have hTrue := Value.truthy_eq_true_iff.1 hv
            exact .consequence hCondition hTrue (ih.stmts s υ .null yes _ _ h fun _ => rfl)
        · next hv =>
            have hFalse := Value.truthy_eq_false_iff.1 (Bool.not_eq_true _ ▸ hv)
            cases no with
            | some body =>
                exact .alternative hCondition hFalse (ih.stmts s υ .null body _ _ h fun _ => rfl)
            | none =>
                cases h
                exact .noAlternative hCondition hFalse
      · exact .conditionExit (ih.expr s σ condition _ _ hCondition)
  | fn parameters body =>
      simp only [evalExpr] at h
      cases h
      exact .fn rfl
  | call callee arguments =>
      simp only [evalExpr] at h
      rcases Run.exists_of_bind h with ⟨f, υ, hCallee, h⟩ | ⟨x, hCallee, rfl⟩
      · have hCallee := ih.expr s σ callee _ _ hCallee
        rcases Run.exists_of_bind h with ⟨vs, ω, hArguments, hCall⟩ | ⟨x, hArguments, rfl⟩
        · have hArguments := ih.exprs s υ arguments _ _ hArguments
          exact .call hCallee hArguments (ih.apply ω f vs _ _ hCall)
        · exact .argumentExit hCallee (ih.exprs s υ arguments _ _ hArguments)
      · exact .calleeExit (ih.expr s σ callee _ _ hCallee)

theorem exprs_succ (ih : DerivesAt fuel) (s : ScopeId) (σ : Store) (es : List Expr)
    (c : Completion (List Value)) (τ : Store) (h : evalExprs (fuel + 1) s es σ = some (c, τ)) :
    EvaluatesAll s σ es c τ := by
  cases es with
  | nil =>
      simp only [evalExprs] at h
      cases h
      exact .nil
  | cons e es =>
      simp only [evalExprs] at h
      rcases Run.exists_of_bind h with ⟨v, υ, hFirst, h⟩ | ⟨x, hFirst, rfl⟩
      · have hFirst := ih.expr s σ e _ _ hFirst
        rcases Run.exists_of_bind h with ⟨vs, ω, hRest, h⟩ | ⟨x, hRest, rfl⟩
        · cases h
          exact .cons hFirst (ih.exprs s υ es _ _ hRest)
        · exact .restExit hFirst (ih.exprs s υ es _ _ hRest)
      · exact .firstExit (ih.expr s σ e _ _ hFirst)

theorem apply_succ (ih : DerivesAt fuel) (σ : Store) (f : Value) (vs : List Value)
    (c : Completion Value) (τ : Store) (h : applyValue (fuel + 1) f vs σ = some (c, τ)) :
    Calls σ f vs c τ := by
  cases f with
  | function f =>
      simp only [applyValue] at h
      split at h
      · next hCount =>
          change Run.settle _ (σ.openScope (some f.scope) (rebindAll [] _)).2 = _ at h
          rcases Run.exists_of_settle h with ⟨d, hBody, rfl⟩
          rw [← Store.defineAll_openScope] at hBody
          have hBody := ih.stmts _ _ .null f.body _ _ hBody fun _ => rfl
          cases d with
          | value v => exact .value hCount rfl hBody
          | returned v => exact .returned hCount rfl hBody
          | failed e => exact .failed hCount rfl hBody
      · next hCount =>
          cases h
          exact .argumentCount hCount
  | integer n =>
      simp only [applyValue] at h
      cases h
      exact .noFunction nofun
  | boolean b =>
      simp only [applyValue] at h
      cases h
      exact .noFunction nofun
  | null =>
      simp only [applyValue] at h
      cases h
      exact .noFunction nofun

theorem stmt_succ (ih : DerivesAt fuel) (s : ScopeId) (σ : Store) (st : Stmt)
    (c : Completion Value) (τ : Store) (h : evalStmt (fuel + 1) s st σ = some (c, τ)) :
    Executes s σ st c τ := by
  cases st with
  | bind name e =>
      simp only [evalStmt] at h
      rcases Run.exists_of_bind h with ⟨v, υ, hValue, h⟩ | ⟨x, hValue, rfl⟩
      · cases h
        exact .bind (ih.expr s σ e _ _ hValue)
      · exact .bindExit (ih.expr s σ e _ _ hValue)
  | ret value =>
      cases value with
      | none =>
          simp only [evalStmt] at h
          cases h
          exact .ret
      | some e =>
          simp only [evalStmt] at h
          rcases Run.exists_of_bind h with ⟨v, υ, hValue, h⟩ | ⟨x, hValue, rfl⟩
          · cases h
            exact .retValue (ih.expr s σ e _ _ hValue)
          · exact .retExit (ih.expr s σ e _ _ hValue)
  | expr e =>
      simp only [evalStmt] at h
      exact .expr (ih.expr s σ e _ _ h)
  | block body =>
      simp only [evalStmt] at h
      exact .block (ih.stmts s σ .null body _ _ h fun _ => rfl)

theorem stmts_succ (ih : DerivesAt fuel) (s : ScopeId) (σ : Store) (v : Value) (ss : List Stmt)
    (c : Completion Value) (τ : Store) (h : evalStmts (fuel + 1) s v ss σ = some (c, τ))
    (hv : ss = [] → v = .null) : ExecutesAll s σ ss c τ := by
  cases ss with
  | nil =>
      simp only [evalStmts] at h
      cases h
      rw [hv rfl]
      exact .nil
  | cons st ss =>
      simp only [evalStmts] at h
      rcases Run.exists_of_bind h with ⟨w, υ, hFirst, hRest⟩ | ⟨x, hFirst, rfl⟩
      · have hFirst := ih.stmt s σ st _ _ hFirst
        cases ss with
        | nil =>
            -- the value of the last statement comes out at the end of the list
            rcases eq_of_evalStmts_nil hRest with ⟨rfl, rfl⟩
            exact .last hFirst
        | cons next ss => exact .cons hFirst (ih.stmts s υ w (next :: ss) _ _ hRest nofun)
      · exact .exit (ih.stmt s σ st _ _ hFirst)

end DerivesAt

theorem derivesAt (fuel : Nat) : DerivesAt fuel := by
  induction fuel with
  | zero => exact .zero
  | succ fuel ih => exact ⟨ih.expr_succ, ih.exprs_succ, ih.apply_succ, ih.stmt_succ, ih.stmts_succ⟩

/-! ## Both ways -/

section

variable {s : ScopeId} {σ τ : Store} {c : Completion Value}

theorem evaluates_iff {e : Expr} :
    Evaluates s σ e c τ ↔ Ends (fun n => evalExpr n s e) σ c τ :=
  ⟨Evaluates.ends, fun ⟨n, h⟩ => (derivesAt n).expr s σ e c τ (h n (Nat.le_refl n))⟩

theorem evaluatesAll_iff {es : List Expr} {d : Completion (List Value)} :
    EvaluatesAll s σ es d τ ↔ Ends (fun n => evalExprs n s es) σ d τ :=
  ⟨EvaluatesAll.ends, fun ⟨n, h⟩ => (derivesAt n).exprs s σ es d τ (h n (Nat.le_refl n))⟩

theorem executes_iff {st : Stmt} :
    Executes s σ st c τ ↔ Ends (fun n => evalStmt n s st) σ c τ :=
  ⟨Executes.ends, fun ⟨n, h⟩ => (derivesAt n).stmt s σ st c τ (h n (Nat.le_refl n))⟩

theorem executesAll_iff {ss : List Stmt} :
    ExecutesAll s σ ss c τ ↔ Ends (fun n => evalStmts n s .null ss) σ c τ := by
  constructor
  · intro h
    exact h.ends .null fun _ => rfl
  · rintro ⟨n, h⟩
    exact (derivesAt n).stmts s σ .null ss c τ (h n (Nat.le_refl n)) fun _ => rfl

end

/-! ## Programs -/

theorem Runs.of_result {s : ScopeId} {σ τ : Store} {p : Program} {c : Completion Value}
    (h : ExecutesAll s σ p.statements c τ) : Runs s σ p c.result τ := by
  cases c with
  | value v => exact .value h
  | returned v => exact .returned h
  | failed e => exact .failed h

theorem Runs.exists_completion {s : ScopeId} {σ τ : Store} {p : Program}
    {r : Except EvalError Value} (h : Runs s σ p r τ) :
    ∃ c : Completion Value, ExecutesAll s σ p.statements c τ ∧ c.result = r := by
  cases h with
  | value h => exact ⟨_, h, rfl⟩
  | returned h => exact ⟨_, h, rfl⟩
  | failed h => exact ⟨_, h, rfl⟩

end BigStep

theorem interpret_iff {s : ScopeId} {p : Program} {σ τ : Store} {r : Except EvalError Value} :
    (∃ fuel, (Interpreter.mk s).interpret fuel p σ = some (r, τ)) ↔ BigStep.Runs s σ p r τ := by
  constructor
  · rintro ⟨fuel, h⟩
    rcases Option.map_eq_some_iff.1 h with ⟨⟨c, υ⟩, hRun, hResult⟩
    cases hResult
    exact .of_result ((BigStep.derivesAt fuel).stmts s σ .null _ c τ hRun fun _ => rfl)
  · intro h
    rcases h.exists_completion with ⟨c, hAll, rfl⟩
    rcases hAll.ends .null fun _ => rfl with ⟨fuel, hEnds⟩
    exact ⟨fuel, Option.map_eq_some_iff.2 ⟨(c, τ), hEnds fuel (Nat.le_refl fuel), rfl⟩⟩

open BigStep in
/-- Running a program in a scope, on its own or on a machine, comes to a result exactly if the
rules derive it, with the store they derive, and no number of steps beyond what it takes changes
it. -/
theorem interpret_iff_runs (s : ScopeId) (p : Program) (σ τ : Store)
    (r : Except EvalError Value) :
    ((∃ fuel, (Interpreter.mk s).interpret fuel p σ = some (r, τ)) ↔ Runs s σ p r τ) ∧
    ((∃ fuel, Machine.interpret fuel p ⟨s, σ⟩ = some (r, ⟨s, τ⟩)) ↔ Runs s σ p r τ) ∧
    ∀ fuel more, fuel ≤ more → (Interpreter.mk s).interpret fuel p σ = some (r, τ) →
      (Interpreter.mk s).interpret more p σ = some (r, τ) := by
  refine ⟨interpret_iff, ?_, ?_⟩
  · simp only [Machine.interpret_eq_some_iff]
    exact interpret_iff
  · intro fuel more hMore h
    exact eval_of_le hMore h

/-- A function with two parameters of one name, whose body returns before its last statement. -/
def returningProgram : Program where
  statements :=
    [.bind "f" (.fn ["x", "x"] [.ret (some (.ident "x")), .expr (.ident "y")]),
      .expr (.infixOp .minus (.call (.ident "f") [.int 1, .int 2]) (.int 5))]

open BigStep in
/-- The last of the two arguments is returned, and the call comes to it. -/
theorem interpret_iff_runs_sample :
    ∃ τ, Runs 0 Store.fresh.2 returningProgram (.ok (.integer (-3))) τ ∧
      (Interpreter.mk 0).interpret 100 returningProgram Store.fresh.2 =
        some (.ok (.integer (-3)), τ) := by
  have hRun : (Interpreter.mk 0).interpret 9 returningProgram Store.fresh.2 =
      some (.ok (.integer (-3)),
        ⟨#[⟨none, [("f", .function ⟨0, ["x", "x"],
            [.ret (some (.ident "x")), .expr (.ident "y")], 0⟩)]⟩,
          ⟨some 0, [("x", .integer 2)]⟩], 1⟩) := by
    with_unfolding_all rfl
  exact ⟨_, (interpret_iff_runs 0 returningProgram Store.fresh.2 _ _).1.1 ⟨9, hRun⟩,
    (interpret_iff_runs 0 returningProgram Store.fresh.2 _ _).2.2 9 100 (by decide) hRun⟩

end MonkeyLang
