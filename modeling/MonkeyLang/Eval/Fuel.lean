import MonkeyLang.Eval.Program

/-!
# Fuel — granting more steps changes no result

An evaluation that ends within the steps it was granted ends in the same way, and leaves the
same store, if it is granted more (`evalExpr_of_le`, `evalStmts_of_le`, and so on for every kind
of evaluation).  The proof compares runs by `Run.Refines`: one run refines another if it agrees
with it wherever the other ends.
-/

namespace MonkeyLang

/-! ## Runs that agree -/

/-- Wherever `m` ends, `m'` ends in the same way and with the same store. -/
def Run.Refines {α : Type} (m m' : Run α) : Prop :=
  ∀ σ r, m σ = some r → m' σ = some r

namespace Run.Refines

variable {α β : Type}

theorem refl (m : Run α) : m.Refines m :=
  fun _ _ h => h

theorem trans {m m' m'' : Run α} (h : m.Refines m') (h' : m'.Refines m'') : m.Refines m'' :=
  fun σ r hr => h' σ r (h σ r hr)

theorem of_exhausted (m : Run α) : Run.exhausted.Refines m := by
  intro σ r h
  cases h

theorem bind {m m' : Run α} {f f' : α → Run β} (hm : m.Refines m')
    (hf : ∀ a, (f a).Refines (f' a)) : (m >>= f).Refines (m' >>= f') := by
  intro σ r h
  change Run.bind m f σ = some r at h
  change Run.bind m' f' σ = some r
  unfold Run.bind at h ⊢
  cases hσ : m σ with
  | none => simp [hσ] at h
  | some c =>
      obtain ⟨c, σ'⟩ := c
      rw [hm σ _ hσ]
      rw [hσ] at h
      cases c with
      | value a => exact hf a σ' r h
      | returned v => exact h
      | failed e => exact h

theorem settle {m m' : Run Value} (hm : m.Refines m') : (Run.settle m).Refines (Run.settle m') := by
  intro σ r h
  unfold Run.settle at h ⊢
  cases hσ : m σ with
  | none => simp [hσ] at h
  | some c =>
      rw [hm σ _ hσ]
      rw [hσ] at h
      exact h

end Run.Refines

/-! ## One more step -/

/-- With one more step every kind of evaluation refines what it was. -/
theorem eval_refines_succ (fuel : Nat) :
    (∀ s e, (evalExpr fuel s e).Refines (evalExpr (fuel + 1) s e)) ∧
    (∀ s es, (evalExprs fuel s es).Refines (evalExprs (fuel + 1) s es)) ∧
    (∀ f vs, (applyValue fuel f vs).Refines (applyValue (fuel + 1) f vs)) ∧
    (∀ s st, (evalStmt fuel s st).Refines (evalStmt (fuel + 1) s st)) ∧
    (∀ s v ss, (evalStmts fuel s v ss).Refines (evalStmts (fuel + 1) s v ss)) := by
  induction fuel with
  | zero =>
      refine ⟨?_, ?_, ?_, ?_, ?_⟩
      · intro s e
        rw [evalExpr]
        exact .of_exhausted _
      · intro s es
        rw [evalExprs]
        exact .of_exhausted _
      · intro f vs
        rw [applyValue]
        exact .of_exhausted _
      · intro s st
        rw [evalStmt]
        exact .of_exhausted _
      · intro s v ss
        rw [evalStmts]
        exact .of_exhausted _
  | succ fuel ih =>
      obtain ⟨hExpr, hExprs, hApply, hStmt, hStmts⟩ := ih
      refine ⟨?_, ?_, ?_, ?_, ?_⟩
      · intro s e
        cases e with
        | prefixOp op right =>
            simp only [evalExpr]
            exact (hExpr s right).bind fun v => .refl _
        | infixOp op left right =>
            simp only [evalExpr]
            exact (hExpr s left).bind fun v => (hExpr s right).bind fun w => .refl _
        | cond condition consequence alternative =>
            cases alternative with
            | none =>
                simp only [evalExpr]
                refine (hExpr s condition).bind fun v => ?_
                split
                · exact hStmts s .null consequence
                · exact .refl _
            | some body =>
                simp only [evalExpr]
                refine (hExpr s condition).bind fun v => ?_
                split
                · exact hStmts s .null consequence
                · exact hStmts s .null body
        | call callee arguments =>
            simp only [evalExpr]
            refine (hExpr s callee).bind fun f => ?_
            exact (hExprs s arguments).bind fun vs => hApply f vs
        | _ =>
            simp only [evalExpr]
            exact .refl _
      · intro s es
        cases es with
        | nil =>
            simp only [evalExprs]
            exact .refl _
        | cons e es =>
            simp only [evalExprs]
            exact (hExpr s e).bind fun v => (hExprs s es).bind fun vs => .refl _
      · intro f vs
        cases f with
        | function c =>
            simp only [applyValue]
            split
            · exact (Run.Refines.refl _).bind fun s => (hStmts s .null c.body).settle
            · exact .refl _
        | _ =>
            simp only [applyValue]
            exact .refl _
      · intro s st
        cases st with
        | bind name e =>
            simp only [evalStmt]
            exact (hExpr s e).bind fun v => .refl _
        | ret value =>
            cases value with
            | none =>
                simp only [evalStmt]
                exact .refl _
            | some e =>
                simp only [evalStmt]
                exact (hExpr s e).bind fun v => .refl _
        | expr e =>
            simp only [evalStmt]
            exact hExpr s e
        | block body =>
            simp only [evalStmt]
            exact hStmts s .null body
      · intro s v ss
        cases ss with
        | nil =>
            simp only [evalStmts]
            exact .refl _
        | cons st ss =>
            simp only [evalStmts]
            exact (hStmt s st).bind fun v => hStmts s v ss

/-! ## Any number of further steps -/

theorem refines_of_le {α : Type} {m : Nat → Run α} (h : ∀ n, (m n).Refines (m (n + 1)))
    {n k : Nat} (hk : n ≤ k) : (m n).Refines (m k) := by
  induction hk with
  | refl => exact Run.Refines.refl _
  | step _ ih => exact ih.trans (h _)

theorem evalExpr_of_le {n k : Nat} (h : n ≤ k) (s : ScopeId) (e : Expr) :
    (evalExpr n s e).Refines (evalExpr k s e) :=
  refines_of_le (fun n => (eval_refines_succ n).1 s e) h

theorem evalStmt_of_le {n k : Nat} (h : n ≤ k) (s : ScopeId) (st : Stmt) :
    (evalStmt n s st).Refines (evalStmt k s st) :=
  refines_of_le (fun n => (eval_refines_succ n).2.2.2.1 s st) h

theorem evalStmts_of_le {n k : Nat} (h : n ≤ k) (s : ScopeId) (v : Value) (ss : List Stmt) :
    (evalStmts n s v ss).Refines (evalStmts k s v ss) :=
  refines_of_le (fun n => (eval_refines_succ n).2.2.2.2 s v ss) h

theorem eval_of_le {n k : Nat} (h : n ≤ k) {p : Program} {s : ScopeId} {σ : Store}
    {end_ : Except EvalError Value × Store} (hEval : eval n p s σ = some end_) :
    eval k p s σ = some end_ := by
  rcases Option.map_eq_some_iff.1 hEval with ⟨run, hRun, rfl⟩
  exact Option.map_eq_some_iff.2 ⟨run, evalStmts_of_le h s .null p.statements σ run hRun, rfl⟩

theorem evalFresh_of_le {n k : Nat} (h : n ≤ k) {p : Program} {result : Except EvalError Value}
    (hEval : evalFresh n p = some result) : evalFresh k p = some result := by
  rcases Option.map_eq_some_iff.1 hEval with ⟨end_, hRun, rfl⟩
  exact Option.map_eq_some_iff.2 ⟨end_, eval_of_le h hRun, rfl⟩

end MonkeyLang
