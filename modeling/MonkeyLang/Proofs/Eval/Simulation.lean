import MonkeyLang.Eval.Basic
import MonkeyLang.Proofs.Eval.Correspondence

/-!
# Simulation — evaluation in stores that correspond

An evaluation does not depend on the numbers of scopes and closures.  In two stores that correspond
it takes the same course: if it ends in one of them then it ends in the other, in a way that
corresponds, and the stores that it leaves correspond again.

The two runs open scopes and make closures in step, and every pair of new ones is added to the
renaming.  The statement about a run therefore ends with a correspondence that has grown
(`Run.Simulates`), and whatever follows the run starts from there (`Run.Simulates.bind`).
-/

namespace MonkeyLang

/-! ## Operators -/

theorem PrefixOp.apply_congr {β : Renaming} {v v' : Value} (op : PrefixOp)
    (h : v.Corresponds β v') : op.apply v' = op.apply v := by
  cases op with
  | bang => simp only [PrefixOp.apply, h.truthy_eq]
  | minus => cases h <;> rfl

theorem InfixOp.apply_congr {β : Renaming} {v v' w w' : Value} (op : InfixOp)
    (hv : v.Corresponds β v') (hw : w.Corresponds β w') : op.apply v' w' = op.apply v w := by
  cases hv <;> cases hw <;> cases op <;> rfl

/-- No operator comes to a function. -/
theorem PrefixOp.type_apply_ne (op : PrefixOp) {v w : Value} (h : op.apply v = .ok w) :
    w.type ≠ .function := by
  unfold PrefixOp.apply at h
  split at h <;> cases h <;> nofun

theorem InfixOp.type_apply_ne (op : InfixOp) {u v w : Value} (h : op.apply u v = .ok w) :
    w.type ≠ .function := by
  unfold InfixOp.apply at h
  split at h
  · -- between two integers
    cases op <;> simp only [InfixOp.applyInt] at h <;> try (cases h; nofun)
    split at h <;> cases h
    nofun
  · cases h
    nofun
  · cases h
    nofun
  · cases h

theorem Value.Corresponds.of_type_ne {v : Value} (β : Renaming) (h : v.type ≠ .function) :
    v.Corresponds β v := by
  cases v with
  | integer n => exact .integer n
  | boolean b => exact .boolean b
  | null => exact .null
  | function c => exact absurd rfl h

/-! ## Runs in step -/

/-- Ends of the same kind, with values that are related or errors that are the same. -/
inductive Completion.Corresponds {α : Type} (β : Renaming) (R : Renaming → α → α → Prop) :
    Completion α → Completion α → Prop
  | value {a a' : α} (h : R β a a') : Corresponds β R (.value a) (.value a')
  | returned {v v' : Value} (h : v.Corresponds β v') : Corresponds β R (.returned v) (.returned v')
  | failed (e : EvalError) : Corresponds β R (.failed e) (.failed e)

namespace Run

/-- If `m` ends in the left store then `m'` ends in the right one, in a way that corresponds, and
the stores they leave correspond along a renaming that has grown. -/
def Simulates {α : Type} (K : Correspondence) (R : Renaming → α → α → Prop) (m m' : Run α) :
    Prop :=
  ∀ c τ, m K.left = some (c, τ) →
    ∃ (K' : Correspondence) (c' : Completion α), K.Grows K' ∧ K'.left = τ ∧
      m' K.right = some (c', K'.right) ∧ c.Corresponds K'.toRenaming R c'

namespace Simulates

variable {α β : Type} {K : Correspondence} {R : Renaming → α → α → Prop}
  {Q : Renaming → β → β → Prop}

theorem exhausted (m : Run α) : Simulates K R Run.exhausted m := by
  intro c τ h
  cases h

/-- Runs that leave the stores as they were. -/
theorem of_same {m m' : Run α} {c c' : Completion α} (hm : m K.left = some (c, K.left))
    (hm' : m' K.right = some (c', K.right)) (h : c.Corresponds K.toRenaming R c') :
    Simulates K R m m' := by
  intro d τ hRun
  rw [hm] at hRun
  cases hRun
  exact ⟨K, c', .refl K, rfl, hm', h⟩

theorem pure {a a' : α} (h : R K.toRenaming a a') :
    Simulates K R (Run.pure a) (Run.pure a') :=
  of_same rfl rfl (.value h)

theorem leave {v v' : Value} (h : v.Corresponds K.toRenaming v') :
    Simulates K R (Run.leave v) (Run.leave v') :=
  of_same rfl rfl (.returned h)

theorem fail (e : EvalError) : Simulates K R (Run.fail e) (Run.fail e) :=
  of_same rfl rfl (.failed e)

theorem ofExcept {r : Except EvalError Value} (h : ∀ v, r = .ok v → v.type ≠ .function) :
    Simulates K Value.Corresponds (Run.ofExcept r) (Run.ofExcept r) := by
  cases r with
  | ok v => exact pure (.of_type_ne _ (h v rfl))
  | error e => exact fail e

theorem lookUp {s s' : ScopeId} (hs : K.scope s s') (name : String) :
    Simulates K Value.Corresponds (Run.lookUp s name) (Run.lookUp s' name) := by
  have hGet := K.get?_corresponds name hs
  generalize hLeft : K.left.get? s name = found, hRight : K.right.get? s' name = found' at hGet
  cases hGet with
  | some hv =>
      refine of_same ?_ ?_ (.value hv)
      · simp only [Run.lookUp, hLeft]
      · simp only [Run.lookUp, hRight]
  | none =>
      refine of_same ?_ ?_ (.failed (.identifierNotFound name))
      · simp only [Run.lookUp, hLeft]
      · simp only [Run.lookUp, hRight]

theorem define {s s' : ScopeId} (hs : K.scope s s') (name : String) {v v' : Value}
    (hv : v.Corresponds K.toRenaming v') :
    Simulates K Value.Corresponds (Run.define s name v) (Run.define s' name v') := by
  intro c τ h
  cases h
  exact ⟨K.define hs name hv, .value v', K.grows_define hs name hv, rfl, rfl, .value hv⟩

theorem close {s s' : ScopeId} (hs : K.scope s s') (parameters : List String)
    (body : List Stmt) :
    Simulates K Value.Corresponds (Run.close s parameters body)
      (Run.close s' parameters body) := by
  intro c τ h
  cases h
  have hNew : (K.close hs parameters body).closure (K.left.close s parameters body).1
      (K.right.close s' parameters body).1 := .inr ⟨rfl, rfl⟩
  exact ⟨K.close hs parameters body, _, K.grows_close hs parameters body, rfl, rfl,
    .value (.function hNew)⟩

theorem openScope {o o' : ScopeId} (ho : K.scope o o') {bs bs' : List (String × Value)}
    (hbs : ∀ name, Option.Rel (Value.Corresponds K.toRenaming) (bs.lookup name)
      (bs'.lookup name)) :
    Simulates K Renaming.scope (Run.openScope o bs) (Run.openScope o' bs') := by
  intro c τ h
  cases h
  have hNew : (K.openScope ho hbs).scope K.left.scopes.size K.right.scopes.size := .inr ⟨rfl, rfl⟩
  exact ⟨K.openScope ho hbs, _, K.grows_openScope ho hbs, rfl, rfl, .value hNew⟩

/-- Runs in step, and behind them whatever goes on in step with what they come to. -/
theorem bind {m m' : Run α} {f f' : α → Run β} (hm : Simulates K R m m')
    (hf : ∀ (K' : Correspondence) a a', K.Grows K' → R K'.toRenaming a a' →
      Simulates K' Q (f a) (f' a')) : Simulates K Q (m >>= f) (m' >>= f') := by
  intro c τ h
  change Run.bind m f K.left = some (c, τ) at h
  change ∃ K' c', K.Grows K' ∧ K'.left = τ ∧ Run.bind m' f' K.right = some (c', K'.right) ∧ _
  unfold Run.bind at h ⊢
  cases hFirst : m K.left with
  | none => simp [hFirst] at h
  | some end_ =>
      obtain ⟨d, σ⟩ := end_
      rcases hm d σ hFirst with ⟨K', d', hGrows, rfl, hRun, hEnd⟩
      rw [hFirst] at h
      rw [hRun]
      -- a value goes on in both stores, and everything else goes out of both
      cases hEnd with
      | value ha =>
          rcases hf K' _ _ hGrows ha c τ h with ⟨K'', c', hGrows', hLeft, hRun', hEnd'⟩
          exact ⟨K'', c', hGrows.trans hGrows', hLeft, hRun', hEnd'⟩
      | returned hv =>
          cases h
          exact ⟨K', _, hGrows, rfl, rfl, .returned hv⟩
      | failed e =>
          cases h
          exact ⟨K', _, hGrows, rfl, rfl, .failed e⟩

theorem settle {m m' : Run Value} (hm : Simulates K Value.Corresponds m m') :
    Simulates K Value.Corresponds (Run.settle m) (Run.settle m') := by
  intro c τ h
  unfold Run.settle at h ⊢
  cases hRun : m K.left with
  | none => simp [hRun] at h
  | some end_ =>
      obtain ⟨d, σ⟩ := end_
      rcases hm d σ hRun with ⟨K', d', hGrows, rfl, hRun', hEnd⟩
      rw [hRun] at h
      rw [hRun']
      cases hEnd with
      | value hv =>
          cases h
          exact ⟨K', _, hGrows, rfl, rfl, .value hv⟩
      | returned hv =>
          cases h
          exact ⟨K', _, hGrows, rfl, rfl, .value hv⟩
      | failed e =>
          cases h
          exact ⟨K', _, hGrows, rfl, rfl, .failed e⟩

end Simulates
end Run

/-! ## Every evaluation -/

open Run (Simulates)

/-- With `fuel` nested steps, expressions and statements are evaluated in step in scopes that stand
for each other, and so are calls of functions that correspond with arguments that correspond. -/
structure SimulatesAt (fuel : Nat) : Prop where
  expr : ∀ (K : Correspondence) s s' e, K.scope s s' →
    Simulates K Value.Corresponds (evalExpr fuel s e) (evalExpr fuel s' e)
  exprs : ∀ (K : Correspondence) s s' es, K.scope s s' →
    Simulates K (fun β => List.Forall₂ (Value.Corresponds β)) (evalExprs fuel s es)
      (evalExprs fuel s' es)
  apply : ∀ (K : Correspondence) f f' vs vs', f.Corresponds K.toRenaming f' →
    List.Forall₂ (Value.Corresponds K.toRenaming) vs vs' →
    Simulates K Value.Corresponds (applyValue fuel f vs) (applyValue fuel f' vs')
  stmt : ∀ (K : Correspondence) s s' st, K.scope s s' →
    Simulates K Value.Corresponds (evalStmt fuel s st) (evalStmt fuel s' st)
  stmts : ∀ (K : Correspondence) s s' v v' ss, K.scope s s' → v.Corresponds K.toRenaming v' →
    Simulates K Value.Corresponds (evalStmts fuel s v ss) (evalStmts fuel s' v' ss)

namespace SimulatesAt

variable {fuel : Nat}

/-- Without any step nothing ends. -/
theorem zero : SimulatesAt 0 where
  expr K s s' e hs := by
    rw [evalExpr]
    exact .exhausted _
  exprs K s s' es hs := by
    rw [evalExprs]
    exact .exhausted _
  apply K f f' vs vs' hf hvs := by
    rw [applyValue]
    exact .exhausted _
  stmt K s s' st hs := by
    rw [evalStmt]
    exact .exhausted _
  stmts K s s' v v' ss hs hv := by
    rw [evalStmts]
    exact .exhausted _

theorem expr_succ (h : SimulatesAt fuel) (K : Correspondence) (s s' : ScopeId) (e : Expr)
    (hs : K.scope s s') :
    Simulates K Value.Corresponds (evalExpr (fuel + 1) s e) (evalExpr (fuel + 1) s' e) := by
  cases e with
  | ident name =>
      simp only [evalExpr]
      exact .lookUp hs name
  | int n =>
      simp only [evalExpr]
      exact .pure (.integer n)
  | bool b =>
      simp only [evalExpr]
      exact .pure (.boolean b)
  | prefixOp op right =>
      simp only [evalExpr]
      refine (h.expr K s s' right hs).bind fun K' v v' hGrows hv => ?_
      rw [op.apply_congr hv]
      exact .ofExcept fun w => op.type_apply_ne
  | infixOp op left right =>
      simp only [evalExpr]
      refine (h.expr K s s' left hs).bind fun K₁ v v' hGrows₁ hv => ?_
      refine (h.expr K₁ s s' right (hGrows₁.le.1 hs)).bind fun K₂ w w' hGrows₂ hw => ?_
      -- the left values correspond still, along the larger renaming
      rw [op.apply_congr (hv.mono hGrows₂.le) hw]
      exact .ofExcept fun u => op.type_apply_ne
  | cond condition consequence alternative =>
      cases alternative with
      | none =>
          simp only [evalExpr]
          refine (h.expr K s s' condition hs).bind fun K' v v' hGrows hv => ?_
          -- both conditions hold or neither does, so both runs take the same branch
          rw [hv.truthy_eq]
          split
          · exact h.stmts K' s s' .null .null consequence (hGrows.le.1 hs) .null
          · exact .pure .null
      | some body =>
          simp only [evalExpr]
          refine (h.expr K s s' condition hs).bind fun K' v v' hGrows hv => ?_
          rw [hv.truthy_eq]
          split
          · exact h.stmts K' s s' .null .null consequence (hGrows.le.1 hs) .null
          · exact h.stmts K' s s' .null .null body (hGrows.le.1 hs) .null
  | fn parameters body =>
      simp only [evalExpr]
      exact .close hs parameters body
  | call callee arguments =>
      simp only [evalExpr]
      refine (h.expr K s s' callee hs).bind fun K₁ f f' hGrows₁ hf => ?_
      refine (h.exprs K₁ s s' arguments (hGrows₁.le.1 hs)).bind fun K₂ vs vs' hGrows₂ hvs => ?_
      exact h.apply K₂ f f' vs vs' (hf.mono hGrows₂.le) hvs

theorem exprs_succ (h : SimulatesAt fuel) (K : Correspondence) (s s' : ScopeId) (es : List Expr)
    (hs : K.scope s s') :
    Simulates K (fun β => List.Forall₂ (Value.Corresponds β)) (evalExprs (fuel + 1) s es)
      (evalExprs (fuel + 1) s' es) := by
  cases es with
  | nil =>
      simp only [evalExprs]
      exact .pure .nil
  | cons e es =>
      simp only [evalExprs]
      refine (h.expr K s s' e hs).bind fun K₁ v v' hGrows₁ hv => ?_
      refine (h.exprs K₁ s s' es (hGrows₁.le.1 hs)).bind fun K₂ vs vs' hGrows₂ hvs => ?_
      exact .pure (.cons (hv.mono hGrows₂.le) hvs)

theorem apply_succ (h : SimulatesAt fuel) (K : Correspondence) (f f' : Value)
    (vs vs' : List Value) (hf : f.Corresponds K.toRenaming f')
    (hvs : List.Forall₂ (Value.Corresponds K.toRenaming) vs vs') :
    Simulates K Value.Corresponds (applyValue (fuel + 1) f vs)
      (applyValue (fuel + 1) f' vs') := by
  cases hf with
  | @function c c' hc =>
      -- the closures take as many arguments and have the same body
      simp only [applyValue]
      rw [K.parameters hc, K.body hc, ← hvs.length_eq]
      split
      · have hBindings := lookup_rebindAll_corresponds hvs c.parameters [] [] fun _ => .none
        -- the scopes of the two calls are new, and what happens in them is in step again
        refine (Simulates.openScope (K.captured hc) hBindings).bind fun K' s s' hGrows hs => ?_
        exact (h.stmts K' s s' .null .null c.body hs .null).settle
      · exact .fail _
  | integer n =>
      simp only [applyValue]
      exact .fail _
  | boolean b =>
      simp only [applyValue]
      exact .fail _
  | null =>
      simp only [applyValue]
      exact .fail _

theorem stmt_succ (h : SimulatesAt fuel) (K : Correspondence) (s s' : ScopeId) (st : Stmt)
    (hs : K.scope s s') :
    Simulates K Value.Corresponds (evalStmt (fuel + 1) s st) (evalStmt (fuel + 1) s' st) := by
  cases st with
  | bind name e =>
      simp only [evalStmt]
      refine (h.expr K s s' e hs).bind fun K' v v' hGrows hv => ?_
      exact .define (hGrows.le.1 hs) name hv
  | ret value =>
      cases value with
      | none =>
          simp only [evalStmt]
          exact .leave .null
      | some e =>
          simp only [evalStmt]
          exact (h.expr K s s' e hs).bind fun K' v v' hGrows hv => .leave hv
  | expr e =>
      simp only [evalStmt]
      exact h.expr K s s' e hs
  | block body =>
      simp only [evalStmt]
      exact h.stmts K s s' .null .null body hs .null

theorem stmts_succ (h : SimulatesAt fuel) (K : Correspondence) (s s' : ScopeId) (v v' : Value)
    (ss : List Stmt) (hs : K.scope s s') (hv : v.Corresponds K.toRenaming v') :
    Simulates K Value.Corresponds (evalStmts (fuel + 1) s v ss)
      (evalStmts (fuel + 1) s' v' ss) := by
  cases ss with
  | nil =>
      simp only [evalStmts]
      exact .pure hv
  | cons st ss =>
      simp only [evalStmts]
      refine (h.stmt K s s' st hs).bind fun K' w w' hGrows hw => ?_
      exact h.stmts K' s s' w w' ss (hGrows.le.1 hs) hw

end SimulatesAt

/-- Every evaluation takes the same course in stores that correspond. -/
theorem simulatesAt (fuel : Nat) : SimulatesAt fuel := by
  induction fuel with
  | zero => exact .zero
  | succ fuel ih => exact ⟨ih.expr_succ, ih.exprs_succ, ih.apply_succ, ih.stmt_succ, ih.stmts_succ⟩

end MonkeyLang
