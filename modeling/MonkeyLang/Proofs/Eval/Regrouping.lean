import MonkeyLang.Proofs.Eval.Opened

/-!
# Regrouping — evaluation does not see blocks

A program and what splicing makes of it are evaluated alike.  The functions they make have other
bodies, so their stores are not the same; but they are equal when the bodies in them are spliced
too, and so are the values that the programs come to.

The statement about a run is about any two starts that are equal when spliced
(`Run.Answers`).  It does not say which of the two has the blocks, so that it holds of a program
and the spliced one in either order.  The two runs take different numbers of steps: the proof is by
the steps of the one, and of the other it is only said that some number suffices.  The statements
of the other run are taken with their blocks opened, which makes them as many on both sides.
-/

namespace MonkeyLang

/-! ## Stores with spliced bodies -/

def Closure.spliced (c : Closure) : Closure :=
  { c with body := Stmt.splicedAll c.body }

def Value.spliced : Value → Value
  | .integer n => .integer n
  | .boolean b => .boolean b
  | .null => .null
  | .function c => .function c.spliced

/-- Bindings with the bodies of all functions spliced. -/
def splicedBindings (bindings : List (String × Value)) : List (String × Value) :=
  bindings.map fun b => (b.1, b.2.spliced)

def Scope.spliced (s : Scope) : Scope :=
  { s with bindings := splicedBindings s.bindings }

def Store.spliced (σ : Store) : Store :=
  { σ with scopes := σ.scopes.map Scope.spliced }

theorem lookup_splicedBindings (name : String) (bs : List (String × Value)) :
    (splicedBindings bs).lookup name = (bs.lookup name).map Value.spliced := by
  induction bs with
  | nil => rfl
  | cons b bs ih =>
      obtain ⟨n, v⟩ := b
      change List.lookup name ((n, v.spliced) :: splicedBindings bs) = _
      rw [List.lookup_cons, List.lookup_cons]
      cases name == n with
      | true => rfl
      | false => exact ih

theorem splicedBindings_rebind (name : String) (v : Value) (bs : List (String × Value)) :
    splicedBindings (rebind name v bs) = rebind name v.spliced (splicedBindings bs) := by
  induction bs with
  | nil => rfl
  | cons b bs ih =>
      obtain ⟨n, w⟩ := b
      change splicedBindings (rebind name v ((n, w) :: bs)) =
        rebind name v.spliced ((n, w.spliced) :: splicedBindings bs)
      by_cases hn : n = name
      · simp only [rebind, if_pos hn]
        rfl
      · simp only [rebind, if_neg hn]
        exact congrArg ((n, w.spliced) :: ·) ih

theorem splicedBindings_rebindAll (pairs bs : List (String × Value)) :
    splicedBindings (rebindAll bs pairs) =
      rebindAll (splicedBindings bs) (splicedBindings pairs) := by
  induction pairs generalizing bs with
  | nil => rfl
  | cons pair pairs ih =>
      obtain ⟨n, v⟩ := pair
      change splicedBindings (rebindAll (rebind n v bs) pairs) =
        rebindAll (rebind n v.spliced (splicedBindings bs)) (splicedBindings pairs)
      rw [ih, splicedBindings_rebind]

theorem splicedBindings_zip (names : List String) (vs : List Value) :
    splicedBindings (names.zip vs) = names.zip (vs.map Value.spliced) := by
  rw [List.zip_map_right]
  rfl

namespace Store

theorem getElem?_spliced (σ : Store) (s : ScopeId) :
    σ.spliced.scopes[s]? = (σ.scopes[s]?).map Scope.spliced :=
  Array.getElem?_map

theorem get?_spliced (σ : Store) (s : ScopeId) (name : String) :
    σ.spliced.get? s name = (σ.get? s name).map Value.spliced := by
  -- by the way outward
  induction s using Nat.strongRecOn with
  | ind s ih =>
      rw [get?, get?, getElem?_spliced]
      cases σ.scopes[s]? with
      | none => rfl
      | some scope =>
          have hFound : scope.spliced.find? name = (scope.find? name).map Value.spliced :=
            lookup_splicedBindings name scope.bindings
          have hOuter : scope.spliced.enclosing = scope.enclosing := rfl
          simp only [Option.map_some, hFound, hOuter]
          cases scope.find? name with
          | some v => rfl
          | none =>
              cases scope.enclosing with
              | none => rfl
              | some o =>
                  by_cases ho : o < s
                  · simpa only [Option.map_none, if_pos ho] using ih o ho
                  · simp only [Option.map_none, if_neg ho]

theorem spliced_define (σ : Store) (s : ScopeId) (name : String) (v : Value) :
    (σ.define s name v).spliced = σ.spliced.define s name v.spliced := by
  have hScopes : (σ.scopes.modify s fun scope => scope.insert name v).map Scope.spliced =
      (σ.scopes.map Scope.spliced).modify s fun scope => scope.insert name v.spliced := by
    refine Array.ext_getElem? fun t => ?_
    simp only [Array.getElem?_map, Array.getElem?_modify]
    split
    · cases σ.scopes[t]? with
      | none => rfl
      | some scope =>
          simp only [Option.map_some, Scope.insert, Scope.spliced, splicedBindings_rebind]
    · rfl
  simp only [spliced, define, hScopes]

theorem spliced_openScope (σ : Store) (enclosing : Option ScopeId)
    (bindings : List (String × Value)) :
    (σ.openScope enclosing bindings).2.spliced =
      (σ.spliced.openScope enclosing (splicedBindings bindings)).2 := by
  simp only [spliced, openScope, Array.map_push, Scope.spliced]

/-- Splicing leaves all numbers as they are. -/
theorem counts_eq {σ σ' : Store} (h : σ'.spliced = σ.spliced) :
    σ'.scopes.size = σ.scopes.size ∧ σ'.closures = σ.closures := by
  rw [spliced, spliced, mk.injEq] at h
  have hSize := congrArg Array.size h.1
  rw [Array.size_map, Array.size_map] at hSize
  exact ⟨hSize, h.2⟩

end Store

/-! ## Runs that agree -/

/-- Ends of the same kind, with values that are equal when spliced. -/
inductive Completion.Agrees {α : Type} (g : α → α) : Completion α → Completion α → Prop
  | value {a a' : α} (h : g a' = g a) : Agrees g (.value a) (.value a')
  | returned {v v' : Value} (h : v'.spliced = v.spliced) : Agrees g (.returned v) (.returned v')
  | failed (e : EvalError) : Agrees g (.failed e) (.failed e)

open Run (Ends)

namespace Run

/-- However `m` ends, `m'` ends in agreement with it if it is granted enough steps. -/
def Answers {α : Type} (g : α → α) (m : Run α) (m' : Nat → Run α) : Prop :=
  ∀ σ σ' c τ, σ'.spliced = σ.spliced → m σ = some (c, τ) →
    ∃ c' τ', Ends m' σ' c' τ' ∧ c.Agrees g c' ∧ τ'.spliced = τ.spliced

namespace Answers

variable {α β : Type} {g : α → α} {k : β → β}

theorem exhausted (m' : Nat → Run α) : Answers g Run.exhausted m' := by
  intro σ σ' c τ hσ h
  cases h

/-- Runs that only end. -/
theorem of_eq {m m' : Run α} {c c' : Completion α} (hm : ∀ σ, m σ = some (c, σ))
    (hm' : ∀ σ, m' σ = some (c', σ)) (h : c.Agrees g c') : Answers g m fun _ => m' := by
  intro σ σ' d τ hσ hRun
  rw [hm] at hRun
  cases hRun
  exact ⟨c', σ', .of_eq (hm' σ'), h, hσ⟩

theorem pure {a a' : α} (h : g a' = g a) : Answers g (Run.pure a) fun _ => Run.pure a' :=
  of_eq (fun _ => rfl) (fun _ => rfl) (.value h)

theorem leave {v v' : Value} (h : v'.spliced = v.spliced) :
    Answers g (Run.leave v) fun _ => Run.leave v' :=
  of_eq (fun _ => rfl) (fun _ => rfl) (.returned h)

theorem fail (e : EvalError) : Answers g (Run.fail e) fun _ => Run.fail e :=
  of_eq (fun _ => rfl) (fun _ => rfl) (.failed e)

theorem ofExcept (r : Except EvalError α) :
    Answers g (Run.ofExcept r) fun _ => Run.ofExcept r := by
  cases r with
  | ok a => exact pure rfl
  | error e => exact fail e

theorem lookUp (s : ScopeId) (name : String) :
    Answers Value.spliced (Run.lookUp s name) fun _ => Run.lookUp s name := by
  intro σ σ' c τ hσ h
  have hGet : (σ'.get? s name).map Value.spliced = (σ.get? s name).map Value.spliced := by
    rw [← Store.get?_spliced, ← Store.get?_spliced, hσ]
  cases hFound : σ.get? s name with
  | some v =>
      rw [hFound] at hGet
      rcases Option.map_eq_some_iff.1 hGet with ⟨v', hFound', hv⟩
      simp only [Run.lookUp, hFound] at h
      cases h
      refine ⟨.value v', σ', .of_eq ?_, .value hv, hσ⟩
      simp only [Run.lookUp, hFound']
  | none =>
      rw [hFound] at hGet
      have hFound' : σ'.get? s name = none := Option.map_eq_none_iff.1 hGet
      simp only [Run.lookUp, hFound] at h
      cases h
      refine ⟨.failed (.identifierNotFound name), σ', .of_eq ?_, .failed _, hσ⟩
      simp only [Run.lookUp, hFound']

theorem define (s : ScopeId) (name : String) {v v' : Value} (hv : v'.spliced = v.spliced) :
    Answers Value.spliced (Run.define s name v) fun _ => Run.define s name v' := by
  intro σ σ' c τ hσ h
  cases h
  refine ⟨.value v', σ'.define s name v', .of_eq rfl, .value hv, ?_⟩
  rw [Store.spliced_define, Store.spliced_define, hσ, hv]

theorem close (s : ScopeId) (parameters : List String) {body body' : List Stmt}
    (hBody : Stmt.splicedAll body' = Stmt.splicedAll body) :
    Answers Value.spliced (Run.close s parameters body) fun _ =>
      Run.close s parameters body' := by
  intro σ σ' c τ hσ h
  cases h
  refine ⟨_, _, .of_eq rfl, .value ?_, ?_⟩
  · simp only [Value.spliced, Closure.spliced, hBody, (Store.counts_eq hσ).2]
  · exact congrArg (fun ρ : Store => (⟨ρ.scopes, ρ.closures + 1⟩ : Store)) hσ

theorem openScope (o : ScopeId) {bindings bindings' : List (String × Value)}
    (h : splicedBindings bindings' = splicedBindings bindings) :
    Answers id (Run.openScope o bindings) fun _ => Run.openScope o bindings' := by
  intro σ σ' c τ hσ hRun
  cases hRun
  refine ⟨.value σ'.scopes.size, (σ'.openScope (some o) bindings').2, .of_eq rfl,
    .value (Store.counts_eq hσ).1, ?_⟩
  calc
    (σ'.openScope (some o) bindings').2.spliced
        = (σ.spliced.openScope (some o) (splicedBindings bindings)).2 := by
          rw [Store.spliced_openScope, hσ, h]
    _ = (σ.openScope (some o) bindings).2.spliced := (σ.spliced_openScope _ _).symm

theorem bind {m : Run α} {m' : Nat → Run α} {f : α → Run β} {f' : Nat → α → Run β}
    (hm : Answers g m m') (hf : ∀ a a', g a' = g a → Answers k (f a) fun n => f' n a') :
    Answers k (m >>= f) fun n => m' n >>= f' n := by
  intro σ σ' c τ hσ h
  rcases exists_of_bind h with ⟨a, υ, hFirst, hSecond⟩ | ⟨x, hFirst, rfl⟩
  · rcases hm σ σ' _ υ hσ hFirst with ⟨_, υ', hFirst', ⟨ha⟩, hυ⟩
    rcases hf a _ ha υ υ' c τ hυ hSecond with ⟨c', τ', hSecond', hc, hτ⟩
    exact ⟨c', τ', hFirst'.bind hSecond', hc, hτ⟩
  · rcases hm σ σ' _ τ hσ hFirst with ⟨c', τ', hFirst', hc, hτ⟩
    cases x with
    | returned v =>
        cases hc with
        | @returned _ v' hv =>
            exact ⟨(Exit.returned v').completion, τ', hFirst'.bind_exit, .returned hv, hτ⟩
    | failed e =>
        cases hc
        exact ⟨(Exit.failed e).completion, τ', hFirst'.bind_exit, .failed e, hτ⟩

theorem settle {m : Run Value} {m' : Nat → Run Value} (hm : Answers Value.spliced m m') :
    Answers Value.spliced (Run.settle m) fun n => Run.settle (m' n) := by
  intro σ σ' c τ hσ h
  rcases exists_of_settle h with ⟨d, hRun, rfl⟩
  rcases hm σ σ' d τ hσ hRun with ⟨d', τ', hRun', hd, hτ⟩
  refine ⟨d'.settled, τ', hRun'.settle, ?_, hτ⟩
  cases hd with
  | value hv => exact .value hv
  | returned hv => exact .value hv
  | failed e => exact .failed e

/-- It is enough that the ends of another run are met. -/
theorem of_ends {m : Run α} {m' m'' : Nat → Run α} (hm : Answers g m m')
    (h : ∀ σ c τ, Ends m' σ c τ → Ends m'' σ c τ) : Answers g m m'' := by
  intro σ σ' c τ hσ hRun
  rcases hm σ σ' c τ hσ hRun with ⟨c', τ', hRun', hEnd⟩
  exact ⟨c', τ', h _ _ _ hRun', hEnd⟩

theorem of_succ {m : Run α} {m' : Nat → Run α} (hm : Answers g m fun n => m' (n + 1)) :
    Answers g m m' :=
  hm.of_ends fun _ _ _ => Ends.of_succ

theorem singleton {m : Run Value} {s : ScopeId} {st : Stmt} {v : Value}
    (hm : Answers Value.spliced m fun n => evalStmt n s st) :
    Answers Value.spliced m fun n => evalStmts n s v [st] :=
  hm.of_ends fun _ _ _ => ends_stmts_singleton_iff.2

end Answers
end Run

/-! ## Every evaluation -/

theorem Value.eq_of_spliced_eq {v v' : Value} (h : v'.spliced = v.spliced)
    (hv : ∀ c, v ≠ .function c) : v' = v := by
  cases v with
  | function c => exact absurd rfl (hv c)
  | integer n =>
    cases v' <;> cases h
    rfl
  | boolean b =>
    cases v' <;> cases h
    rfl
  | null =>
    cases v' <;> cases h
    rfl

theorem Value.truthy_spliced (v : Value) : v.spliced.truthy = v.truthy := by
  cases v <;> rfl

theorem PrefixOp.apply_spliced (op : PrefixOp) (v : Value) : op.apply v.spliced = op.apply v := by
  cases op <;> cases v <;> rfl

theorem InfixOp.apply_spliced (op : InfixOp) (v w : Value) :
    op.apply v.spliced w.spliced = op.apply v w := by
  cases v <;> cases w <;> cases op <;> rfl

open Run (Answers)

/-- With `fuel` nested steps, whatever is equal when spliced is evaluated in agreement. -/
structure AnswersAt (fuel : Nat) : Prop where
  expr : ∀ s e e', e'.spliced = e.spliced →
    Answers Value.spliced (evalExpr fuel s e) fun n => evalExpr n s e'
  exprs : ∀ s es es', Expr.splicedAll es' = Expr.splicedAll es →
    Answers (List.map Value.spliced) (evalExprs fuel s es) fun n => evalExprs n s es'
  apply : ∀ f f' vs vs', f'.spliced = f.spliced →
    vs'.map Value.spliced = vs.map Value.spliced →
    Answers Value.spliced (applyValue fuel f vs) fun n => applyValue n f' vs'
  stmt : ∀ s st v ts, ts.map Stmt.within = st.spliced →
    Answers Value.spliced (evalStmt fuel s st) fun n => evalStmts n s v ts
  stmts : ∀ s v v' ss ts, v'.spliced = v.spliced → ts.map Stmt.within = Stmt.splicedAll ss →
    Answers Value.spliced (evalStmts fuel s v ss) fun n => evalStmts n s v' ts

namespace AnswersAt

variable {fuel : Nat}

/-- Without any step nothing ends. -/
theorem zero : AnswersAt 0 where
  expr s e e' h := by
    rw [evalExpr]
    exact .exhausted _
  exprs s es es' h := by
    rw [evalExprs]
    exact .exhausted _
  apply f f' vs vs' hf hvs := by
    rw [applyValue]
    exact .exhausted _
  stmt s st v ts h := by
    rw [evalStmt]
    exact .exhausted _
  stmts s v v' ss ts hv h := by
    rw [evalStmts]
    exact .exhausted _

/-- Statements are answered by all that are equal to them when spliced, with blocks of their
own. -/
theorem body (h : AnswersAt fuel) (s : ScopeId) {ss ss' : List Stmt}
    (hss : Stmt.splicedAll ss' = Stmt.splicedAll ss) :
    Answers Value.spliced (evalStmts fuel s .null ss) fun n => evalStmts n s .null ss' := by
  have hOpened := h.stmts s .null .null ss (Stmt.openedAll ss') rfl
    ((Stmt.splicedAll_eq_map ss').symm.trans hss)
  exact hOpened.of_ends fun σ c τ => (ends_openedAll_iff ss').1

theorem expr_succ (h : AnswersAt fuel) (s : ScopeId) (e e' : Expr) (he : e'.spliced = e.spliced) :
    Answers Value.spliced (evalExpr (fuel + 1) s e) fun n => evalExpr n s e' := by
  refine .of_succ ?_
  cases e with
  | ident name =>
      cases e' with
      | ident name' =>
          simp only [Expr.spliced, Expr.ident.injEq] at he
          subst he
          simp only [evalExpr]
          exact .lookUp s _
      | _ => simp [Expr.spliced, Expr.spliced_cond] at he
  | int n =>
      cases e' with
      | int n' =>
          simp only [Expr.spliced, Expr.int.injEq] at he
          subst he
          simp only [evalExpr]
          exact .pure rfl
      | _ => simp [Expr.spliced, Expr.spliced_cond] at he
  | bool b =>
      cases e' with
      | bool b' =>
          simp only [Expr.spliced, Expr.bool.injEq] at he
          subst he
          simp only [evalExpr]
          exact .pure rfl
      | _ => simp [Expr.spliced, Expr.spliced_cond] at he
  | prefixOp op right =>
      cases e' with
      | prefixOp op' right' =>
          simp only [Expr.spliced, Expr.prefixOp.injEq] at he
          obtain ⟨rfl, hRight⟩ := he
          simp only [evalExpr]
          refine (h.expr s right right' hRight).bind fun v v' hv => ?_
          rw [← op'.apply_spliced v, ← op'.apply_spliced v', hv]
          exact .ofExcept _
      | _ => simp [Expr.spliced, Expr.spliced_cond] at he
  | infixOp op left right =>
      cases e' with
      | infixOp op' left' right' =>
          simp only [Expr.spliced, Expr.infixOp.injEq] at he
          obtain ⟨rfl, hLeft, hRight⟩ := he
          simp only [evalExpr]
          refine (h.expr s left left' hLeft).bind fun v v' hv => ?_
          refine (h.expr s right right' hRight).bind fun w w' hw => ?_
          rw [← op'.apply_spliced v w, ← op'.apply_spliced v' w', hv, hw]
          exact .ofExcept _
      | _ => simp [Expr.spliced, Expr.spliced_cond] at he
  | cond condition yes no =>
      cases e' with
      | cond condition' yes' no' =>
          simp only [Expr.spliced_cond, Expr.cond.injEq] at he
          obtain ⟨hCondition, hYes, hNo⟩ := he
          simp only [evalExpr_cond]
          refine (h.expr s condition condition' hCondition).bind fun v v' hv => ?_
          rw [← v'.truthy_spliced, hv, v.truthy_spliced]
          split
          · exact h.body s hYes
          · cases no with
            | none =>
                cases no' with
                | none => exact .pure rfl
                | some _ => cases hNo
            | some body =>
                cases no' with
                | none => cases hNo
                | some body' => exact h.body s (Option.some.inj hNo)
      | _ => simp [Expr.spliced, Expr.spliced_cond] at he
  | fn parameters body =>
      cases e' with
      | fn parameters' body' =>
          simp only [Expr.spliced, Expr.fn.injEq] at he
          obtain ⟨rfl, hBody⟩ := he
          simp only [evalExpr]
          exact .close s parameters' hBody
      | _ => simp [Expr.spliced, Expr.spliced_cond] at he
  | call callee arguments =>
      cases e' with
      | call callee' arguments' =>
          simp only [Expr.spliced, Expr.call.injEq] at he
          obtain ⟨hCallee, hArguments⟩ := he
          simp only [evalExpr]
          refine (h.expr s callee callee' hCallee).bind fun f f' hf => ?_
          refine (h.exprs s arguments arguments' hArguments).bind fun vs vs' hvs => ?_
          exact h.apply f f' vs vs' hf hvs
      | _ => simp [Expr.spliced, Expr.spliced_cond] at he

theorem exprs_succ (h : AnswersAt fuel) (s : ScopeId) (es es' : List Expr)
    (hes : Expr.splicedAll es' = Expr.splicedAll es) :
    Answers (List.map Value.spliced) (evalExprs (fuel + 1) s es) fun n => evalExprs n s es' := by
  refine .of_succ ?_
  cases es with
  | nil =>
      cases es' with
      | nil =>
          simp only [evalExprs]
          exact .pure rfl
      | cons e' es' => simp [Expr.splicedAll] at hes
  | cons e es =>
      cases es' with
      | nil => simp [Expr.splicedAll] at hes
      | cons e' es' =>
          simp only [Expr.splicedAll, List.cons.injEq] at hes
          simp only [evalExprs]
          refine (h.expr s e e' hes.1).bind fun v v' hv => ?_
          refine (h.exprs s es es' hes.2).bind fun vs vs' hvs => ?_
          exact .pure (by rw [List.map_cons, List.map_cons, hv, hvs])

theorem apply_succ (h : AnswersAt fuel) (f f' : Value) (vs vs' : List Value)
    (hf : f'.spliced = f.spliced) (hvs : vs'.map Value.spliced = vs.map Value.spliced) :
    Answers Value.spliced (applyValue (fuel + 1) f vs) fun n => applyValue n f' vs' := by
  refine .of_succ ?_
  by_cases hFunction : ∃ c, f = .function c
  · obtain ⟨c, rfl⟩ := hFunction
    cases f' with
    | function c' =>
        simp only [Value.spliced, Closure.spliced, Value.function.injEq, Closure.mk.injEq] at hf
        obtain ⟨-, hParameters, hBody, hScope⟩ := hf
        have hCount : vs'.length = vs.length := by
          simpa only [List.length_map] using congrArg List.length hvs
        have hBindings : splicedBindings (rebindAll [] (c.parameters.zip vs')) =
            splicedBindings (rebindAll [] (c.parameters.zip vs)) := by
          simp only [splicedBindings_rebindAll, splicedBindings_zip, hvs]
        simp only [applyValue, hParameters, hScope, hCount]
        split
        · refine (Answers.openScope c.scope hBindings).bind fun s s' hs => ?_
          rw [show s' = s from hs]
          exact (h.body s hBody).settle
        · exact .fail _
    | integer n => cases hf
    | boolean b => cases hf
    | null => cases hf
  · have hSame : f' = f := Value.eq_of_spliced_eq hf fun c hc => hFunction ⟨c, hc⟩
    subst hSame
    cases f' with
    | function c => exact absurd ⟨c, rfl⟩ hFunction
    | integer n =>
        simp only [applyValue]
        exact .fail _
    | boolean b =>
        simp only [applyValue]
        exact .fail _
    | null =>
        simp only [applyValue]
        exact .fail _

/-- A statement that is no block, or an empty one, is met by a single one. -/
theorem exists_of_map_within {ts : List Stmt} {st : Stmt} (h : ts.map Stmt.within = [st]) :
    ∃ t, ts = [t] ∧ t.within = st := by
  simpa only [List.map_eq_singleton_iff] using h

theorem stmt_succ (h : AnswersAt fuel) (s : ScopeId) (st : Stmt) (v : Value) (ts : List Stmt)
    (hts : ts.map Stmt.within = st.spliced) :
    Answers Value.spliced (evalStmt (fuel + 1) s st) fun n => evalStmts n s v ts := by
  cases st with
  | bind name e =>
      rw [Stmt.spliced] at hts
      obtain ⟨t, rfl, ht⟩ := exists_of_map_within hts
      cases t with
      | bind name' e' =>
          simp only [Stmt.within, Stmt.bind.injEq] at ht
          obtain ⟨rfl, he⟩ := ht
          refine .singleton (.of_succ ?_)
          simp only [evalStmt]
          exact (h.expr s e e' he).bind fun w w' hw => .define s name' hw
      | _ => cases ht
  | ret e =>
      cases e with
      | none =>
          rw [Stmt.spliced] at hts
          obtain ⟨t, rfl, ht⟩ := exists_of_map_within hts
          cases t with
          | ret e' =>
              simp only [Stmt.within, Stmt.ret.injEq, Option.map_eq_none_iff] at ht
              subst ht
              refine .singleton (.of_succ ?_)
              simp only [evalStmt]
              exact .leave rfl
          | _ => cases ht
      | some e =>
          rw [Stmt.spliced] at hts
          obtain ⟨t, rfl, ht⟩ := exists_of_map_within hts
          cases t with
          | ret e' =>
              simp only [Stmt.within, Stmt.ret.injEq, Option.map_eq_some_iff] at ht
              obtain ⟨e', rfl, he⟩ := ht
              refine .singleton (.of_succ ?_)
              simp only [evalStmt]
              exact (h.expr s e e' he).bind fun w w' hw => .leave hw
          | _ => cases ht
  | expr e =>
      rw [Stmt.spliced] at hts
      obtain ⟨t, rfl, ht⟩ := exists_of_map_within hts
      cases t with
      | expr e' =>
          simp only [Stmt.within, Stmt.expr.injEq] at ht
          refine .singleton (.of_succ ?_)
          simp only [evalStmt]
          exact h.expr s e e' ht
      | _ => cases ht
  | block ss =>
      simp only [evalStmt]
      cases ss with
      | nil =>
          rw [Stmt.spliced] at hts
          obtain ⟨t, rfl, ht⟩ := exists_of_map_within hts
          cases t with
          | block ss' =>
              simp only [Stmt.within, Stmt.block.injEq] at ht
              subst ht
              refine .singleton (.of_succ ?_)
              simp only [evalStmt]
              exact h.body s rfl
          | _ => cases ht
      | cons st ss =>
          have hNonempty : ts ≠ [] := by
            rintro rfl
            exact Stmt.spliced_ne_nil _ hts.symm
          rw [Stmt.spliced_block (List.cons_ne_nil st ss)] at hts
          exact (h.stmts s .null .null (st :: ss) ts rfl hts).of_ends fun σ c τ =>
            (ends_stmts_start_iff hNonempty v).1

theorem stmts_succ (h : AnswersAt fuel) (s : ScopeId) (v v' : Value) (ss ts : List Stmt)
    (hv : v'.spliced = v.spliced) (hts : ts.map Stmt.within = Stmt.splicedAll ss) :
    Answers Value.spliced (evalStmts (fuel + 1) s v ss) fun n => evalStmts n s v' ts := by
  cases ss with
  | nil =>
      rw [Stmt.splicedAll, List.map_eq_nil_iff] at hts
      subst hts
      refine .of_succ ?_
      simp only [evalStmts]
      exact .pure hv
  | cons st ss =>
      rw [Stmt.splicedAll, List.map_eq_append_iff] at hts
      obtain ⟨before, after, rfl, hBefore, hAfter⟩ := hts
      simp only [evalStmts]
      have hBoth := (h.stmt s st v' before hBefore).bind
        fun w w' hw => h.stmts s w w' ss after hw hAfter
      refine hBoth.of_ends fun σ c τ hEnds => ?_
      rw [ends_stmts_append_iff]
      exact (Run.ends_bind_iff (evalStmts_growing s v' before) fun w =>
        evalStmts_growing s w after).1 hEnds

end AnswersAt

/-- Every evaluation is answered. -/
theorem answersAt (fuel : Nat) : AnswersAt fuel := by
  induction fuel with
  | zero => exact .zero
  | succ fuel ih => exact ⟨ih.expr_succ, ih.exprs_succ, ih.apply_succ, ih.stmt_succ, ih.stmts_succ⟩

/-! ## Programs -/

theorem Value.text_spliced (v : Value) : v.spliced.text = v.text := by
  cases v with
  | function c => simp only [Value.spliced, Closure.spliced, Value.text, Stmt.texts_splicedAll]
  | _ => rfl

/-- Two runs of programs that end alike: `r` and `τ` behind the one, `r'` and `τ'` behind the
other. -/
structure EndsRegrouped (r r' : Except EvalError Value) (τ τ' : Store) : Prop where
  /-- The results are equal up to how the body of a function is grouped. -/
  result : r'.map Value.spliced = r.map Value.spliced
  /-- Nothing else is only almost equal. -/
  plain : (∀ c, r ≠ .ok (.function c)) → r' = r
  text : r'.map Value.text = r.map Value.text
  /-- So are the bindings of every scope, of the same names in the same places. -/
  store : τ'.spliced = τ.spliced
  /-- In every scope the names mean what they mean in the other store. -/
  names : ∀ s name, (τ'.get? s name).map Value.spliced = (τ.get? s name).map Value.spliced

theorem Completion.Agrees.endsRegrouped {c c' : Completion Value} {τ τ' : Store}
    (hc : c.Agrees Value.spliced c') (hτ : τ'.spliced = τ.spliced) :
    EndsRegrouped c.result c'.result τ τ' := by
  have hNames : ∀ s name,
      (τ'.get? s name).map Value.spliced = (τ.get? s name).map Value.spliced := by
    intro s name
    rw [← Store.get?_spliced, ← Store.get?_spliced, hτ]
  have hOk : ∀ {v v' : Value}, v'.spliced = v.spliced → EndsRegrouped (.ok v) (.ok v') τ τ' := by
    intro v v' hv
    refine ⟨congrArg Except.ok hv, fun hPlain => ?_, ?_, hτ, hNames⟩
    · rw [Value.eq_of_spliced_eq hv fun c hFunction => hPlain c (congrArg Except.ok hFunction)]
    · exact congrArg Except.ok (by rw [← v'.text_spliced, hv, v.text_spliced])
  cases hc with
  | value hv => exact hOk hv
  | returned hv => exact hOk hv
  | failed e => exact ⟨rfl, fun _ => rfl, rfl, hτ, hNames⟩

/-- Programs that are equal when spliced end alike, each whenever the other one does. -/
theorem exists_eval_of_spliced_eq {p p' : Program} (hp : p'.spliced = p.spliced) {fuel : Nat}
    {s : ScopeId} {σ σ' τ : Store} {r : Except EvalError Value} (hσ : σ'.spliced = σ.spliced)
    (h : eval fuel p s σ = some (r, τ)) :
    ∃ more r' τ', eval more p' s σ' = some (r', τ') ∧ EndsRegrouped r r' τ τ' := by
  rcases Option.map_eq_some_iff.1 h with ⟨⟨c, υ⟩, hRun, hEnd⟩
  cases hEnd
  rcases (answersAt fuel).body s (congrArg Program.statements hp) σ σ' c τ hσ hRun with
    ⟨c', τ', ⟨more, hRun'⟩, hc, hτ⟩
  refine ⟨more, c'.result, τ', ?_, hc.endsRegrouped hτ⟩
  exact Option.map_eq_some_iff.2 ⟨(c', τ'), hRun' more (Nat.le_refl more), rfl⟩

/-- Splicing a program without empty blocks leaves it without any, and with the same text.  From
any scope of any store the one ends exactly if the other one does, and they end alike. -/
theorem spliced_ends_regrouped (p : Program) (h : [] ∉ p.blocks) :
    p.spliced.blocks = [] ∧ p.spliced.text = p.text ∧ ∀ (s : ScopeId) (σ : Store),
      (∀ fuel r τ, eval fuel p s σ = some (r, τ) →
        ∃ more r' τ', eval more p.spliced s σ = some (r', τ') ∧ EndsRegrouped r r' τ τ') ∧
      (∀ fuel r' τ', eval fuel p.spliced s σ = some (r', τ') →
        ∃ more r τ, eval more p s σ = some (r, τ) ∧ EndsRegrouped r' r τ' τ) := by
  have hAgain : p.spliced.spliced = p.spliced :=
    congrArg Program.mk (Stmt.splicedAll_splicedAll p.statements)
  refine ⟨Stmt.blocksAll_splicedAll p.statements h, Stmt.texts_splicedAll p.statements,
    fun s σ => ⟨fun fuel r τ hEval => ?_, fun fuel r' τ' hEval => ?_⟩⟩
  · exact exists_eval_of_spliced_eq hAgain rfl hEval
  · exact exists_eval_of_spliced_eq hAgain.symm rfl hEval

/-- The body of a function, with a block in a block. -/
def groupedBody : List Stmt :=
  [.block [.block [.ret (some (.ident "x"))], .expr (.ident "y")]]

/-- A function that is defined and called in blocks, and is the value of a block in a branch. -/
def groupedProgram : Program where
  statements :=
    [.block [.bind "f" (.fn ["x"] groupedBody),
        .block [.bind "y" (.call (.ident "f") [.int 2])]],
      .expr (.cond (.bool true) [.block [.expr (.ident "f")]] none)]

theorem spliced_ends_regrouped_sample :
    [] ∉ groupedProgram.blocks ∧ ∃ more r' τ',
      eval more groupedProgram.spliced 0 Store.fresh.2 = some (r', τ') ∧
        r'.map Value.text = .ok "fn(x) \x7b return x;y \x7d" := by
  have hFilled : [] ∉ groupedProgram.blocks := by decide
  have hEval : eval 16 groupedProgram 0 Store.fresh.2 =
      some (.ok (.function ⟨0, ["x"], groupedBody, 0⟩),
        ⟨#[⟨none, [("f", .function ⟨0, ["x"], groupedBody, 0⟩), ("y", .integer 2)]⟩,
          ⟨some 0, [("x", .integer 2)]⟩], 1⟩) := by
    with_unfolding_all rfl
  rcases ((spliced_ends_regrouped groupedProgram hFilled).2.2 0 Store.fresh.2).1 16 _ _ hEval with
    ⟨more, r', τ', hSpliced, hEnds⟩
  refine ⟨hFilled, more, r', τ', hSpliced, hEnds.text.trans ?_⟩
  with_unfolding_all rfl

end MonkeyLang
