import MonkeyLang.Eval.Program
import MonkeyLang.Proofs.Eval.Confined

/-!
# Unread — names that nothing looks up

A name is used where it stands as an expression; a `let` or a parameter of the name is no use of it.
A program that does not use a name, and can get hold of no function whose body does, takes the same
course whatever that name means in any one scope.  The name may be bound again on the way, by a
`let` or as a parameter, and other names are looked up through the altered scope.

Two stores that are the same but for one name in one scope (`Store.SameBut`) stay so as the two runs
proceed in step, and the functions that the runs get hold of are confined to scopes in which no
function uses the name (`Store.Twins`).
-/

namespace MonkeyLang

/-! ## Names that are used -/

mutual

/-- The names that stand as expressions in an expression, those in the bodies of function literals
included. -/
def Expr.uses : Expr → List String
  | .ident name => [name]
  | .int _ => []
  | .bool _ => []
  | .prefixOp _ right => right.uses
  | .infixOp _ left right => left.uses ++ right.uses
  | .cond condition consequence none => condition.uses ++ Stmt.usesList consequence
  | .cond condition consequence (some alternative) =>
      condition.uses ++ (Stmt.usesList consequence ++ Stmt.usesList alternative)
  | .fn _ body => Stmt.usesList body
  | .call callee arguments => callee.uses ++ Expr.usesList arguments

def Expr.usesList : List Expr → List String
  | [] => []
  | e :: es => e.uses ++ Expr.usesList es

def Stmt.uses : Stmt → List String
  | .bind _ value => value.uses
  | .ret none => []
  | .ret (some value) => value.uses
  | .expr value => value.uses
  | .block body => Stmt.usesList body

def Stmt.usesList : List Stmt → List String
  | [] => []
  | s :: ss => s.uses ++ Stmt.usesList ss

end

def Program.uses (p : Program) : List String :=
  Stmt.usesList p.statements

/-- The body of the closure does not use the name. -/
def Closure.Ignores (z : String) (c : Closure) : Prop :=
  z ∉ Stmt.usesList c.body

/-! ## Stores that are the same but for one name -/

namespace Store

/-- The stores are the same, but that the name `z` may be bound to different values in the scope
`t`, or in one of the stores only. -/
structure SameBut (t : ScopeId) (z : String) (σ σ' : Store) : Prop where
  size_eq : σ'.scopes.size = σ.scopes.size
  closures_eq : σ'.closures = σ.closures
  scopes : ∀ s, Option.Rel
    (fun a a' => a'.enclosing = a.enclosing ∧
      ∀ name, ¬ (s = t ∧ name = z) → a'.find? name = a.find? name)
    σ.scopes[s]? σ'.scopes[s]?

namespace SameBut

variable {t : ScopeId} {z : String} {σ σ' : Store}

theorem of_define (σ : Store) (t : ScopeId) (z : String) (v : Value) :
    σ.SameBut t z (σ.define t z v) where
  size_eq := by simp [Store.define]
  closures_eq := rfl
  scopes s := by
    simp only [Store.define, Array.getElem?_modify]
    by_cases hs : t = s
    · rw [if_pos hs]
      cases σ.scopes[s]? with
      | none => exact .none
      | some a =>
          refine .some ⟨rfl, fun name hName => ?_⟩
          exact Scope.find?_insert_of_ne a v fun h => hName ⟨hs.symm, h⟩
    · rw [if_neg hs]
      exact optionRel_refl fun a _ => ⟨rfl, fun _ _ => rfl⟩

/-- Every other name means the same, from whatever scope it is looked up. -/
theorem get?_eq (h : σ.SameBut t z σ') {name : String} (hName : name ≠ z) (s : ScopeId) :
    σ'.get? s name = σ.get? s name := by
  -- by the way outward, which is the same in both stores
  induction s using Nat.strongRecOn with
  | ind s ih =>
      rw [Store.get?, Store.get?]
      have hScope := h.scopes s
      generalize σ.scopes[s]? = found, σ'.scopes[s]? = found' at hScope
      cases hScope with
      | none => rfl
      | @some a a' hSame =>
          simp only [hSame.1, hSame.2 name fun hEq => hName hEq.2]
          cases a.find? name with
          | some v => rfl
          | none =>
              cases a.enclosing with
              | none => rfl
              | some o =>
                  by_cases ho : o < s
                  · simp only [if_pos ho, ih o ho]
                  · simp only [if_neg ho]

/-- A name that is bound in both stores. -/
theorem define (h : σ.SameBut t z σ') (s : ScopeId) (name : String) (v : Value) :
    (σ.define s name v).SameBut t z (σ'.define s name v) where
  size_eq := by simp [Store.define, h.size_eq]
  closures_eq := h.closures_eq
  scopes u := by
    have hScope := h.scopes u
    simp only [Store.define, Array.getElem?_modify]
    generalize σ.scopes[u]? = found, σ'.scopes[u]? = found' at hScope
    split
    · cases hScope with
      | none => exact .none
      | @some a a' hSame =>
          refine .some ⟨hSame.1, fun n hn => ?_⟩
          by_cases hEq : n = name
          · rw [hEq, Scope.find?_insert_self, Scope.find?_insert_self]
          · rw [Scope.find?_insert_of_ne a v hEq, Scope.find?_insert_of_ne a' v hEq]
            exact hSame.2 n hn
    · exact hScope

theorem openScope (h : σ.SameBut t z σ') (enclosing : Option ScopeId)
    (bs : List (String × Value)) :
    (σ.openScope enclosing bs).2.SameBut t z (σ'.openScope enclosing bs).2 where
  size_eq := by simp [Store.openScope, h.size_eq]
  closures_eq := h.closures_eq
  scopes s := by
    simp only [Store.openScope, Array.getElem?_push, h.size_eq]
    split
    · exact .some ⟨rfl, fun _ _ => rfl⟩
    · exact h.scopes s

theorem close (h : σ.SameBut t z σ') (s : ScopeId) (parameters : List String) (body : List Stmt) :
    (σ.close s parameters body).2.SameBut t z (σ'.close s parameters body).2 where
  size_eq := h.size_eq
  closures_eq := congrArg Nat.succ h.closures_eq
  scopes := h.scopes

end SameBut

/-- The stores are the same but for one name in one scope, and no function that is bound in one of
the scopes `S` uses that name. -/
structure Twins (t : ScopeId) (z : String) (S : ScopeId → Prop) (σ σ' : Store) : Prop where
  same : σ.SameBut t z σ'
  confined : σ.Confines (Closure.Ignores z) S

end Store

/-! ## Runs in both stores -/

open Store (Twins)

namespace Run

variable {α β : Type} {t : ScopeId} {z : String} {S T : ScopeId → Prop} {σ σ' τ τ' : Store}
  {R : (ScopeId → Prop) → α → Prop} {Q : (ScopeId → Prop) → β → Prop}

/-- The run takes the same course in both stores: it ends in the same way or not at all, with what
`R` says of a value, and leaves stores that are the same again but for the one name. -/
def Steady (t : ScopeId) (z : String) (R : (ScopeId → Prop) → α → Prop) (S : ScopeId → Prop)
    (σ σ' : Store) (m : Run α) : Prop :=
  Option.Rel
    (fun end_ end_' => end_'.1 = end_.1 ∧ ∃ T, S ≤ T ∧ Twins t z T end_.2 end_'.2 ∧
      end_.1.Confined (Closure.Ignores z) T (R T) fun _ => True)
    (m σ) (m σ')

/-- What comes to a function comes to one whose body does not use the name. -/
abbrev SteadyValue (t : ScopeId) (z : String) :
    (ScopeId → Prop) → Store → Store → Run Value → Prop :=
  Steady t z (Value.Confined (Closure.Ignores z))

namespace Steady

theorem exhausted : Steady t z R S σ σ' Run.exhausted :=
  .none

/-- A run with one end. -/
theorem of_eq {m : Run α} {c : Completion α} (hm : m σ = some (c, τ)) (hm' : m σ' = some (c, τ'))
    (hS : S ≤ T) (h : Twins t z T τ τ')
    (hc : c.Confined (Closure.Ignores z) T (R T) fun _ => True) : Steady t z R S σ σ' m := by
  rw [Steady, hm, hm']
  exact .some ⟨rfl, T, hS, h, hc⟩

theorem pure (h : Twins t z S σ σ') {a : α} (ha : R S a) : Steady t z R S σ σ' (Run.pure a) :=
  of_eq rfl rfl le_rfl h ha

theorem leave (h : Twins t z S σ σ') {v : Value} (hv : v.Confined (Closure.Ignores z) S) :
    Steady t z R S σ σ' (Run.leave v) :=
  of_eq rfl rfl le_rfl h hv

theorem fail (h : Twins t z S σ σ') (e : EvalError) : Steady t z R S σ σ' (Run.fail e) :=
  of_eq rfl rfl le_rfl h trivial

theorem ofExcept (h : Twins t z S σ σ') {r : Except EvalError Value}
    (hr : ∀ v, r = .ok v → v.type ≠ .function) :
    SteadyValue t z S σ σ' (Run.ofExcept r) := by
  cases r with
  | ok v => exact pure h (.of_type_ne _ S (hr v rfl))
  | error e => exact fail h e

theorem lookUp (h : Twins t z S σ σ') {s : ScopeId} (hs : S s) {name : String} (hName : name ≠ z) :
    SteadyValue t z S σ σ' (Run.lookUp s name) := by
  have hSame := h.same.get?_eq hName s
  cases hGet : σ.get? s name with
  | some v =>
      have hGet' := hSame.trans hGet
      refine of_eq (c := .value v) ?_ ?_ le_rfl h (h.confined.of_get? hs hGet)
      · simp only [Run.lookUp, hGet]
      · simp only [Run.lookUp, hGet']
  | none =>
      have hGet' := hSame.trans hGet
      refine of_eq (c := .failed (.identifierNotFound name)) ?_ ?_ le_rfl h trivial
      · simp only [Run.lookUp, hGet]
      · simp only [Run.lookUp, hGet']

theorem define (h : Twins t z S σ σ') (s : ScopeId) (name : String) {v : Value}
    (hv : v.Confined (Closure.Ignores z) S) :
    SteadyValue t z S σ σ' (Run.define s name v) :=
  of_eq rfl rfl le_rfl ⟨h.same.define s name v, h.confined.define s name hv⟩ hv

/-- The closures that are made have the same number. -/
theorem close (h : Twins t z S σ σ') {s : ScopeId} (hs : S s) (parameters : List String)
    {body : List Stmt} (hBody : z ∉ Stmt.usesList body) :
    SteadyValue t z S σ σ' (Run.close s parameters body) := by
  refine of_eq (c := .value (.function ⟨σ.closures, parameters, body, s⟩)) rfl ?_ le_rfl
    ⟨h.same.close s parameters body, h.confined.close s parameters body⟩ ⟨hBody, hs⟩
  simp only [Run.close, Store.close, h.same.closures_eq]

/-- The scopes that are opened have the same number. -/
theorem openScope (h : Twins t z S σ σ') {o : ScopeId} (ho : S o) {bs : List (String × Value)}
    (hbs : ∀ name v, bs.lookup name = some v → v.Confined (Closure.Ignores z) S) :
    Steady t z (fun T s => T s) S σ σ' (Run.openScope o bs) := by
  refine of_eq (c := .value σ.scopes.size) rfl ?_ (fun s hs => .inl hs)
    ⟨h.same.openScope (some o) bs, h.confined.openScope ho hbs⟩ (.inr rfl)
  simp only [Run.openScope, Store.openScope, h.same.size_eq]

/-- One run and, behind it, whatever goes on with its value. -/
theorem bind {m : Run α} {f : α → Run β} (hm : Steady t z R S σ σ' m)
    (hf : ∀ T τ τ' a, S ≤ T → Twins t z T τ τ' → R T a → Steady t z Q T τ τ' (f a)) :
    Steady t z Q S σ σ' (m >>= f) := by
  change Option.Rel _ (Run.bind m f σ) (Run.bind m f σ')
  unfold Run.bind
  unfold Steady at hm
  generalize m σ = end_, m σ' = end_' at hm
  cases hm with
  | none => exact .none
  | @some end_ end_' hEnds =>
      obtain ⟨c, τ⟩ := end_
      obtain ⟨c', τ'⟩ := end_'
      rcases hEnds with ⟨hSame, T, hS, hTwins, hc⟩
      change c' = c at hSame
      subst hSame
      cases c' with
      | value a =>
          -- what goes on from the larger set of scopes goes on from the smaller one
          refine optionRel_mono (hf T τ τ' a hS hTwins hc) ?_
          rintro _ _ ⟨hSame, U, hT, hEnd⟩
          exact ⟨hSame, U, hS.trans hT, hEnd⟩
      | returned v => exact .some ⟨rfl, T, hS, hTwins, hc⟩
      | failed e => exact .some ⟨rfl, T, hS, hTwins, trivial⟩

theorem settle {m : Run Value} (hm : SteadyValue t z S σ σ' m) :
    SteadyValue t z S σ σ' (Run.settle m) := by
  unfold SteadyValue Steady at hm ⊢
  unfold Run.settle
  generalize m σ = end_, m σ' = end_' at hm
  cases hm with
  | none => exact .none
  | @some end_ end_' hEnds =>
      obtain ⟨c, τ⟩ := end_
      obtain ⟨c', τ'⟩ := end_'
      rcases hEnds with ⟨hSame, T, hS, hTwins, hc⟩
      change c' = c at hSame
      subst hSame
      cases c' with
      | value v => exact .some ⟨rfl, T, hS, hTwins, hc⟩
      | returned v => exact .some ⟨rfl, T, hS, hTwins, hc⟩
      | failed e => exact .some ⟨rfl, T, hS, hTwins, trivial⟩

/-- The results are equal, and so are the stores but for the one name. -/
theorem outcome_rel {m : Run Value} (hm : SteadyValue t z S σ σ' m) :
    Option.Rel (fun end_ end_' => end_'.1 = end_.1 ∧ end_.2.SameBut t z end_'.2)
      (m.outcome σ) (m.outcome σ') := by
  unfold SteadyValue Steady at hm
  unfold Run.outcome
  generalize m σ = end_, m σ' = end_' at hm
  cases hm with
  | none => exact .none
  | some hEnds =>
      rcases hEnds with ⟨hSame, T, -, hTwins, -⟩
      exact .some ⟨congrArg Completion.result hSame, hTwins.same⟩

end Steady
end Run

/-! ## Every evaluation -/

open Run (Steady SteadyValue)

/-- With `fuel` nested steps, whatever does not use the name takes the same course in both stores,
and so do calls of functions whose bodies do not use it. -/
structure SteadyAt (t : ScopeId) (z : String) (fuel : Nat) : Prop where
  expr : ∀ S σ σ' s e, Twins t z S σ σ' → S s → z ∉ e.uses →
    SteadyValue t z S σ σ' (evalExpr fuel s e)
  exprs : ∀ S σ σ' s es, Twins t z S σ σ' → S s → z ∉ Expr.usesList es →
    Steady t z (fun T vs => ∀ v ∈ vs, v.Confined (Closure.Ignores z) T) S σ σ'
      (evalExprs fuel s es)
  apply : ∀ S σ σ' f vs, Twins t z S σ σ' → f.Confined (Closure.Ignores z) S →
    (∀ v ∈ vs, v.Confined (Closure.Ignores z) S) →
    SteadyValue t z S σ σ' (applyValue fuel f vs)
  stmt : ∀ S σ σ' s st, Twins t z S σ σ' → S s → z ∉ st.uses →
    SteadyValue t z S σ σ' (evalStmt fuel s st)
  stmts : ∀ S σ σ' s v ss, Twins t z S σ σ' → S s → v.Confined (Closure.Ignores z) S →
    z ∉ Stmt.usesList ss →
    SteadyValue t z S σ σ' (evalStmts fuel s v ss)

namespace SteadyAt

variable {t : ScopeId} {z : String} {fuel : Nat}

/-- Without any step nothing ends. -/
theorem zero : SteadyAt t z 0 where
  expr S σ σ' s e h hs he := by
    rw [evalExpr]
    exact .exhausted
  exprs S σ σ' s es h hs hes := by
    rw [evalExprs]
    exact .exhausted
  apply S σ σ' f vs h hf hvs := by
    rw [applyValue]
    exact .exhausted
  stmt S σ σ' s st h hs hst := by
    rw [evalStmt]
    exact .exhausted
  stmts S σ σ' s v ss h hs hv hss := by
    rw [evalStmts]
    exact .exhausted

theorem expr_succ (ih : SteadyAt t z fuel) (S : ScopeId → Prop) (σ σ' : Store) (s : ScopeId)
    (e : Expr) (h : Twins t z S σ σ') (hs : S s) (he : z ∉ e.uses) :
    SteadyValue t z S σ σ' (evalExpr (fuel + 1) s e) := by
  cases e with
  | ident name =>
      simp only [evalExpr]
      have hName : name ≠ z := fun hEq => he (List.mem_singleton.2 hEq.symm)
      exact .lookUp h hs hName
  | int n =>
      simp only [evalExpr]
      exact .pure h trivial
  | bool b =>
      simp only [evalExpr]
      exact .pure h trivial
  | prefixOp op right =>
      simp only [evalExpr]
      refine (ih.expr S σ σ' s right h hs he).bind fun T τ τ' v _ hτ _ => ?_
      exact .ofExcept hτ fun w => op.type_apply_ne
  | infixOp op left right =>
      simp only [evalExpr]
      simp only [Expr.uses, List.mem_append, not_or] at he
      refine (ih.expr S σ σ' s left h hs he.1).bind fun T τ τ' v hS hτ _ => ?_
      refine (ih.expr T τ τ' s right hτ (hS s hs) he.2).bind fun U υ υ' w _ hυ _ => ?_
      exact .ofExcept hυ fun u => op.type_apply_ne
  | cond condition consequence alternative =>
      cases alternative with
      | none =>
          simp only [evalExpr]
          simp only [Expr.uses, List.mem_append, not_or] at he
          refine (ih.expr S σ σ' s condition h hs he.1).bind fun T τ τ' v hS hτ _ => ?_
          split
          · exact ih.stmts T τ τ' s .null consequence hτ (hS s hs) trivial he.2
          · exact .pure hτ trivial
      | some body =>
          simp only [evalExpr]
          simp only [Expr.uses, List.mem_append, not_or] at he
          refine (ih.expr S σ σ' s condition h hs he.1).bind fun T τ τ' v hS hτ _ => ?_
          split
          · exact ih.stmts T τ τ' s .null consequence hτ (hS s hs) trivial he.2.1
          · exact ih.stmts T τ τ' s .null body hτ (hS s hs) trivial he.2.2
  | fn parameters body =>
      simp only [evalExpr]
      exact .close h hs parameters he
  | call callee arguments =>
      simp only [evalExpr]
      simp only [Expr.uses, List.mem_append, not_or] at he
      refine (ih.expr S σ σ' s callee h hs he.1).bind fun T τ τ' f hS hτ hf => ?_
      refine (ih.exprs T τ τ' s arguments hτ (hS s hs) he.2).bind fun U υ υ' vs hT hυ hvs => ?_
      exact ih.apply U υ υ' f vs hυ (hf.mono (fun _ hc => hc) hT) hvs

theorem exprs_succ (ih : SteadyAt t z fuel) (S : ScopeId → Prop) (σ σ' : Store) (s : ScopeId)
    (es : List Expr) (h : Twins t z S σ σ') (hs : S s) (hes : z ∉ Expr.usesList es) :
    Steady t z (fun T vs => ∀ v ∈ vs, v.Confined (Closure.Ignores z) T) S σ σ'
      (evalExprs (fuel + 1) s es) := by
  cases es with
  | nil =>
      simp only [evalExprs]
      exact .pure h (List.forall_mem_nil _)
  | cons e es =>
      simp only [evalExprs]
      simp only [Expr.usesList, List.mem_append, not_or] at hes
      refine (ih.expr S σ σ' s e h hs hes.1).bind fun T τ τ' v hS hτ hv => ?_
      refine (ih.exprs T τ τ' s es hτ (hS s hs) hes.2).bind fun U υ υ' vs hT hυ hvs => ?_
      exact .pure hυ (List.forall_mem_cons.2 ⟨hv.mono (fun _ hc => hc) hT, hvs⟩)

theorem apply_succ (ih : SteadyAt t z fuel) (S : ScopeId → Prop) (σ σ' : Store) (f : Value)
    (vs : List Value) (h : Twins t z S σ σ') (hf : f.Confined (Closure.Ignores z) S)
    (hvs : ∀ v ∈ vs, v.Confined (Closure.Ignores z) S) :
    SteadyValue t z S σ σ' (applyValue (fuel + 1) f vs) := by
  cases f with
  | function c =>
      simp only [applyValue]
      split
      · -- a parameter may be the name itself; it is bound to the same value in both stores
        have hBindings : ∀ name v, (rebindAll [] (c.parameters.zip vs)).lookup name = some v →
            v.Confined (Closure.Ignores z) S := fun name v hv =>
          hvs v (mem_of_lookup_rebindAll hv)
        refine (Steady.openScope h hf.2 hBindings).bind fun T τ τ' s _ hτ hs => ?_
        exact (ih.stmts T τ τ' s .null c.body hτ hs trivial hf.1).settle
      · exact .fail h _
  | integer n =>
      simp only [applyValue]
      exact .fail h _
  | boolean b =>
      simp only [applyValue]
      exact .fail h _
  | null =>
      simp only [applyValue]
      exact .fail h _

theorem stmt_succ (ih : SteadyAt t z fuel) (S : ScopeId → Prop) (σ σ' : Store) (s : ScopeId)
    (st : Stmt) (h : Twins t z S σ σ') (hs : S s) (hst : z ∉ st.uses) :
    SteadyValue t z S σ σ' (evalStmt (fuel + 1) s st) := by
  cases st with
  | bind name e =>
      simp only [evalStmt]
      exact (ih.expr S σ σ' s e h hs hst).bind fun T τ τ' v _ hτ hv => .define hτ s name hv
  | ret value =>
      cases value with
      | none =>
          simp only [evalStmt]
          exact .leave h trivial
      | some e =>
          simp only [evalStmt]
          exact (ih.expr S σ σ' s e h hs hst).bind fun T τ τ' v _ hτ hv => .leave hτ hv
  | expr e =>
      simp only [evalStmt]
      exact ih.expr S σ σ' s e h hs hst
  | block body =>
      simp only [evalStmt]
      exact ih.stmts S σ σ' s .null body h hs trivial hst

theorem stmts_succ (ih : SteadyAt t z fuel) (S : ScopeId → Prop) (σ σ' : Store) (s : ScopeId)
    (v : Value) (ss : List Stmt) (h : Twins t z S σ σ') (hs : S s)
    (hv : v.Confined (Closure.Ignores z) S) (hss : z ∉ Stmt.usesList ss) :
    SteadyValue t z S σ σ' (evalStmts (fuel + 1) s v ss) := by
  cases ss with
  | nil =>
      simp only [evalStmts]
      exact .pure h hv
  | cons st ss =>
      simp only [evalStmts]
      simp only [Stmt.usesList, List.mem_append, not_or] at hss
      refine (ih.stmt S σ σ' s st h hs hss.1).bind fun T τ τ' w hS hτ hw => ?_
      exact ih.stmts T τ τ' s w ss hτ (hS s hs) hw hss.2

end SteadyAt

theorem steadyAt (t : ScopeId) (z : String) (fuel : Nat) : SteadyAt t z fuel := by
  induction fuel with
  | zero => exact .zero
  | succ fuel ih => exact ⟨ih.expr_succ, ih.exprs_succ, ih.apply_succ, ih.stmt_succ, ih.stmts_succ⟩

/-! ## Programs -/

/-- Let a program not use the name `z`, nor any function that can be reached from the scope that it
is run in.  Then it makes no difference if `z` is first bound to any value in any one scope, over
an earlier binding or not: the program ends as it did or goes on for ever as it did, with the same
value or the same error, and leaves the same store but for `z` in that scope. -/
theorem eval_define_of_unread (p : Program) (s : ScopeId) (σ : Store) (z : String)
    (hProgram : z ∉ p.uses)
    (hBodies : ∀ c, σ.ReachesClosure ⟨[s], []⟩ c → z ∉ Stmt.usesList c.body)
    (fuel : Nat) (t : ScopeId) (v : Value) :
    Option.Rel (fun end_ end_' => end_'.1 = end_.1 ∧ end_.2.SameBut t z end_'.2)
      (eval fuel p s σ) (eval fuel p s (σ.define t z v)) := by
  have hTwins : Twins t z (σ.Reaches ⟨[s], []⟩) σ (σ.define t z v) :=
    ⟨.of_define σ t z v, Store.confines_reaches hBodies⟩
  have hStart : σ.Reaches ⟨[s], []⟩ s := .scope List.mem_cons_self
  exact ((steadyAt t z fuel).stmts _ _ _ s .null p.statements hTwins hStart trivial
    hProgram).outcome_rel

/-- A program that makes a function with a parameter `z`, and calls it. -/
def shadowingProgram : Program :=
  ⟨[.bind "g" (.fn ["z"] [.expr (.call (.ident "f") [.ident "y"])]),
    .expr (.call (.ident "g") [.int 7])]⟩

/-- The name is bound in the scope of the program already, and bound again by the call. -/
theorem eval_define_of_unread_sample :
    ∃ τ τ', eval 14 shadowingProgram 1 sampleStore = some (.ok (.integer 3), τ) ∧
      eval 14 shadowingProgram 1 (sampleStore.define 1 "z" (.boolean true)) =
        some (.ok (.integer 3), τ') ∧
      τ.get? 1 "z" = some (.integer 3) ∧ τ'.get? 1 "z" = some (.boolean true) ∧
      τ.SameBut 1 "z" τ' := by
  have hLeft : eval 14 shadowingProgram 1 sampleStore =
      some (.ok (.integer 3),
        ⟨#[sampleScope,
          ⟨some 0, [("y", .integer 2), ("z", .integer 3),
            ("g", .function ⟨1, ["z"], [.expr (.call (.ident "f") [.ident "y"])], 1⟩)]⟩,
          ⟨some 1, [("z", .integer 7)]⟩,
          ⟨some 0, [("x", .integer 2), ("y", .integer 2)]⟩], 2⟩) := by
    with_unfolding_all rfl
  have hRight : eval 14 shadowingProgram 1 (sampleStore.define 1 "z" (.boolean true)) =
      some (.ok (.integer 3),
        ⟨#[sampleScope,
          ⟨some 0, [("y", .integer 2), ("z", .boolean true),
            ("g", .function ⟨1, ["z"], [.expr (.call (.ident "f") [.ident "y"])], 1⟩)]⟩,
          ⟨some 1, [("z", .integer 7)]⟩,
          ⟨some 0, [("x", .integer 2), ("y", .integer 2)]⟩], 2⟩) := by
    with_unfolding_all rfl
  have hBodies : ∀ c, sampleStore.ReachesClosure ⟨[1], []⟩ c → "z" ∉ Stmt.usesList c.body := by
    intro c hc
    rcases hc.mem_bindings with ⟨scope, hScope, name, hBound⟩
    simp only [sampleStore, sampleScope, List.mem_toArray, List.mem_cons, List.not_mem_nil,
      or_false] at hScope
    rcases hScope with rfl | rfl
    · simp only [List.mem_singleton, Prod.mk.injEq, Value.function.injEq] at hBound
      rw [hBound.2]
      decide
    · simp at hBound
  have hSame := eval_define_of_unread shadowingProgram 1 sampleStore "z" (by decide) hBodies 14 1
    (.boolean true)
  rw [hLeft, hRight] at hSame
  cases hSame with
  | some hSame =>
      exact ⟨_, _, hLeft, hRight, Store.get?_of_found rfl rfl, Store.get?_of_found rfl rfl,
        hSame.2⟩

end MonkeyLang
