import MonkeyLang.Proofs.Eval.Repetition

/-!
# Proper — stores that can be built

A store is proper if every number in it belongs to a scope or a closure of it, and every scope was
opened behind the one around it.  The empty store is proper, new scopes and closures keep it so, and
whatever is evaluated in a scope of a proper store leaves a proper store, and comes to a value of
that store (`keepsAt`).  So all stores are proper that are ever reached.

Values stay values of a store when it grows (`Store.Holds.mono`).  The statement about a run says
that the store grows and what holds of the value it comes to (`Run.Keeps`), and is carried through
every evaluation.
-/

namespace MonkeyLang

namespace Store

/-- A store without dangling numbers in which every scope was opened behind the one around it. -/
structure Proper (σ : Store) : Prop extends σ.WellFormed where
  nested : ∀ {s o : ScopeId} {scope : Scope}, σ.scopes[s]? = some scope →
    scope.enclosing = some o → o < s

instance (σ : Store) (v : Value) : Decidable (σ.Holds v) :=
  match v with
  | .function c => inferInstanceAs (Decidable (c.id < σ.closures ∧ c.scope < σ.scopes.size))
  | .integer _ | .boolean _ | .null => .isTrue trivial

/-- Whether a store is proper can be read off its scopes. -/
theorem Proper.of_scopes {σ : Store}
    (hOuter : ∀ s, (h : s < σ.scopes.size) → ∀ o ∈ σ.scopes[s].enclosing, o < s)
    (hValues : ∀ scope ∈ σ.scopes, ∀ binding ∈ scope.bindings, σ.Holds binding.2) :
    σ.Proper := by
  have hNested : ∀ {s o : ScopeId} {scope : Scope}, σ.scopes[s]? = some scope →
      scope.enclosing = some o → o < s := by
    intro s o scope hScope ho
    rcases Array.getElem?_eq_some_iff.1 hScope with ⟨hs, rfl⟩
    exact hOuter s hs o ho
  exact
    { enclosing := fun hScope ho =>
        Nat.lt_trans (hNested hScope ho) (Array.getElem?_eq_some_iff.1 hScope).1
      bindings := by
        intro s scope name v hScope hv
        rcases List.lookup_eq_some_iff.1 hv with ⟨before, after, hBindings, -⟩
        refine hValues scope (Array.mem_of_getElem? hScope) (name, v) ?_
        rw [hBindings]
        exact List.mem_append_right before List.mem_cons_self
      nested := hNested }

theorem proper_empty : empty.Proper :=
  .of_scopes (by decide) (by decide)

/-! ## Stores that grow -/

/-- There are as many scopes and closures, or more. -/
structure Within (σ τ : Store) : Prop where
  size_le : σ.scopes.size ≤ τ.scopes.size
  closures_le : σ.closures ≤ τ.closures

theorem Within.refl (σ : Store) : σ.Within σ :=
  ⟨Nat.le_refl _, Nat.le_refl _⟩

theorem Within.trans {σ τ υ : Store} (h : σ.Within τ) (h' : τ.Within υ) : σ.Within υ :=
  ⟨Nat.le_trans h.size_le h'.size_le, Nat.le_trans h.closures_le h'.closures_le⟩

theorem Holds.mono {σ τ : Store} {v : Value} (hv : σ.Holds v) (h : σ.Within τ) : τ.Holds v := by
  cases v with
  | function c =>
      exact ⟨Nat.lt_of_lt_of_le hv.1 h.closures_le, Nat.lt_of_lt_of_le hv.2 h.size_le⟩
  | integer n => trivial
  | boolean b => trivial
  | null => trivial

theorem Holds.of_type_ne (σ : Store) {v : Value} (h : v.type ≠ .function) : σ.Holds v := by
  cases v with
  | function c => exact absurd rfl h
  | integer n => trivial
  | boolean b => trivial
  | null => trivial

/-! ## Single changes -/

namespace Proper

variable {σ : Store}

/-- What a name means in a proper store is a value of it. -/
theorem holds_of_get? (hσ : σ.Proper) {s : ScopeId} {name : String} {v : Value}
    (h : σ.get? s name = some v) : σ.Holds v := by
  -- by the way outward
  induction s using Nat.strongRecOn with
  | ind s ih =>
      rw [get?] at h
      cases hScope : σ.scopes[s]? with
      | none => simp [hScope] at h
      | some scope =>
          simp only [hScope] at h
          cases hFound : scope.find? name with
          | some w =>
              simp only [hFound, Option.some.injEq] at h
              subst h
              exact hσ.bindings hScope hFound
          | none =>
              simp only [hFound] at h
              cases hOuter : scope.enclosing with
              | none => simp [hOuter] at h
              | some o =>
                  simp only [hOuter, hσ.nested hScope hOuter, if_true] at h
                  exact ih o (hσ.nested hScope hOuter) h

theorem define (hσ : σ.Proper) (s : ScopeId) (name : String) {v : Value} (hv : σ.Holds v) :
    (σ.define s name v).Proper ∧ σ.Within (σ.define s name v) := by
  have hSize : (σ.define s name v).scopes.size = σ.scopes.size := by simp [Store.define]
  have hWithin : σ.Within (σ.define s name v) := ⟨Nat.le_of_eq hSize.symm, Nat.le_refl _⟩
  refine ⟨⟨⟨?_, ?_⟩, ?_⟩, hWithin⟩
  · intro t o scope hScope ho
    rcases bindings_of_define hScope with ⟨old, hOld, hEnclosing, -⟩
    rw [hSize]
    exact hσ.enclosing hOld (hEnclosing.symm.trans ho)
  · intro t scope n w hScope hw
    rcases bindings_of_define hScope with ⟨old, hOld, -, hBindings⟩
    rcases hBindings n w hw with rfl | hOldBinding
    · exact hv.mono hWithin
    · exact (hσ.bindings hOld hOldBinding).mono hWithin
  · intro t o scope hScope ho
    rcases bindings_of_define hScope with ⟨old, hOld, hEnclosing, -⟩
    exact hσ.nested hOld (hEnclosing.symm.trans ho)

theorem openScope (hσ : σ.Proper) {enclosing : Option ScopeId}
    (ho : ∀ o ∈ enclosing, o < σ.scopes.size) {bs : List (String × Value)}
    (hbs : ∀ name v, bs.lookup name = some v → σ.Holds v) :
    (σ.openScope enclosing bs).2.Proper ∧ σ.Within (σ.openScope enclosing bs).2 := by
  have hWithin : σ.Within (σ.openScope enclosing bs).2 :=
    ⟨by simp [Store.openScope], Nat.le_refl _⟩
  refine ⟨⟨⟨?_, ?_⟩, ?_⟩, hWithin⟩
  · intro t p scope hScope hp
    rcases scope_of_openScope hScope with hOld | ⟨rfl, rfl⟩
    · exact Nat.lt_of_lt_of_le (hσ.enclosing hOld hp) hWithin.size_le
    · exact Nat.lt_of_lt_of_le (ho p hp) hWithin.size_le
  · intro t scope name v hScope hv
    rcases scope_of_openScope hScope with hOld | ⟨rfl, rfl⟩
    · exact (hσ.bindings hOld hv).mono hWithin
    · exact (hbs name v hv).mono hWithin
  · intro t p scope hScope hp
    rcases scope_of_openScope hScope with hOld | ⟨rfl, rfl⟩
    · exact hσ.nested hOld hp
    · exact ho p hp

theorem close (hσ : σ.Proper) (s : ScopeId) (parameters : List String) (body : List Stmt) :
    (σ.close s parameters body).2.Proper ∧ σ.Within (σ.close s parameters body).2 := by
  have hWithin : σ.Within (σ.close s parameters body).2 := ⟨Nat.le_refl _, Nat.le_succ _⟩
  exact ⟨⟨⟨hσ.enclosing, fun hScope hv => (hσ.bindings hScope hv).mono hWithin⟩, hσ.nested⟩,
    hWithin⟩

end Proper
end Store

/-! ## Runs -/

/-- What holds of a value holds at an end with one; a `return` carries a value of the store. -/
def Completion.Holds {α : Type} (P : Store → α → Prop) (τ : Store) : Completion α → Prop
  | .value a => P τ a
  | .returned v => τ.Holds v
  | .failed _ => True

namespace Run

variable {α β : Type} {σ : Store} {P : Store → α → Prop} {Q : Store → β → Prop}

/-- However the run ends, the store is proper then and has only grown, and what it comes to is as
`P` says. -/
def Keeps (P : Store → α → Prop) (m : Run α) (σ : Store) : Prop :=
  ∀ c τ, m σ = some (c, τ) → τ.Proper ∧ σ.Within τ ∧ c.Holds P τ

namespace Keeps

theorem exhausted (P : Store → α → Prop) (σ : Store) : Keeps P Run.exhausted σ := by
  intro c τ h
  cases h

/-- A run with one end. -/
theorem of_eq {m : Run α} {c : Completion α} {τ : Store} (hRun : m σ = some (c, τ))
    (hτ : τ.Proper ∧ σ.Within τ) (hc : c.Holds P τ) : Keeps P m σ := by
  intro d υ h
  rw [hRun] at h
  cases h
  exact ⟨hτ.1, hτ.2, hc⟩

theorem pure (hσ : σ.Proper) {a : α} (ha : P σ a) : Keeps P (Run.pure a) σ :=
  of_eq rfl ⟨hσ, .refl σ⟩ ha

theorem leave (hσ : σ.Proper) {v : Value} (hv : σ.Holds v) : Keeps P (Run.leave v) σ :=
  of_eq rfl ⟨hσ, .refl σ⟩ hv

theorem fail (hσ : σ.Proper) (e : EvalError) : Keeps P (Run.fail e) σ :=
  of_eq rfl ⟨hσ, .refl σ⟩ trivial

theorem ofExcept (hσ : σ.Proper) {r : Except EvalError Value}
    (h : ∀ v, r = .ok v → v.type ≠ .function) : Keeps Store.Holds (Run.ofExcept r) σ := by
  cases r with
  | ok v => exact pure hσ (.of_type_ne σ (h v rfl))
  | error e => exact fail hσ e

theorem lookUp (hσ : σ.Proper) (s : ScopeId) (name : String) :
    Keeps Store.Holds (Run.lookUp s name) σ := by
  cases hGet : σ.get? s name with
  | some v =>
      have hRun : Run.lookUp s name σ = some (.value v, σ) := by simp only [Run.lookUp, hGet]
      exact of_eq hRun ⟨hσ, .refl σ⟩ (hσ.holds_of_get? hGet)
  | none =>
      have hRun : Run.lookUp s name σ = some (.failed (.identifierNotFound name), σ) := by
        simp only [Run.lookUp, hGet]
      exact of_eq hRun ⟨hσ, .refl σ⟩ trivial

theorem define (hσ : σ.Proper) (s : ScopeId) (name : String) {v : Value} (hv : σ.Holds v) :
    Keeps Store.Holds (Run.define s name v) σ :=
  of_eq rfl (hσ.define s name hv) (hv.mono (hσ.define s name hv).2)

theorem close (hσ : σ.Proper) {s : ScopeId} (hs : s < σ.scopes.size) (parameters : List String)
    (body : List Stmt) : Keeps Store.Holds (Run.close s parameters body) σ :=
  of_eq rfl (hσ.close s parameters body) ⟨Nat.lt_succ_self _, hs⟩

/-- The new scope is one of the store. -/
theorem openScope (hσ : σ.Proper) {o : ScopeId} (ho : o < σ.scopes.size)
    {bs : List (String × Value)} (hbs : ∀ name v, bs.lookup name = some v → σ.Holds v) :
    Keeps (fun τ s => s < τ.scopes.size) (Run.openScope o bs) σ := by
  have hOuter : ∀ p ∈ some o, p < σ.scopes.size := fun p hp => Option.some.inj hp ▸ ho
  refine of_eq rfl (hσ.openScope hOuter hbs) ?_
  show σ.scopes.size < (σ.scopes.push _).size
  rw [Array.size_push]
  exact Nat.lt_succ_self _

/-- One run and, behind it, whatever goes on with its value. -/
theorem bind {m : Run α} {f : α → Run β} (hm : Keeps P m σ)
    (hf : ∀ a τ, τ.Proper → σ.Within τ → P τ a → Keeps Q (f a) τ) : Keeps Q (m >>= f) σ := by
  intro c υ h
  change Run.bind m f σ = some (c, υ) at h
  unfold Run.bind at h
  cases hFirst : m σ with
  | none => simp [hFirst] at h
  | some end_ =>
      obtain ⟨d, τ⟩ := end_
      rcases hm d τ hFirst with ⟨hτ, hWithin, hd⟩
      rw [hFirst] at h
      cases d with
      | value a =>
          rcases hf a τ hτ hWithin hd c υ h with ⟨hυ, hWithin', hc⟩
          exact ⟨hυ, hWithin.trans hWithin', hc⟩
      | returned v =>
          cases h
          exact ⟨hτ, hWithin, hd⟩
      | failed e =>
          cases h
          exact ⟨hτ, hWithin, trivial⟩

theorem settle {m : Run Value} (hm : Keeps Store.Holds m σ) :
    Keeps Store.Holds (Run.settle m) σ := by
  intro c τ h
  unfold Run.settle at h
  cases hRun : m σ with
  | none => simp [hRun] at h
  | some end_ =>
      obtain ⟨d, υ⟩ := end_
      have hEnd := hm d υ hRun
      rw [hRun] at h
      cases d with
      | value v =>
          cases h
          exact hEnd
      | returned v =>
          cases h
          exact hEnd
      | failed e =>
          cases h
          exact hEnd

end Keeps
end Run

/-- The bindings of parameters to values of a store. -/
theorem holds_of_lookup_rebindAll {σ : Store} {pairs : List (String × Value)}
    (hPairs : ∀ pair ∈ pairs, σ.Holds pair.2) :
    ∀ bs : List (String × Value), (∀ name v, bs.lookup name = some v → σ.Holds v) →
      ∀ name v, (rebindAll bs pairs).lookup name = some v → σ.Holds v := by
  induction pairs with
  | nil => exact fun bs hbs => hbs
  | cons pair pairs ih =>
      intro bs hbs
      have hFirst : σ.Holds pair.2 := hPairs pair List.mem_cons_self
      refine ih (fun p hp => hPairs p (List.mem_cons_of_mem _ hp)) _ fun name v hv => ?_
      by_cases hName : name = pair.1
      · rw [hName, lookup_rebind_self] at hv
        rwa [← Option.some.inj hv]
      · rw [lookup_rebind_of_ne pair.2 bs hName] at hv
        exact hbs name v hv

/-! ## Every evaluation -/

open Run (Keeps)

/-- With `fuel` nested steps, whatever is evaluated in a scope of a proper store keeps it proper
and comes to a value of it, and so do calls of its functions with arguments from it. -/
structure KeepsAt (fuel : Nat) : Prop where
  expr : ∀ σ s e, σ.Proper → s < σ.scopes.size → Keeps Store.Holds (evalExpr fuel s e) σ
  exprs : ∀ σ s es, σ.Proper → s < σ.scopes.size →
    Keeps (fun τ vs => ∀ v ∈ vs, τ.Holds v) (evalExprs fuel s es) σ
  apply : ∀ σ f vs, σ.Proper → σ.Holds f → (∀ v ∈ vs, σ.Holds v) →
    Keeps Store.Holds (applyValue fuel f vs) σ
  stmt : ∀ σ s st, σ.Proper → s < σ.scopes.size → Keeps Store.Holds (evalStmt fuel s st) σ
  stmts : ∀ σ s v ss, σ.Proper → s < σ.scopes.size → σ.Holds v →
    Keeps Store.Holds (evalStmts fuel s v ss) σ

namespace KeepsAt

variable {fuel : Nat}

/-- Without any step nothing ends. -/
theorem zero : KeepsAt 0 where
  expr σ s e hσ hs := by
    rw [evalExpr]
    exact .exhausted _ σ
  exprs σ s es hσ hs := by
    rw [evalExprs]
    exact .exhausted _ σ
  apply σ f vs hσ hf hvs := by
    rw [applyValue]
    exact .exhausted _ σ
  stmt σ s st hσ hs := by
    rw [evalStmt]
    exact .exhausted _ σ
  stmts σ s v ss hσ hs hv := by
    rw [evalStmts]
    exact .exhausted _ σ

theorem expr_succ (h : KeepsAt fuel) (σ : Store) (s : ScopeId) (e : Expr) (hσ : σ.Proper)
    (hs : s < σ.scopes.size) : Keeps Store.Holds (evalExpr (fuel + 1) s e) σ := by
  cases e with
  | ident name =>
      simp only [evalExpr]
      exact .lookUp hσ s name
  | int n =>
      simp only [evalExpr]
      exact .pure hσ trivial
  | bool b =>
      simp only [evalExpr]
      exact .pure hσ trivial
  | prefixOp op right =>
      simp only [evalExpr]
      refine (h.expr σ s right hσ hs).bind fun v τ hτ _ _ => ?_
      exact .ofExcept hτ fun w => op.type_apply_ne
  | infixOp op left right =>
      simp only [evalExpr]
      refine (h.expr σ s left hσ hs).bind fun v τ hτ hWithin _ => ?_
      have hs' := Nat.lt_of_lt_of_le hs hWithin.size_le
      refine (h.expr τ s right hτ hs').bind fun w υ hυ _ _ => ?_
      exact .ofExcept hυ fun u => op.type_apply_ne
  | cond condition consequence alternative =>
      cases alternative with
      | none =>
          simp only [evalExpr]
          refine (h.expr σ s condition hσ hs).bind fun v τ hτ hWithin _ => ?_
          have hs' := Nat.lt_of_lt_of_le hs hWithin.size_le
          split
          · exact h.stmts τ s .null consequence hτ hs' trivial
          · exact .pure hτ trivial
      | some body =>
          simp only [evalExpr]
          refine (h.expr σ s condition hσ hs).bind fun v τ hτ hWithin _ => ?_
          have hs' := Nat.lt_of_lt_of_le hs hWithin.size_le
          split
          · exact h.stmts τ s .null consequence hτ hs' trivial
          · exact h.stmts τ s .null body hτ hs' trivial
  | fn parameters body =>
      simp only [evalExpr]
      exact .close hσ hs parameters body
  | call callee arguments =>
      simp only [evalExpr]
      refine (h.expr σ s callee hσ hs).bind fun f τ hτ hWithin hf => ?_
      have hs' := Nat.lt_of_lt_of_le hs hWithin.size_le
      refine (h.exprs τ s arguments hτ hs').bind fun vs υ hυ hWithin' hvs => ?_
      -- the function is a value of the store that the arguments left, too
      exact h.apply υ f vs hυ (hf.mono hWithin') hvs

theorem exprs_succ (h : KeepsAt fuel) (σ : Store) (s : ScopeId) (es : List Expr) (hσ : σ.Proper)
    (hs : s < σ.scopes.size) :
    Keeps (fun τ vs => ∀ v ∈ vs, τ.Holds v) (evalExprs (fuel + 1) s es) σ := by
  cases es with
  | nil =>
      simp only [evalExprs]
      exact .pure hσ (List.forall_mem_nil _)
  | cons e es =>
      simp only [evalExprs]
      refine (h.expr σ s e hσ hs).bind fun v τ hτ hWithin hv => ?_
      have hs' := Nat.lt_of_lt_of_le hs hWithin.size_le
      refine (h.exprs τ s es hτ hs').bind fun vs υ hυ hWithin' hvs => ?_
      exact .pure hυ (List.forall_mem_cons.2 ⟨hv.mono hWithin', hvs⟩)

theorem apply_succ (h : KeepsAt fuel) (σ : Store) (f : Value) (vs : List Value) (hσ : σ.Proper)
    (hf : σ.Holds f) (hvs : ∀ v ∈ vs, σ.Holds v) :
    Keeps Store.Holds (applyValue (fuel + 1) f vs) σ := by
  cases f with
  | function c =>
      simp only [applyValue]
      split
      · have hPairs : ∀ pair ∈ c.parameters.zip vs, σ.Holds pair.2 := fun pair hPair =>
          hvs pair.2 (List.of_mem_zip hPair).2
        have hBindings := holds_of_lookup_rebindAll hPairs [] (by simp)
        refine (Keeps.openScope hσ hf.2 hBindings).bind fun s τ hτ _ hs => ?_
        exact (h.stmts τ s .null c.body hτ hs trivial).settle
      · exact .fail hσ _
  | integer n =>
      simp only [applyValue]
      exact .fail hσ _
  | boolean b =>
      simp only [applyValue]
      exact .fail hσ _
  | null =>
      simp only [applyValue]
      exact .fail hσ _

theorem stmt_succ (h : KeepsAt fuel) (σ : Store) (s : ScopeId) (st : Stmt) (hσ : σ.Proper)
    (hs : s < σ.scopes.size) : Keeps Store.Holds (evalStmt (fuel + 1) s st) σ := by
  cases st with
  | bind name e =>
      simp only [evalStmt]
      exact (h.expr σ s e hσ hs).bind fun v τ hτ _ hv => .define hτ s name hv
  | ret value =>
      cases value with
      | none =>
          simp only [evalStmt]
          exact .leave hσ trivial
      | some e =>
          simp only [evalStmt]
          exact (h.expr σ s e hσ hs).bind fun v τ hτ _ hv => .leave hτ hv
  | expr e =>
      simp only [evalStmt]
      exact h.expr σ s e hσ hs
  | block body =>
      simp only [evalStmt]
      exact h.stmts σ s .null body hσ hs trivial

theorem stmts_succ (h : KeepsAt fuel) (σ : Store) (s : ScopeId) (v : Value) (ss : List Stmt)
    (hσ : σ.Proper) (hs : s < σ.scopes.size) (hv : σ.Holds v) :
    Keeps Store.Holds (evalStmts (fuel + 1) s v ss) σ := by
  cases ss with
  | nil =>
      simp only [evalStmts]
      exact .pure hσ hv
  | cons st ss =>
      simp only [evalStmts]
      refine (h.stmt σ s st hσ hs).bind fun w τ hτ hWithin hw => ?_
      exact h.stmts τ s w ss hτ (Nat.lt_of_lt_of_le hs hWithin.size_le) hw

end KeepsAt

theorem keepsAt (fuel : Nat) : KeepsAt fuel := by
  induction fuel with
  | zero => exact .zero
  | succ fuel ih => exact ⟨ih.expr_succ, ih.exprs_succ, ih.apply_succ, ih.stmt_succ, ih.stmts_succ⟩

/-! ## Outcomes -/

theorem Run.Keeps.of_outcome {m : Run Value} {σ τ : Store} {r : Except EvalError Value}
    (hm : Run.Keeps Store.Holds m σ) (h : m.outcome σ = some (r, τ)) :
    τ.Proper ∧ σ.Within τ ∧ ∀ v, r = .ok v → τ.Holds v := by
  rcases Option.map_eq_some_iff.1 h with ⟨⟨c, υ⟩, hRun, hResult⟩
  cases hResult
  rcases hm c τ hRun with ⟨hτ, hWithin, hc⟩
  refine ⟨hτ, hWithin, fun v hv => ?_⟩
  cases c with
  | value w =>
      cases hv
      exact hc
  | returned w =>
      cases hv
      exact hc
  | failed e => cases hv

end MonkeyLang
