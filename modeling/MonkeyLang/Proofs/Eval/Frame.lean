import MonkeyLang.Eval.Program

/-!
# Frame — what an evaluation leaves alone

An evaluation in a scope writes into that scope and into scopes that it opens itself.  Every other
scope stays as it was, whichever closures are called on the way.  In the scope itself bindings
are only added or replaced, and only those of names that stand behind a `let` of the program
outside the bodies of its function literals.

Two relations between stores carry the proof.  `Store.Extends` is what calls do: the store gets
new scopes and nothing else changes.  `Store.Framed` is what evaluation in a scope does.  The body
of a call is evaluated in a new scope, and a new scope is not seen by `Store.Extends`, so the
statement about calls needs nothing to be known about the body of the closure.
-/

namespace MonkeyLang

/-! ## Names that are bound -/

mutual

/-- The names that `let` binds in an expression, outside the bodies of function literals. -/
def Expr.lets : Expr → List String
  | .ident _ => []
  | .int _ => []
  | .bool _ => []
  | .prefixOp _ right => right.lets
  | .infixOp _ left right => left.lets ++ right.lets
  | .cond condition consequence none => condition.lets ++ Stmt.letsList consequence
  | .cond condition consequence (some alternative) =>
      condition.lets ++ (Stmt.letsList consequence ++ Stmt.letsList alternative)
  | .fn _ _ => []
  | .call callee arguments => callee.lets ++ Expr.letsList arguments

def Expr.letsList : List Expr → List String
  | [] => []
  | e :: es => e.lets ++ Expr.letsList es

def Stmt.lets : Stmt → List String
  | .bind name value => name :: value.lets
  | .ret none => []
  | .ret (some value) => value.lets
  | .expr value => value.lets
  | .block body => Stmt.letsList body

def Stmt.letsList : List Stmt → List String
  | [] => []
  | s :: ss => s.lets ++ Stmt.letsList ss

end

def Program.lets (p : Program) : List String :=
  Stmt.letsList p.statements

/-! ## One scope -/

/-- No binding of the scope is gone, and only bindings of `names` are new or replaced. -/
structure Scope.Rebound (names : List String) (scope scope' : Scope) : Prop where
  enclosing : scope'.enclosing = scope.enclosing
  kept : ∀ name, (scope.find? name).isSome → (scope'.find? name).isSome
  same : ∀ name, name ∉ names → scope'.find? name = scope.find? name

namespace Scope.Rebound

variable {names names' : List String} {scope scope' scope'' : Scope}

theorem refl (names : List String) (scope : Scope) : Scope.Rebound names scope scope :=
  ⟨rfl, fun _ h => h, fun _ _ => rfl⟩

theorem trans (h : Scope.Rebound names scope scope') (h' : Scope.Rebound names scope' scope'') :
    Scope.Rebound names scope scope'' where
  enclosing := h'.enclosing.trans h.enclosing
  kept name hName := h'.kept name (h.kept name hName)
  same name hName := (h'.same name hName).trans (h.same name hName)

theorem mono (h : Scope.Rebound names scope scope') (hNames : names ⊆ names') :
    Scope.Rebound names' scope scope' where
  enclosing := h.enclosing
  kept := h.kept
  same name hName := h.same name fun hMem => hName (hNames hMem)

theorem insert {name : String} (hName : name ∈ names) (scope : Scope) (v : Value) :
    Scope.Rebound names scope (scope.insert name v) where
  enclosing := rfl
  kept other hOther := by
    -- the name itself is bound now, and the others are bound as before
    by_cases h : other = name
    · rw [h, Scope.find?_insert_self, Option.isSome_some]
    · rwa [Scope.find?_insert_of_ne scope v h]
  same other hOther := by
    have h : other ≠ name := fun h => hOther (h ▸ hName)
    exact Scope.find?_insert_of_ne scope v h

end Scope.Rebound

/-! ## All scopes -/

namespace Store

/-- All scopes are as they were; there may be more of them, and more closures. -/
structure Extends (σ σ' : Store) : Prop where
  size_le : σ.scopes.size ≤ σ'.scopes.size
  closures_le : σ.closures ≤ σ'.closures
  same : ∀ t < σ.scopes.size, σ'.scopes[t]? = σ.scopes[t]?

/-- All scopes but `s` are as they were, and in `s` only `names` were bound.  There may be more
scopes and more closures. -/
structure Framed (s : ScopeId) (names : List String) (σ σ' : Store) : Prop where
  size_le : σ.scopes.size ≤ σ'.scopes.size
  closures_le : σ.closures ≤ σ'.closures
  same : ∀ t < σ.scopes.size, t ≠ s → σ'.scopes[t]? = σ.scopes[t]?
  own : ∀ scope, σ.scopes[s]? = some scope →
    ∃ scope', σ'.scopes[s]? = some scope' ∧ Scope.Rebound names scope scope'

namespace Extends

variable {σ σ' σ'' : Store}

theorem refl (σ : Store) : σ.Extends σ :=
  ⟨Nat.le_refl _, Nat.le_refl _, fun _ _ => rfl⟩

theorem openScope (σ : Store) (enclosing : Option ScopeId) (bindings : List (String × Value)) :
    σ.Extends (σ.openScope enclosing bindings).2 where
  size_le := by simp [Store.openScope]
  closures_le := Nat.le_refl _
  same t ht := by
    have hPush : (σ.scopes.push ⟨enclosing, bindings⟩)[t]? = some σ.scopes[t] :=
      Array.getElem?_push_lt ht
    exact hPush.trans (Array.getElem?_eq_getElem ht).symm

theorem close (σ : Store) (s : ScopeId) (parameters : List String) (body : List Stmt) :
    σ.Extends (σ.close s parameters body).2 :=
  ⟨Nat.le_refl _, Nat.le_succ _, fun _ _ => rfl⟩

theorem framed (h : σ.Extends σ') (s : ScopeId) (names : List String) : Framed s names σ σ' where
  size_le := h.size_le
  closures_le := h.closures_le
  same t ht _ := h.same t ht
  own scope hScope := by
    have ht : s < σ.scopes.size := (Array.getElem?_eq_some_iff.1 hScope).1
    exact ⟨scope, (h.same s ht).trans hScope, .refl names scope⟩

end Extends

namespace Framed

variable {s : ScopeId} {names names' : List String} {σ σ' σ'' : Store}

theorem trans (h : Framed s names σ σ') (h' : Framed s names σ' σ'') : Framed s names σ σ'' where
  size_le := Nat.le_trans h.size_le h'.size_le
  closures_le := Nat.le_trans h.closures_le h'.closures_le
  same t ht hne :=
    (h'.same t (Nat.lt_of_lt_of_le ht h.size_le) hne).trans (h.same t ht hne)
  own scope hScope := by
    rcases h.own scope hScope with ⟨scope', hScope', hRebound⟩
    rcases h'.own scope' hScope' with ⟨scope'', hScope'', hRebound'⟩
    exact ⟨scope'', hScope'', hRebound.trans hRebound'⟩

theorem mono (h : Framed s names σ σ') (hNames : names ⊆ names') : Framed s names' σ σ' where
  size_le := h.size_le
  closures_le := h.closures_le
  same := h.same
  own scope hScope := by
    rcases h.own scope hScope with ⟨scope', hScope', hRebound⟩
    exact ⟨scope', hScope', hRebound.mono hNames⟩

theorem define {name : String} (hName : name ∈ names) (s : ScopeId) (σ : Store) (v : Value) :
    Framed s names σ (σ.define s name v) where
  size_le := by simp [Store.define]
  closures_le := Nat.le_refl _
  same t _ hne := by
    simp only [Store.define, Array.getElem?_modify, if_neg hne.symm]
  own scope hScope := by
    refine ⟨scope.insert name v, ?_, .insert hName scope v⟩
    simp only [Store.define, Array.getElem?_modify, if_true, hScope, Option.map_some]

/-- What happens in a scope opened just before is no change of the scopes that were there. -/
theorem extends_of_openScope {enclosing : Option ScopeId} {bindings : List (String × Value)}
    (h : Framed σ.scopes.size names (σ.openScope enclosing bindings).2 σ') : σ.Extends σ' where
  size_le := Nat.le_trans (Extends.openScope σ enclosing bindings).size_le h.size_le
  closures_le := h.closures_le
  same t ht := by
    have hOpen := Extends.openScope σ enclosing bindings
    have hSame := h.same t (Nat.lt_of_lt_of_le ht hOpen.size_le) (Nat.ne_of_lt ht)
    exact hSame.trans (hOpen.same t ht)

end Framed
end Store

/-! ## Runs -/

namespace Run

variable {α β : Type} {s : ScopeId} {names names' : List String}

/-- Whatever way the run ends, it only extends the store. -/
def Extends (m : Run α) : Prop :=
  ∀ σ c σ', m σ = some (c, σ') → σ.Extends σ'

/-- Whatever way the run ends, it touches the scope `s` only, and there only `names`. -/
def Framed (s : ScopeId) (names : List String) (m : Run α) : Prop :=
  ∀ σ c σ', m σ = some (c, σ') → Store.Framed s names σ σ'

theorem Extends.framed {m : Run α} (h : m.Extends) (s : ScopeId) (names : List String) :
    m.Framed s names :=
  fun σ c σ' hRun => (h σ c σ' hRun).framed s names

namespace Extends

theorem exhausted : (Run.exhausted : Run α).Extends := by
  intro σ c σ' h
  cases h

/-- A run that leaves the store as it was. -/
theorem of_same {m : Run α} (h : ∀ σ c σ', m σ = some (c, σ') → σ' = σ) : m.Extends := by
  intro σ c σ' hRun
  rw [h σ c σ' hRun]
  exact .refl σ

theorem pure (a : α) : (Run.pure a).Extends :=
  of_same fun σ c σ' h => by
    cases h
    rfl

theorem leave (v : Value) : (Run.leave v : Run α).Extends :=
  of_same fun σ c σ' h => by
    cases h
    rfl

theorem fail (e : EvalError) : (Run.fail e : Run α).Extends :=
  of_same fun σ c σ' h => by
    cases h
    rfl

theorem ofExcept (r : Except EvalError α) : (Run.ofExcept r).Extends := by
  cases r with
  | ok a => exact pure a
  | error e => exact fail e

theorem lookUp (s : ScopeId) (name : String) : (Run.lookUp s name).Extends := by
  refine of_same fun σ c σ' h => ?_
  unfold Run.lookUp at h
  split at h
  · cases h
    rfl
  · cases h
    rfl

theorem close (s : ScopeId) (parameters : List String) (body : List Stmt) :
    (Run.close s parameters body).Extends := by
  intro σ c σ' h
  cases h
  exact .close σ s parameters body

/-- What is done in a new scope only extends the store. -/
theorem in_openScope {enclosing : ScopeId} {bindings : List (String × Value)}
    {f : ScopeId → Run Value} (hf : ∀ s, (f s).Framed s names) :
    (Run.openScope enclosing bindings >>= fun s => Run.settle (f s)).Extends := by
  intro σ c σ' h
  -- the new scope has the number that no scope had
  change Run.settle (f σ.scopes.size) (σ.openScope (some enclosing) bindings).2 = _ at h
  unfold Run.settle at h
  cases hBody : f σ.scopes.size (σ.openScope (some enclosing) bindings).2 with
  | none => simp [hBody] at h
  | some end_ =>
      obtain ⟨c', σ''⟩ := end_
      -- to settle the body does not touch the store
      have hStore : σ'' = σ' := by
        rw [hBody] at h
        cases c' <;> cases h <;> rfl
      subst hStore
      exact (hf _ _ _ _ hBody).extends_of_openScope

end Extends

namespace Framed

theorem mono {m : Run α} (h : m.Framed s names) (hNames : names ⊆ names') : m.Framed s names' :=
  fun σ c σ' hRun => (h σ c σ' hRun).mono hNames

theorem define {name : String} (hName : name ∈ names) (s : ScopeId) (v : Value) :
    (Run.define s name v).Framed s names := by
  intro σ c σ' h
  cases h
  exact .define hName s σ v

theorem bind {m : Run α} {f : α → Run β} (hm : m.Framed s names)
    (hf : ∀ a, (f a).Framed s names) : (m >>= f).Framed s names := by
  intro σ c σ' h
  change Run.bind m f σ = some (c, σ') at h
  unfold Run.bind at h
  cases hFirst : m σ with
  | none => simp [hFirst] at h
  | some end_ =>
      obtain ⟨c', σ''⟩ := end_
      have hFramed := hm σ c' σ'' hFirst
      rw [hFirst] at h
      -- only a value lets the second run begin
      cases c' with
      | value a => exact hFramed.trans (hf a σ'' c σ' h)
      | returned v =>
          cases h
          exact hFramed
      | failed e =>
          cases h
          exact hFramed

/-- One run after another touches what either of them touches. -/
theorem seq {m : Run α} {f : α → Run β} (hm : m.Framed s names)
    (hf : ∀ a, (f a).Framed s names') : (m >>= f).Framed s (names ++ names') := by
  have hFirst := hm.mono (List.subset_append_left names names')
  exact hFirst.bind fun a => (hf a).mono (List.subset_append_right names names')

end Framed
end Run

/-! ## Every evaluation -/

/-- With `fuel` nested steps, calls extend the store, and evaluation in a scope touches that scope
only. -/
structure FramedAt (fuel : Nat) : Prop where
  expr : ∀ s e, (evalExpr fuel s e).Framed s e.lets
  exprs : ∀ s es, (evalExprs fuel s es).Framed s (Expr.letsList es)
  apply : ∀ f vs, (applyValue fuel f vs).Extends
  stmt : ∀ s st, (evalStmt fuel s st).Framed s st.lets
  stmts : ∀ s v ss, (evalStmts fuel s v ss).Framed s (Stmt.letsList ss)

namespace FramedAt

variable {fuel : Nat}

/-- Without any step nothing ends. -/
theorem zero : FramedAt 0 where
  expr s e := by
    rw [evalExpr]
    exact Run.Extends.exhausted.framed s _
  exprs s es := by
    rw [evalExprs]
    exact Run.Extends.exhausted.framed s _
  apply f vs := by
    rw [applyValue]
    exact .exhausted
  stmt s st := by
    rw [evalStmt]
    exact Run.Extends.exhausted.framed s _
  stmts s v ss := by
    rw [evalStmts]
    exact Run.Extends.exhausted.framed s _

theorem expr_succ (h : FramedAt fuel) (s : ScopeId) (e : Expr) :
    (evalExpr (fuel + 1) s e).Framed s e.lets := by
  cases e with
  | ident name =>
      simp only [evalExpr]
      exact (Run.Extends.lookUp s name).framed s _
  | int n =>
      simp only [evalExpr]
      exact (Run.Extends.pure _).framed s _
  | bool b =>
      simp only [evalExpr]
      exact (Run.Extends.pure _).framed s _
  | prefixOp op right =>
      simp only [evalExpr, Expr.lets]
      exact (h.expr s right).bind fun v => (Run.Extends.ofExcept _).framed s _
  | infixOp op left right =>
      simp only [evalExpr, Expr.lets]
      refine (h.expr s left).seq fun v => ?_
      exact (h.expr s right).bind fun w => (Run.Extends.ofExcept _).framed s _
  | cond condition consequence alternative =>
      -- whichever branch is taken, its names are among those of the conditional
      cases alternative with
      | none =>
          simp only [evalExpr, Expr.lets]
          refine (h.expr s condition).seq fun v => ?_
          split
          · exact h.stmts s .null consequence
          · exact (Run.Extends.pure _).framed s _
      | some body =>
          simp only [evalExpr, Expr.lets]
          refine (h.expr s condition).seq fun v => ?_
          split
          · exact (h.stmts s .null consequence).mono (List.subset_append_left _ _)
          · exact (h.stmts s .null body).mono (List.subset_append_right _ _)
  | fn parameters body =>
      -- the body is not evaluated, and its `let` statements bind nothing here
      simp only [evalExpr]
      exact (Run.Extends.close s parameters body).framed s _
  | call callee arguments =>
      simp only [evalExpr, Expr.lets]
      refine (h.expr s callee).seq fun f => ?_
      exact (h.exprs s arguments).bind fun vs => (h.apply f vs).framed s _

theorem exprs_succ (h : FramedAt fuel) (s : ScopeId) (es : List Expr) :
    (evalExprs (fuel + 1) s es).Framed s (Expr.letsList es) := by
  cases es with
  | nil =>
      simp only [evalExprs]
      exact (Run.Extends.pure _).framed s _
  | cons e es =>
      simp only [evalExprs, Expr.letsList]
      refine (h.expr s e).seq fun v => ?_
      exact (h.exprs s es).bind fun vs => (Run.Extends.pure _).framed s _

theorem apply_succ (h : FramedAt fuel) (f : Value) (vs : List Value) :
    (applyValue (fuel + 1) f vs).Extends := by
  cases f with
  | function c =>
      simp only [applyValue]
      split
      · -- the body writes into the scope of the call, which is not there before it
        exact .in_openScope fun s => h.stmts s .null c.body
      · exact .fail _
  | _ =>
      simp only [applyValue]
      exact .fail _

theorem stmt_succ (h : FramedAt fuel) (s : ScopeId) (st : Stmt) :
    (evalStmt (fuel + 1) s st).Framed s st.lets := by
  cases st with
  | bind name e =>
      -- the only place where a name is bound in the scope itself
      simp only [evalStmt, Stmt.lets]
      have hValue := (h.expr s e).mono (List.subset_cons_self name e.lets)
      exact hValue.bind fun v => .define List.mem_cons_self s v
  | ret value =>
      cases value with
      | none =>
          simp only [evalStmt]
          exact (Run.Extends.leave _).framed s _
      | some e =>
          simp only [evalStmt, Stmt.lets]
          exact (h.expr s e).bind fun v => (Run.Extends.leave v).framed s _
  | expr e =>
      simp only [evalStmt, Stmt.lets]
      exact h.expr s e
  | block body =>
      simp only [evalStmt, Stmt.lets]
      exact h.stmts s .null body

theorem stmts_succ (h : FramedAt fuel) (s : ScopeId) (v : Value) (ss : List Stmt) :
    (evalStmts (fuel + 1) s v ss).Framed s (Stmt.letsList ss) := by
  cases ss with
  | nil =>
      simp only [evalStmts]
      exact (Run.Extends.pure v).framed s _
  | cons st ss =>
      simp only [evalStmts, Stmt.letsList]
      exact (h.stmt s st).seq fun v => h.stmts s v ss

end FramedAt

theorem framedAt (fuel : Nat) : FramedAt fuel := by
  induction fuel with
  | zero => exact .zero
  | succ fuel ih => exact ⟨ih.expr_succ, ih.exprs_succ, ih.apply_succ, ih.stmt_succ, ih.stmts_succ⟩

/-- A call only extends the store. -/
theorem applyValue_extends {fuel : Nat} {f : Value} {vs : List Value} {σ σ' : Store}
    {c : Completion Value} (h : applyValue fuel f vs σ = some (c, σ')) : σ.Extends σ' :=
  (framedAt fuel).apply f vs σ c σ' h

/-! ## Programs and single expressions -/

theorem Run.Framed.of_outcome {s : ScopeId} {names : List String} {m : Run Value} {σ σ' : Store}
    {r : Except EvalError Value} (hm : m.Framed s names) (h : m.outcome σ = some (r, σ')) :
    Store.Framed s names σ σ' := by
  rcases Option.map_eq_some_iff.1 h with ⟨⟨c, σ''⟩, hRun, hResult⟩
  cases hResult
  exact hm σ c σ' hRun

/-- Running a program or an expression in the scope `s`, to a value or to an error, touches no
other scope that was there before, takes no binding away from `s`, and changes only bindings of
names that stand behind a `let` outside of function literals. -/
theorem run_framed (fuel : Nat) (s : ScopeId) (σ : Store) :
    (∀ p r σ', eval fuel p s σ = some (r, σ') → Store.Framed s p.lets σ σ') ∧
    (∀ e r σ', (Interpreter.mk s).evaluate fuel e σ = some (r, σ') →
      Store.Framed s e.lets σ σ') := by
  have hFramed : FramedAt fuel := framedAt fuel
  constructor
  · intro p r σ' h
    exact (hFramed.stmts s .null p.statements).of_outcome h
  · intro e r σ' h
    exact (hFramed.expr s e).of_outcome h

/-- A function that binds `y` in the scope of its calls. -/
def sampleScope : Scope where
  enclosing := none
  bindings :=
    [("f", .function ⟨0, ["x"],
      [.bind "y" (.ident "x"), .ret (some (.infixOp .plus (.ident "y") (.int 1)))], 0⟩)]

/-- The scope of the function and a scope inside it that binds `y` as well. -/
def sampleStore : Store :=
  ⟨#[sampleScope, ⟨some 0, [("y", .integer 2), ("z", .integer 3)]⟩], 1⟩

/-- A program that binds `y` to what a call returns and then fails, and a call alone. -/
theorem run_framed_sample :
    (∃ σ', eval 9 ⟨[.bind "y" (.call (.ident "f") [.int 5]), .expr (.ident "w")]⟩ 1 sampleStore =
        some (.error (.identifierNotFound "w"), σ') ∧
      Store.Framed 1 ["y"] sampleStore σ') ∧
    (∃ σ', (Interpreter.mk 1).evaluate 9 (.call (.ident "f") [.ident "y"]) sampleStore =
        some (.ok (.integer 3), σ') ∧
      Store.Framed 1 [] sampleStore σ') := by
  have hProgram :
      eval 9 ⟨[.bind "y" (.call (.ident "f") [.int 5]), .expr (.ident "w")]⟩ 1 sampleStore =
        some (.error (.identifierNotFound "w"),
          ⟨#[sampleScope, ⟨some 0, [("y", .integer 6), ("z", .integer 3)]⟩,
            ⟨some 0, [("x", .integer 5), ("y", .integer 5)]⟩], 1⟩) := by
    with_unfolding_all rfl
  have hCall :
      (Interpreter.mk 1).evaluate 9 (.call (.ident "f") [.ident "y"]) sampleStore =
        some (.ok (.integer 3),
          ⟨#[sampleScope, ⟨some 0, [("y", .integer 2), ("z", .integer 3)]⟩,
            ⟨some 0, [("x", .integer 2), ("y", .integer 2)]⟩], 1⟩) := by
    with_unfolding_all rfl
  exact ⟨⟨_, hProgram, (run_framed 9 1 sampleStore).1 _ _ _ hProgram⟩,
    ⟨_, hCall, (run_framed 9 1 sampleStore).2 _ _ _ hCall⟩⟩

end MonkeyLang
