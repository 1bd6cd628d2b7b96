import MonkeyLang.Proofs.Eval.Adequacy
import MonkeyLang.Proofs.Eval.Confined
import MonkeyLang.Proofs.Eval.Simulation

/-!
# Makings — every function comes from a literal

Evaluating a function literal makes a closure, and nothing else does.  `Logged` evaluation is
evaluation with a log of the literals that are evaluated on the way, each with the store and scope
that it was evaluated in.  It takes the course of the evaluation itself (`Logged.erasesAt`), and the
log is there also if no end is reached.

The numbers of closures count the log: the closure made first has the number 0, and so on.  If all
functions that a store binds come from the log so far, then so do all that it binds behind a run,
and so does the value that the run comes to.  This is what a run keeps (`Logged.Keeps`), and it
holds in the middle of a run as well, since it is said of the store of every entry.
-/

namespace MonkeyLang

/-- An evaluation of a function literal in a scope of a store. -/
structure Making where
  store : Store
  scope : ScopeId
  parameters : List String
  body : List Stmt

/-- The function value that the literal comes to. -/
def Making.closure (m : Making) : Closure :=
  (m.store.close m.scope m.parameters m.body).1

/-- A run with the function literals that it evaluates, in order. -/
def Logged (α : Type) :=
  Store → Option (Completion α × Store) × List Making

namespace Logged

variable {α β : Type}

/-! ## Logged runs -/

def lift (m : Run α) : Logged α :=
  fun σ => (m σ, [])

def bind (m : Logged α) (f : α → Logged β) : Logged β :=
  fun σ =>
    match m σ with
    | (none, made) => (none, made)
    | (some (.value a, σ'), made) => ((f a σ').1, made ++ (f a σ').2)
    | (some (.returned v, σ'), made) => (some (.returned v, σ'), made)
    | (some (.failed e, σ'), made) => (some (.failed e, σ'), made)

instance : Monad Logged where
  pure a := lift (.pure a)
  bind := bind

/-- The run itself. -/
def erased (m : Logged α) : Run α :=
  fun σ => (m σ).1

def settle (m : Logged Value) : Logged Value :=
  fun σ => (Run.settle m.erased σ, (m σ).2)

def close (s : ScopeId) (parameters : List String) (body : List Stmt) : Logged Value :=
  fun σ => (Run.close s parameters body σ, [⟨σ, s, parameters, body⟩])

/-! ## Evaluation -/

mutual

def evalExpr : Nat → ScopeId → Expr → Logged Value
  | 0, _, _ => lift .exhausted
  | fuel + 1, s, e =>
      match e with
      | .ident name => lift (.lookUp s name)
      | .int n => lift (.pure (.integer n))
      | .bool b => lift (.pure (.boolean b))
      | .prefixOp op right => do
          let v ← evalExpr fuel s right
          lift (.ofExcept (op.apply v))
      | .infixOp op left right => do
          let v ← evalExpr fuel s left
          let w ← evalExpr fuel s right
          lift (.ofExcept (op.apply v w))
      | .cond condition consequence alternative => do
          let v ← evalExpr fuel s condition
          if v.truthy then evalStmts fuel s .null consequence
          else
            match alternative with
            | some body => evalStmts fuel s .null body
            | none => lift (.pure .null)
      | .fn parameters body => close s parameters body
      | .call callee arguments => do
          let f ← evalExpr fuel s callee
          let vs ← evalExprs fuel s arguments
          applyValue fuel f vs

def evalExprs : Nat → ScopeId → List Expr → Logged (List Value)
  | 0, _, _ => lift .exhausted
  | _ + 1, _, [] => lift (.pure [])
  | fuel + 1, s, e :: es => do
      let v ← evalExpr fuel s e
      let vs ← evalExprs fuel s es
      lift (.pure (v :: vs))

def applyValue : Nat → Value → List Value → Logged Value
  | 0, _, _ => lift .exhausted
  | fuel + 1, .function c, vs =>
      if vs.length = c.parameters.length then do
        let s ← lift (Run.openScope c.scope (rebindAll [] (c.parameters.zip vs)))
        settle (evalStmts fuel s .null c.body)
      else lift (.fail (.wrongArgumentCount c.parameters.length vs.length))
  | _ + 1, v, _ => lift (.fail (.notAFunction v.type))

def evalStmt : Nat → ScopeId → Stmt → Logged Value
  | 0, _, _ => lift .exhausted
  | fuel + 1, s, stmt =>
      match stmt with
      | .bind name e => do
          let v ← evalExpr fuel s e
          lift (Run.define s name v)
      | .ret none => lift (.leave .null)
      | .ret (some e) => do
          let v ← evalExpr fuel s e
          lift (.leave v)
      | .expr e => evalExpr fuel s e
      | .block body => evalStmts fuel s .null body

def evalStmts : Nat → ScopeId → Value → List Stmt → Logged Value
  | 0, _, _, _ => lift .exhausted
  | _ + 1, _, last, [] => lift (.pure last)
  | fuel + 1, s, _, stmt :: stmts => do
      let v ← evalStmt fuel s stmt
      evalStmts fuel s v stmts

end

/-! ## The log makes no difference -/

@[simp] theorem erased_lift (m : Run α) : (lift m).erased = m :=
  rfl

@[simp] theorem erased_close (s : ScopeId) (parameters : List String) (body : List Stmt) :
    (close s parameters body).erased = Run.close s parameters body :=
  rfl

@[simp] theorem erased_settle (m : Logged Value) : (settle m).erased = Run.settle m.erased :=
  rfl

@[simp] theorem erased_bind (m : Logged α) (f : α → Logged β) :
    (m >>= f).erased = m.erased >>= fun a => (f a).erased := by
  funext σ
  change (bind m f σ).1 = Run.bind m.erased (fun a => (f a).erased) σ
  unfold bind Run.bind erased
  rcases m σ with ⟨_ | ⟨_ | _ | _, τ⟩, made⟩ <;> rfl

@[simp] theorem erased_ite (p : Prop) [Decidable p] (m m' : Logged α) :
    (if p then m else m').erased = if p then m.erased else m'.erased := by
  split <;> rfl

/-- With `fuel` nested steps, evaluation with a log is evaluation. -/
structure ErasesAt (fuel : Nat) : Prop where
  expr : ∀ s e, (evalExpr fuel s e).erased = MonkeyLang.evalExpr fuel s e
  exprs : ∀ s es, (evalExprs fuel s es).erased = MonkeyLang.evalExprs fuel s es
  apply : ∀ f vs, (applyValue fuel f vs).erased = MonkeyLang.applyValue fuel f vs
  stmt : ∀ s st, (evalStmt fuel s st).erased = MonkeyLang.evalStmt fuel s st
  stmts : ∀ s v ss, (evalStmts fuel s v ss).erased = MonkeyLang.evalStmts fuel s v ss

namespace ErasesAt

variable {fuel : Nat}

theorem zero : ErasesAt 0 where
  expr s e := by simp only [evalExpr, MonkeyLang.evalExpr, erased_lift]
  exprs s es := by simp only [evalExprs, MonkeyLang.evalExprs, erased_lift]
  apply f vs := by simp only [applyValue, MonkeyLang.applyValue, erased_lift]
  stmt s st := by simp only [evalStmt, MonkeyLang.evalStmt, erased_lift]
  stmts s v ss := by simp only [evalStmts, MonkeyLang.evalStmts, erased_lift]

theorem expr_succ (h : ErasesAt fuel) (s : ScopeId) (e : Expr) :
    (evalExpr (fuel + 1) s e).erased = MonkeyLang.evalExpr (fuel + 1) s e := by
  cases e with
  | ident name => simp only [evalExpr, MonkeyLang.evalExpr, erased_lift]
  | int n => simp only [evalExpr, MonkeyLang.evalExpr, erased_lift]
  | bool b => simp only [evalExpr, MonkeyLang.evalExpr, erased_lift]
  | prefixOp op right =>
      simp only [evalExpr, MonkeyLang.evalExpr, erased_bind, erased_lift, h.expr]
  | infixOp op left right =>
      simp only [evalExpr, MonkeyLang.evalExpr, erased_bind, erased_lift, h.expr]
  | cond condition consequence alternative =>
      cases alternative <;>
        simp only [evalExpr, MonkeyLang.evalExpr, erased_bind, erased_ite, erased_lift, h.expr,
          h.stmts]
  | fn parameters body => simp only [evalExpr, MonkeyLang.evalExpr, erased_close]
  | call callee arguments =>
      simp only [evalExpr, MonkeyLang.evalExpr, erased_bind, h.expr, h.exprs, h.apply]

theorem exprs_succ (h : ErasesAt fuel) (s : ScopeId) (es : List Expr) :
    (evalExprs (fuel + 1) s es).erased = MonkeyLang.evalExprs (fuel + 1) s es := by
  cases es with
  | nil => simp only [evalExprs, MonkeyLang.evalExprs, erased_lift]
  | cons e es =>
      simp only [evalExprs, MonkeyLang.evalExprs, erased_bind, erased_lift, h.expr, h.exprs]

theorem apply_succ (h : ErasesAt fuel) (f : Value) (vs : List Value) :
    (applyValue (fuel + 1) f vs).erased = MonkeyLang.applyValue (fuel + 1) f vs := by
  cases f <;>
    simp only [applyValue, MonkeyLang.applyValue, erased_ite, erased_bind, erased_settle,
      erased_lift, h.stmts]

theorem stmt_succ (h : ErasesAt fuel) (s : ScopeId) (st : Stmt) :
    (evalStmt (fuel + 1) s st).erased = MonkeyLang.evalStmt (fuel + 1) s st := by
  cases st with
  | bind name e => simp only [evalStmt, MonkeyLang.evalStmt, erased_bind, erased_lift, h.expr]
  | ret value =>
      cases value <;>
        simp only [evalStmt, MonkeyLang.evalStmt, erased_bind, erased_lift, h.expr]
  | expr e => simp only [evalStmt, MonkeyLang.evalStmt, h.expr]
  | block body => simp only [evalStmt, MonkeyLang.evalStmt, h.stmts]

theorem stmts_succ (h : ErasesAt fuel) (s : ScopeId) (v : Value) (ss : List Stmt) :
    (evalStmts (fuel + 1) s v ss).erased = MonkeyLang.evalStmts (fuel + 1) s v ss := by
  cases ss with
  | nil => simp only [evalStmts, MonkeyLang.evalStmts, erased_lift]
  | cons st ss => simp only [evalStmts, MonkeyLang.evalStmts, erased_bind, h.stmt, h.stmts]

end ErasesAt

theorem erasesAt (fuel : Nat) : ErasesAt fuel := by
  induction fuel with
  | zero => exact .zero
  | succ fuel ih => exact ⟨ih.expr_succ, ih.exprs_succ, ih.apply_succ, ih.stmt_succ, ih.stmts_succ⟩

end Logged

/-! ## Where functions come from -/

/-- The closure is that of an entry of the log. -/
def Made (made : List Making) (c : Closure) : Prop :=
  ∃ m ∈ made, m.closure = c

/-- If the value is a function, it comes from the log. -/
def Value.MadeIn (made : List Making) (v : Value) : Prop :=
  v.Confined (Made made) fun _ => True

/-- The log has as many entries as the store counts closures, and all functions that the store binds
come from it. -/
structure Covers (made : List Making) (σ : Store) : Prop where
  count : σ.closures = made.length
  bound : σ.Confines (Made made) fun _ => True

/-- In front of any of its entries the log covers the store that the entry was evaluated in. -/
def Faithful (made : List Making) : Prop :=
  ∀ i m, made[i]? = some m → Covers (made.take i) m.store

structure Accounts (made : List Making) (σ : Store) : Prop extends Covers made σ where
  past : Faithful made

/-- Closures are numbered in the order of the log. -/
theorem Faithful.id_eq {made : List Making} (h : Faithful made) {i : Nat} {m : Making}
    (hm : made[i]? = some m) : m.closure.id = i := by
  have hi : i ≤ made.length := Nat.le_of_lt (List.getElem?_eq_some_iff.1 hm).1
  have hCount : m.store.closures = (made.take i).length := (h i m hm).count
  rwa [List.length_take, Nat.min_eq_left hi] at hCount

theorem Made.mono {made made' : List Making} (h : made ⊆ made') {c : Closure} (hc : Made made c) :
    Made made' c := by
  rcases hc with ⟨m, hm, rfl⟩
  exact ⟨m, h hm, rfl⟩

theorem Value.MadeIn.mono {made made' : List Making} {v : Value} (hv : v.MadeIn made)
    (h : made ⊆ made') : v.MadeIn made' :=
  Value.Confined.mono hv (fun _ => Made.mono h) (le_refl _)

namespace Accounts

variable {made : List Making} {σ : Store}

theorem empty : Accounts [] .empty where
  count := rfl
  bound := ⟨fun _ _ _ => trivial, fun _ hScope => by simp [Store.empty] at hScope⟩
  past := nofun

theorem define (h : Accounts made σ) (s : ScopeId) (name : String) {v : Value}
    (hv : v.MadeIn made) : Accounts made (σ.define s name v) where
  count := h.count
  bound := h.bound.define s name hv
  past := h.past

theorem openScope (h : Accounts made σ) (enclosing : Option ScopeId)
    {bs : List (String × Value)} (hbs : ∀ name v, bs.lookup name = some v → v.MadeIn made) :
    Accounts made (σ.openScope enclosing bs).2 where
  count := h.count
  bound := by
    refine ⟨fun _ _ _ => trivial, fun {s scope name v} _ hScope hv => ?_⟩
    rcases Store.scope_of_openScope hScope with hOld | ⟨-, rfl⟩
    · exact h.bound.bindings trivial hOld hv
    · exact hbs name v hv
  past := h.past

/-- Evaluating a literal adds an entry, and its closure. -/
theorem close (h : Accounts made σ) (s : ScopeId) (parameters : List String) (body : List Stmt) :
    Accounts (made ++ [⟨σ, s, parameters, body⟩]) (σ.close s parameters body).2 where
  count := by
    change σ.closures + 1 = (made ++ [_]).length
    rw [List.length_append, h.count, List.length_singleton]
  bound :=
    (h.bound.mono fun _ => Made.mono (List.subset_append_left made _)).close s parameters body
  past := by
    intro i m hm
    by_cases hi : i < made.length
    · rw [List.getElem?_append_left hi] at hm
      rw [List.take_append_of_le_length (Nat.le_of_lt hi)]
      exact h.past i m hm
    · rw [List.getElem?_append_right (Nat.le_of_not_lt hi)] at hm
      obtain ⟨hi', rfl⟩ := List.getElem?_eq_some_iff.1 hm
      have hLast : i = made.length := by
        rw [List.length_singleton] at hi'
        omega
      subst hLast
      simpa using h.toCovers

end Accounts

namespace Logged

variable {α β : Type} {made : List Making} {σ : Store} {R : List Making → α → Prop}
  {Q : List Making → β → Prop}

/-- Behind a log that accounts for the store, the log goes on faithfully, whether or not the run
ends; and if it does then the log accounts for the store it leaves and for what it comes to, which
is as `R` says. -/
def Keeps (R : List Making → α → Prop) (m : Logged α) (made : List Making) (σ : Store) : Prop :=
  Faithful (made ++ (m σ).2) ∧ ∀ c τ, (m σ).1 = some (c, τ) →
    Accounts (made ++ (m σ).2) τ ∧
      c.Confined (Made (made ++ (m σ).2)) (fun _ => True) (R (made ++ (m σ).2)) fun _ => True

namespace Keeps

/-- A run that evaluates no literal. -/
theorem lift {m : Run α} (h : Accounts made σ)
    (hm : ∀ c τ, m σ = some (c, τ) → Accounts made τ ∧
      c.Confined (Made made) (fun _ => True) (R made) fun _ => True) :
    Keeps R (lift m) made σ := by
  have hLog : made ++ (Logged.lift m σ).2 = made := List.append_nil made
  rw [Keeps, hLog]
  exact ⟨h.past, hm⟩

theorem exhausted (h : Accounts made σ) : Keeps R (Logged.lift .exhausted) made σ :=
  lift h nofun

/-- One that only ends. -/
theorem of_eq {m : Run α} {d : Completion α} (h : Accounts made σ) (hm : m σ = some (d, σ))
    (hd : d.Confined (Made made) (fun _ => True) (R made) fun _ => True) :
    Keeps R (Logged.lift m) made σ := by
  refine lift h fun c τ hRun => ?_
  rw [hm] at hRun
  cases hRun
  exact ⟨h, hd⟩

theorem pure (h : Accounts made σ) {a : α} (ha : R made a) :
    Keeps R (Logged.lift (.pure a)) made σ :=
  of_eq h rfl ha

theorem leave (h : Accounts made σ) {v : Value} (hv : v.MadeIn made) :
    Keeps R (Logged.lift (.leave v)) made σ :=
  of_eq h rfl hv

theorem fail (h : Accounts made σ) (e : EvalError) : Keeps R (Logged.lift (.fail e)) made σ :=
  of_eq h rfl trivial

theorem ofExcept (h : Accounts made σ) {r : Except EvalError Value}
    (hr : ∀ v, r = .ok v → v.type ≠ .function) :
    Keeps Value.MadeIn (Logged.lift (.ofExcept r)) made σ := by
  cases r with
  | ok v => exact pure h (.of_type_ne _ _ (hr v rfl))
  | error e => exact fail h e

theorem lookUp (h : Accounts made σ) (s : ScopeId) (name : String) :
    Keeps Value.MadeIn (Logged.lift (.lookUp s name)) made σ := by
  cases hGet : σ.get? s name with
  | some v =>
      have hRun : Run.lookUp s name σ = some (.value v, σ) := by simp only [Run.lookUp, hGet]
      exact of_eq h hRun (h.bound.of_get? trivial hGet)
  | none =>
      have hRun : Run.lookUp s name σ = some (.failed (.identifierNotFound name), σ) := by
        simp only [Run.lookUp, hGet]
      exact of_eq h hRun trivial

theorem define (h : Accounts made σ) (s : ScopeId) (name : String) {v : Value}
    (hv : v.MadeIn made) : Keeps Value.MadeIn (Logged.lift (.define s name v)) made σ := by
  refine lift h fun c τ hRun => ?_
  cases hRun
  exact ⟨h.define s name hv, hv⟩

theorem openScope (h : Accounts made σ) (o : ScopeId) {bs : List (String × Value)}
    (hbs : ∀ name v, bs.lookup name = some v → v.MadeIn made) :
    Keeps (fun _ _ => True) (Logged.lift (.openScope o bs)) made σ := by
  refine lift h fun c τ hRun => ?_
  cases hRun
  exact ⟨h.openScope (some o) hbs, trivial⟩

/-- A function literal comes from the entry that it adds. -/
theorem close (h : Accounts made σ) (s : ScopeId) (parameters : List String) (body : List Stmt) :
    Keeps Value.MadeIn (Logged.close s parameters body) made σ := by
  have hMore := h.close s parameters body
  refine ⟨hMore.past, fun c τ hRun => ?_⟩
  cases hRun
  exact ⟨hMore, ⟨_, List.mem_append_right made (List.mem_singleton_self _), rfl⟩, trivial⟩

/-- One run and, behind it, whatever goes on with its value, with a log that has grown. -/
theorem bind {m : Logged α} {f : α → Logged β} (hm : Keeps R m made σ)
    (hf : ∀ a more τ, made ⊆ more → Accounts more τ → R more a → Keeps Q (f a) more τ) :
    Keeps Q (m >>= f) made σ := by
  change Keeps Q (Logged.bind m f) made σ
  unfold Keeps Logged.bind
  unfold Keeps at hm
  rcases hRun : m σ with ⟨_ | ⟨c, τ⟩, first⟩
  · simp only [hRun] at hm
    exact ⟨hm.1, nofun⟩
  · simp only [hRun] at hm
    obtain ⟨hAccounts, hc⟩ := hm.2 c τ rfl
    cases c with
    | value a =>
        have hRest := hf a (made ++ first) τ (List.subset_append_left made first) hAccounts hc
        simpa only [Keeps, List.append_assoc] using hRest
    | returned v =>
        refine ⟨hm.1, fun d υ hEnd => ?_⟩
        cases hEnd
        exact ⟨hAccounts, hc⟩
    | failed e =>
        refine ⟨hm.1, fun d υ hEnd => ?_⟩
        cases hEnd
        exact ⟨hAccounts, hc⟩

theorem settle {m : Logged Value} (hm : Keeps Value.MadeIn m made σ) :
    Keeps Value.MadeIn (Logged.settle m) made σ := by
  refine ⟨hm.1, fun c τ hEnd => ?_⟩
  rcases Run.exists_of_settle hEnd with ⟨d, hRun, rfl⟩
  obtain ⟨hAccounts, hd⟩ := hm.2 d τ hRun
  refine ⟨hAccounts, ?_⟩
  cases d <;> exact hd

end Keeps

/-! ## Every evaluation -/

/-- With `fuel` nested steps, the log that evaluation writes goes on faithfully behind one that
accounts for the store, and all functions come from it. -/
structure KeepsAt (fuel : Nat) : Prop where
  expr : ∀ made σ s e, Accounts made σ → Keeps Value.MadeIn (evalExpr fuel s e) made σ
  exprs : ∀ made σ s es, Accounts made σ →
    Keeps (fun l vs => ∀ v ∈ vs, v.MadeIn l) (evalExprs fuel s es) made σ
  apply : ∀ made σ f vs, Accounts made σ → f.MadeIn made → (∀ v ∈ vs, v.MadeIn made) →
    Keeps Value.MadeIn (applyValue fuel f vs) made σ
  stmt : ∀ made σ s st, Accounts made σ → Keeps Value.MadeIn (evalStmt fuel s st) made σ
  stmts : ∀ made σ s v ss, Accounts made σ → v.MadeIn made →
    Keeps Value.MadeIn (evalStmts fuel s v ss) made σ

namespace KeepsAt

variable {fuel : Nat}

theorem zero : KeepsAt 0 where
  expr made σ s e h := by
    rw [evalExpr]
    exact .exhausted h
  exprs made σ s es h := by
    rw [evalExprs]
    exact .exhausted h
  apply made σ f vs h hf hvs := by
    rw [applyValue]
    exact .exhausted h
  stmt made σ s st h := by
    rw [evalStmt]
    exact .exhausted h
  stmts made σ s v ss h hv := by
    rw [evalStmts]
    exact .exhausted h

theorem expr_succ (ih : KeepsAt fuel) (made : List Making) (σ : Store) (s : ScopeId) (e : Expr)
    (h : Accounts made σ) : Keeps Value.MadeIn (evalExpr (fuel + 1) s e) made σ := by
  cases e with
  | ident name =>
      simp only [evalExpr]
      exact .lookUp h s name
  | int n =>
      simp only [evalExpr]
      exact .pure h trivial
  | bool b =>
      simp only [evalExpr]
      exact .pure h trivial
  | prefixOp op right =>
      simp only [evalExpr]
      refine (ih.expr made σ s right h).bind fun v made' τ _ h' _ => ?_
      exact .ofExcept h' fun w => op.type_apply_ne
  | infixOp op left right =>
      simp only [evalExpr]
      refine (ih.expr made σ s left h).bind fun v made' τ _ h' _ => ?_
      refine (ih.expr made' τ s right h').bind fun w made'' υ _ h'' _ => ?_
      exact .ofExcept h'' fun u => op.type_apply_ne
  | cond condition consequence alternative =>
      cases alternative with
      | none =>
          simp only [evalExpr]
          refine (ih.expr made σ s condition h).bind fun v made' τ _ h' _ => ?_
          split
          · exact ih.stmts made' τ s .null consequence h' trivial
          · exact .pure h' trivial
      | some body =>
          simp only [evalExpr]
          refine (ih.expr made σ s condition h).bind fun v made' τ _ h' _ => ?_
          split
          · exact ih.stmts made' τ s .null consequence h' trivial
          · exact ih.stmts made' τ s .null body h' trivial
  | fn parameters body =>
      simp only [evalExpr]
      exact .close h s parameters body
  | call callee arguments =>
      simp only [evalExpr]
      refine (ih.expr made σ s callee h).bind fun f made' τ _ h' hf => ?_
      refine (ih.exprs made' τ s arguments h').bind fun vs made'' υ hMore h'' hvs => ?_
      exact ih.apply made'' υ f vs h'' (hf.mono hMore) hvs

theorem exprs_succ (ih : KeepsAt fuel) (made : List Making) (σ : Store) (s : ScopeId)
    (es : List Expr) (h : Accounts made σ) :
    Keeps (fun l vs => ∀ v ∈ vs, v.MadeIn l) (evalExprs (fuel + 1) s es) made σ := by
  cases es with
  | nil =>
      simp only [evalExprs]
      exact .pure h (List.forall_mem_nil _)
  | cons e es =>
      simp only [evalExprs]
      refine (ih.expr made σ s e h).bind fun v made' τ _ h' hv => ?_
      refine (ih.exprs made' τ s es h').bind fun vs made'' υ hMore h'' hvs => ?_
      exact .pure h'' (List.forall_mem_cons.2 ⟨hv.mono hMore, hvs⟩)

theorem apply_succ (ih : KeepsAt fuel) (made : List Making) (σ : Store) (f : Value)
    (vs : List Value) (h : Accounts made σ) (hf : f.MadeIn made)
    (hvs : ∀ v ∈ vs, v.MadeIn made) :
    Keeps Value.MadeIn (applyValue (fuel + 1) f vs) made σ := by
  cases f with
  | function c =>
      simp only [applyValue]
      split
      · -- the arguments become bindings of the new scope
        have hBindings : ∀ name v, (rebindAll [] (c.parameters.zip vs)).lookup name = some v →
            v.MadeIn made := fun name v hv => hvs v (mem_of_lookup_rebindAll hv)
        refine (Keeps.openScope h c.scope hBindings).bind fun s made' τ _ h' _ => ?_
        exact (ih.stmts made' τ s .null c.body h' trivial).settle
      · exact .fail h _
  | integer n =>
      simp only [applyValue]
      exact .fail h _
  | boolean b =>
      simp only [applyValue]
      exact .fail h _
  | null =>
      simp only [applyValue]
      exact .fail h _

theorem stmt_succ (ih : KeepsAt fuel) (made : List Making) (σ : Store) (s : ScopeId) (st : Stmt)
    (h : Accounts made σ) : Keeps Value.MadeIn (evalStmt (fuel + 1) s st) made σ := by
  cases st with
  | bind name e =>
      simp only [evalStmt]
      exact (ih.expr made σ s e h).bind fun v made' τ _ h' hv => .define h' s name hv
  | ret value =>
      cases value with
      | none =>
          simp only [evalStmt]
          exact .leave h trivial
      | some e =>
          simp only [evalStmt]
          exact (ih.expr made σ s e h).bind fun v made' τ _ h' hv => .leave h' hv
  | expr e =>
      simp only [evalStmt]
      exact ih.expr made σ s e h
  | block body =>
      simp only [evalStmt]
      exact ih.stmts made σ s .null body h trivial

theorem stmts_succ (ih : KeepsAt fuel) (made : List Making) (σ : Store) (s : ScopeId) (v : Value)
    (ss : List Stmt) (h : Accounts made σ) (hv : v.MadeIn made) :
    Keeps Value.MadeIn (evalStmts (fuel + 1) s v ss) made σ := by
  cases ss with
  | nil =>
      simp only [evalStmts]
      exact .pure h hv
  | cons st ss =>
      simp only [evalStmts]
      exact (ih.stmt made σ s st h).bind fun w made' τ _ h' hw => ih.stmts made' τ s w ss h' hw

end KeepsAt

theorem keepsAt (fuel : Nat) : KeepsAt fuel := by
  induction fuel with
  | zero => exact .zero
  | succ fuel ih => exact ⟨ih.expr_succ, ih.exprs_succ, ih.apply_succ, ih.stmt_succ, ih.stmts_succ⟩

end Logged
end MonkeyLang
