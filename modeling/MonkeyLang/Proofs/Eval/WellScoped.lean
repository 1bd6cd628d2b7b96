import MonkeyLang.Proofs.Eval.Adequacy
import MonkeyLang.Proofs.Eval.Confined

/-!
# WellScoped — names that are found whenever they are looked up

A program needs from outside what it uses without a parameter or an earlier `let` of that name
around the use (`Program.needs`).  This is told from the text alone, while a name is looked up in
the scopes as they are when its use is reached.  If the needs of a program can be met in the scope
that it is run in, and those of every function at hand in the scope that the function was made in,
then no name is missed, and the functions at hand afterwards have their needs met again.

The reason is that names never get lost: whatever could be looked up from a scope can be looked up
from there ever after (`Store.Gains`).  A function therefore does not care how much later and from
where it is called.
-/

namespace MonkeyLang

/-! ## Names that have to come from outside -/

/-- The names that statements behind this one can rely on. -/
def Stmt.binds : Stmt → List String
  | .bind name _ => [name]
  | .ret _ => []
  | .expr _ => []
  | .block _ => []

mutual

/-- The names of the uses in an expression that have to be bound outside of it.  A use is covered
inside if it stands in the body of a function literal with a parameter of the name, or behind a
`let` of the name: in the same list of statements, or within a statement that stands behind the
`let` in its list. -/
def Expr.needs : Expr → List String
  | .ident name => [name]
  | .int _ => []
  | .bool _ => []
  | .prefixOp _ right => right.needs
  | .infixOp _ left right => left.needs ++ right.needs
  | .cond condition consequence none => condition.needs ++ Stmt.needsList consequence
  | .cond condition consequence (some alternative) =>
      condition.needs ++ (Stmt.needsList consequence ++ Stmt.needsList alternative)
  | .fn parameters body => (Stmt.needsList body).filter (· ∉ parameters)
  | .call callee arguments => callee.needs ++ Expr.needsList arguments

def Expr.needsList : List Expr → List String
  | [] => []
  | e :: es => e.needs ++ Expr.needsList es

/-- The value of a `let` does not see the name that is bound to it. -/
def Stmt.needs : Stmt → List String
  | .bind _ value => value.needs
  | .ret none => []
  | .ret (some value) => value.needs
  | .expr value => value.needs
  | .block body => Stmt.needsList body

def Stmt.needsList : List Stmt → List String
  | [] => []
  | s :: ss => s.needs ++ (Stmt.needsList ss).filter (· ∉ s.binds)

end

def Program.needs (p : Program) : List String :=
  Stmt.needsList p.statements

/-- What the body of a closure needs besides the parameters. -/
def Closure.needs (c : Closure) : List String :=
  (Stmt.needsList c.body).filter (· ∉ c.parameters)

/-- A name covered in a function is no need of it, and neither is one that an earlier statement
binds; in the value of its own `let` and outside of the block with the `let` it is one. -/
example :
    Program.needs ⟨[.bind "x" (.ident "a"), .expr (.fn ["y"] [.expr (.ident "x"),
      .expr (.ident "y"), .expr (.ident "b")]), .bind "c" (.ident "c"),
      .block [.bind "d" (.int 1)], .expr (.ident "d")]⟩ = ["a", "b", "c", "d"] := by
  decide

/-! ## Names that can be looked up -/

namespace Store

variable {σ τ υ : Store} {s : ScopeId} {names : List String}

/-- All of the names can be looked up from the scope. -/
def Provides (σ : Store) (s : ScopeId) (names : List String) : Prop :=
  ∀ name ∈ names, (σ.get? s name).isSome

theorem Provides.nil (σ : Store) (s : ScopeId) : σ.Provides s [] :=
  List.forall_mem_nil _

theorem provides_append {more : List String} :
    σ.Provides s (names ++ more) ↔ σ.Provides s names ∧ σ.Provides s more :=
  List.forall_mem_append

theorem Provides.of_filter {bound : List String}
    (h : σ.Provides s (names.filter (· ∉ bound))) (hBound : σ.Provides s bound) :
    σ.Provides s names := by
  intro name hName
  by_cases hMem : name ∈ bound
  · exact hBound name hMem
  · exact h name (List.mem_filter.2 ⟨hName, decide_eq_true hMem⟩)

/-- There are more scopes, and what could be looked up from a scope still can be. -/
structure Gains (σ τ : Store) : Prop where
  size_le : σ.scopes.size ≤ τ.scopes.size
  provided : ∀ s name, (σ.get? s name).isSome → (τ.get? s name).isSome

namespace Gains

theorem refl (σ : Store) : σ.Gains σ :=
  ⟨Nat.le_refl _, fun _ _ h => h⟩

theorem trans (h : σ.Gains τ) (h' : τ.Gains υ) : σ.Gains υ where
  size_le := Nat.le_trans h.size_le h'.size_le
  provided s name hName := h'.provided s name (h.provided s name hName)

/-- Scopes in which bindings were added or replaced, and further scopes. -/
theorem of_rebound (names : List String) (hSize : σ.scopes.size ≤ τ.scopes.size)
    (h : ∀ (t : ScopeId) (scope : Scope), σ.scopes[t]? = some scope →
      ∃ scope', τ.scopes[t]? = some scope' ∧ Scope.Rebound names scope scope') : σ.Gains τ where
  size_le := hSize
  provided s name hName := by
    rcases Option.isSome_iff_exists.1 hName with ⟨v, hv⟩
    replace hv := sees_of_get? hv
    -- along the way outward; a nearer binding may be a new one
    induction hv with
    | here hScope hFound =>
        rcases h _ _ hScope with ⟨scope', hScope', hRebound⟩
        have hKept := hRebound.kept name (Option.isSome_of_eq_some hFound)
        rcases Option.isSome_iff_exists.1 hKept with ⟨w, hw⟩
        exact Option.isSome_of_eq_some (get?_of_found hScope' hw)
    | outward hScope hMissing hOuter hEarlier hOutside ih =>
        rcases h _ _ hScope with ⟨scope', hScope', hRebound⟩
        cases hFound : scope'.find? name with
        | some w => exact Option.isSome_of_eq_some (get?_of_found hScope' hFound)
        | none =>
            rw [get?_of_outward hScope' hFound (hRebound.enclosing.trans hOuter) hEarlier]
            exact ih (Option.isSome_of_eq_some hOutside.get?_eq)

theorem of_framed (h : Framed s names σ τ) : σ.Gains τ := by
  refine of_rebound names h.size_le fun t scope hScope => ?_
  by_cases hts : t = s
  · subst hts
    exact h.own scope hScope
  · have ht : t < σ.scopes.size := (Array.getElem?_eq_some_iff.1 hScope).1
    exact ⟨scope, (h.same t ht hts).trans hScope, .refl names scope⟩

theorem define (σ : Store) (s : ScopeId) (name : String) (v : Value) :
    σ.Gains (σ.define s name v) :=
  of_framed (.define (List.mem_singleton_self name) s σ v)

theorem openScope (σ : Store) (enclosing : Option ScopeId) (bs : List (String × Value)) :
    σ.Gains (σ.openScope enclosing bs).2 :=
  of_framed ((Extends.openScope σ enclosing bs).framed 0 [])

theorem close (σ : Store) (s : ScopeId) (parameters : List String) (body : List Stmt) :
    σ.Gains (σ.close s parameters body).2 :=
  of_framed ((Extends.close σ s parameters body).framed 0 [])

end Gains

theorem Provides.mono (h : σ.Provides s names) (hGains : σ.Gains τ) : τ.Provides s names :=
  fun name hName => hGains.provided s name (h name hName)

theorem lt_size_of_isSome_get? {name : String} (h : (σ.get? s name).isSome) :
    s < σ.scopes.size := by
  rcases Option.isSome_iff_exists.1 h with ⟨v, hv⟩
  cases sees_of_get? hv with
  | here hScope _ => exact (Array.getElem?_eq_some_iff.1 hScope).1
  | outward hScope _ _ _ _ => exact (Array.getElem?_eq_some_iff.1 hScope).1

theorem provides_define (hs : s < σ.scopes.size) (name : String) (v : Value) :
    (σ.define s name v).Provides s [name] := by
  intro n hn
  rw [List.mem_singleton.1 hn]
  have hScope : (σ.define s name v).scopes[s]? = some (σ.scopes[s].insert name v) := by
    simp only [Store.define, Array.getElem?_modify, if_true, Array.getElem?_eq_getElem hs,
      Option.map_some]
  exact Option.isSome_of_eq_some (get?_of_found hScope (Scope.find?_insert_self _ name v))

end Store

/-! ## Functions whose needs are met -/

/-- The scope that the function was made in provides what the body needs. -/
def Closure.Supplied (σ : Store) (c : Closure) : Prop :=
  σ.Provides c.scope c.needs

theorem Closure.Supplied.mono {σ τ : Store} {c : Closure} (h : c.Supplied σ) (hGains : σ.Gains τ) :
    c.Supplied τ :=
  Store.Provides.mono h hGains

/-- With as many arguments as parameters, each parameter is bound. -/
theorem isSome_lookup_rebindAll {parameters : List String} {vs : List Value}
    (hCount : vs.length = parameters.length) :
    ∀ name ∈ parameters, ((rebindAll [] (parameters.zip vs)).lookup name).isSome := by
  intro name hName
  rw [lookup_rebindAll, List.lookup_nil, Option.or_none]
  have hFirst : name ∈ (parameters.zip vs).map Prod.fst := by
    rwa [List.map_fst_zip (Nat.le_of_eq hCount.symm)]
  rcases List.mem_map.1 hFirst with ⟨pair, hPair, rfl⟩
  exact List.lookup_isSome_iff.2 ⟨pair, List.mem_reverse.2 hPair, beq_self_eq_true _⟩

/-- A scope with the parameters, opened in the one that the function was made in, provides all that
the body needs. -/
theorem Closure.Supplied.provides_openScope {σ : Store} {c : Closure} (h : c.Supplied σ)
    {bs : List (String × Value)} (hbs : ∀ name ∈ c.parameters, (bs.lookup name).isSome) :
    (σ.openScope (some c.scope) bs).2.Provides σ.scopes.size (Stmt.needsList c.body) := by
  intro name hName
  have hScope : (σ.openScope (some c.scope) bs).2.scopes[σ.scopes.size]? =
      some ⟨some c.scope, bs⟩ := Array.getElem?_push_size
  cases hFound : bs.lookup name with
  | some v => exact Option.isSome_of_eq_some (Store.get?_of_found hScope hFound)
  | none =>
      have hNoParameter : name ∉ c.parameters := by
        intro hMem
        have hBound := hbs name hMem
        rw [hFound] at hBound
        cases hBound
      have hOutside := h name (List.mem_filter.2 ⟨hName, decide_eq_true hNoParameter⟩)
      have hEarlier : c.scope < σ.scopes.size := Store.lt_size_of_isSome_get? hOutside
      rw [Store.get?_of_outward hScope hFound rfl hEarlier]
      exact (Store.Gains.openScope σ (some c.scope) bs).provided c.scope name hOutside

namespace Store

/-- An evaluation that got hold of functions bound in the scopes `S` of the store `σ` only has come
to the store `τ` and the scopes `T`.  The functions bound in them have their needs met. -/
structure Onward (S : ScopeId → Prop) (σ : Store) (T : ScopeId → Prop) (τ : Store) : Prop where
  more : S ≤ T
  gains : σ.Gains τ
  confined : τ.Confines (Closure.Supplied τ) T

/-- An evaluation in the scope `s` can begin. -/
structure Ready (S : ScopeId → Prop) (s : ScopeId) (σ : Store) : Prop where
  confined : σ.Confines (Closure.Supplied σ) S
  mem : S s
  lt_size : s < σ.scopes.size

variable {σ τ υ : Store} {S T U : ScopeId → Prop} {s : ScopeId}

theorem Onward.refl (h : σ.Confines (Closure.Supplied σ) S) : Onward S σ S σ :=
  ⟨le_rfl, .refl σ, h⟩

theorem Onward.trans (h : Onward S σ T τ) (h' : Onward T τ U υ) : Onward S σ U υ :=
  ⟨h.more.trans h'.more, h.gains.trans h'.gains, h'.confined⟩

theorem Onward.ready (h : Onward S σ T τ) (hs : σ.Ready S s) : τ.Ready T s :=
  ⟨h.confined, h.more s hs.mem, Nat.lt_of_lt_of_le hs.lt_size h.gains.size_le⟩

/-- A value at hand is one later on. -/
theorem Onward.value (h : Onward S σ T τ) {v : Value} (hv : v.Confined (Closure.Supplied σ) S) :
    v.Confined (Closure.Supplied τ) T :=
  hv.mono (fun _ hc => hc.mono h.gains) h.more

end Store

/-! ## Runs that miss no name -/

open Store (Onward Ready)

/-- No name was missed. -/
def EvalError.Other (e : EvalError) : Prop :=
  ∀ name, e ≠ .identifierNotFound name

theorem PrefixOp.other_of_apply (op : PrefixOp) {v : Value} {e : EvalError}
    (h : op.apply v = .error e) : e.Other := by
  intro name hName
  unfold PrefixOp.apply at h
  split at h <;> cases h
  cases hName

theorem InfixOp.other_of_refuse (op : InfixOp) (left right : ValueType) :
    (op.refuse left right).Other := by
  intro name hName
  unfold InfixOp.refuse at hName
  split at hName <;> cases hName

theorem InfixOp.other_of_applyInt (op : InfixOp) {a b : Int64} {e : EvalError}
    (h : op.applyInt a b = .error e) : e.Other := by
  intro name hName
  cases op <;> simp only [InfixOp.applyInt, reduceCtorEq] at h
  -- a division, which fails by zero only
  split at h <;> cases h
  cases hName

theorem InfixOp.other_of_apply (op : InfixOp) {v w : Value} {e : EvalError}
    (h : op.apply v w = .error e) : e.Other := by
  unfold InfixOp.apply at h
  split at h
  · exact op.other_of_applyInt h
  · cases h
  · cases h
  · cases h
    exact op.other_of_refuse v.type w.type

namespace Run

variable {α β : Type} {S T : ScopeId → Prop} {σ τ : Store} {s : ScopeId}
  {R : Store → (ScopeId → Prop) → α → Prop} {Q : Store → (ScopeId → Prop) → β → Prop}

/-- However the run ends, it does not miss a name, the functions that can be got hold of then have
their needs met, and a value is as `R` says. -/
def Finds (R : Store → (ScopeId → Prop) → α → Prop) (S : ScopeId → Prop) (σ : Store)
    (m : Run α) : Prop :=
  ∀ c τ, m σ = some (c, τ) → ∃ T, Onward S σ T τ ∧
    c.Confined (Closure.Supplied τ) T (R τ T) EvalError.Other

/-- What comes to a function comes to one whose needs are met. -/
abbrev FindsValue : (ScopeId → Prop) → Store → Run Value → Prop :=
  Finds fun τ T v => v.Confined (Closure.Supplied τ) T

namespace Finds

theorem exhausted : Finds R S σ Run.exhausted := by
  intro c τ h
  cases h

/-- A run with one end. -/
theorem of_eq {m : Run α} {c : Completion α} (hm : m σ = some (c, τ)) (h : Onward S σ T τ)
    (hc : c.Confined (Closure.Supplied τ) T (R τ T) EvalError.Other) : Finds R S σ m := by
  intro d υ hRun
  rw [hm] at hRun
  cases hRun
  exact ⟨T, h, hc⟩

theorem pure (h : σ.Confines (Closure.Supplied σ) S) {a : α} (ha : R σ S a) :
    Finds R S σ (Run.pure a) :=
  of_eq rfl (.refl h) ha

theorem leave (h : σ.Confines (Closure.Supplied σ) S) {v : Value}
    (hv : v.Confined (Closure.Supplied σ) S) : Finds R S σ (Run.leave v) :=
  of_eq rfl (.refl h) hv

theorem fail (h : σ.Confines (Closure.Supplied σ) S) {e : EvalError} (he : e.Other) :
    Finds R S σ (Run.fail e) :=
  of_eq rfl (.refl h) he

theorem ofExcept (h : σ.Confines (Closure.Supplied σ) S) {r : Except EvalError Value}
    (hr : ∀ v, r = .ok v → v.type ≠ .function) (he : ∀ e, r = .error e → e.Other) :
    FindsValue S σ (Run.ofExcept r) := by
  cases r with
  | ok v => exact pure h (.of_type_ne _ S (hr v rfl))
  | error e => exact fail h (he e rfl)

theorem lookUp (h : σ.Ready S s) {name : String} (hName : (σ.get? s name).isSome) :
    FindsValue S σ (Run.lookUp s name) := by
  rcases Option.isSome_iff_exists.1 hName with ⟨v, hv⟩
  have hRun : Run.lookUp s name σ = some (.value v, σ) := by simp only [Run.lookUp, hv]
  exact of_eq hRun (.refl h.confined) (h.confined.of_get? h.mem hv)

/-- The name can be looked up from now on. -/
theorem define (h : σ.Ready S s) (name : String) {v : Value}
    (hv : v.Confined (Closure.Supplied σ) S) :
    Finds (fun τ T w => w.Confined (Closure.Supplied τ) T ∧ τ.Provides s [name]) S σ
      (Run.define s name v) := by
  have hGains : σ.Gains (σ.define s name v) := .define σ s name v
  have hConfined := (h.confined.define s name hv).mono fun _ hc => hc.mono hGains
  have hOnward : Onward S σ S (σ.define s name v) := ⟨le_rfl, hGains, hConfined⟩
  exact of_eq rfl hOnward ⟨hOnward.value hv, Store.provides_define h.lt_size name v⟩

/-- The needs of a function are those of its literal. -/
theorem close (h : σ.Ready S s) {parameters : List String} {body : List Stmt}
    (hNeeds : σ.Provides s (Expr.fn parameters body).needs) :
    FindsValue S σ (Run.close s parameters body) := by
  have hGains : σ.Gains (σ.close s parameters body).2 := .close σ s parameters body
  have hConfined := (h.confined.close s parameters body).mono fun _ hc => hc.mono hGains
  exact of_eq rfl ⟨le_rfl, hGains, hConfined⟩ ⟨hNeeds.mono hGains, h.mem⟩

/-- In a new scope with the parameters the body of a function can be evaluated. -/
theorem openScope (h : σ.Confines (Closure.Supplied σ) S) {c : Closure} (hc : c.Supplied σ)
    (hScope : S c.scope) {bs : List (String × Value)}
    (hbs : ∀ name v, bs.lookup name = some v → v.Confined (Closure.Supplied σ) S)
    (hParameters : ∀ name ∈ c.parameters, (bs.lookup name).isSome) :
    Finds (fun τ T s => τ.Ready T s ∧ τ.Provides s (Stmt.needsList c.body)) S σ
      (Run.openScope c.scope bs) := by
  have hGains : σ.Gains (σ.openScope (some c.scope) bs).2 := .openScope σ (some c.scope) bs
  have hConfined := (h.openScope hScope hbs).mono fun _ hc => hc.mono hGains
  have hSize : σ.scopes.size < (σ.openScope (some c.scope) bs).2.scopes.size := by
    simp [Store.openScope]
  exact of_eq rfl ⟨fun _ hs => .inl hs, hGains, hConfined⟩
    ⟨⟨hConfined, .inr rfl, hSize⟩, hc.provides_openScope hParameters⟩

theorem mono {R' : Store → (ScopeId → Prop) → α → Prop} {m : Run α} (hm : Finds R S σ m)
    (hle : ∀ τ T a, R τ T a → R' τ T a) : Finds R' S σ m := by
  intro c τ h
  rcases hm c τ h with ⟨T, hOnward, hc⟩
  refine ⟨T, hOnward, ?_⟩
  cases c with
  | value a => exact hle τ T a hc
  | returned v => exact hc
  | failed e => exact hc

/-- One run and, behind it, whatever goes on with its value. -/
theorem bind {m : Run α} {f : α → Run β} (hm : Finds R S σ m)
    (hf : ∀ T τ a, Onward S σ T τ → R τ T a → Finds Q T τ (f a)) : Finds Q S σ (m >>= f) := by
  intro c υ h
  rcases exists_of_bind h with ⟨a, τ, hFirst, hRest⟩ | ⟨x, hFirst, rfl⟩
  · rcases hm _ τ hFirst with ⟨T, hOnward, ha⟩
    rcases hf T τ a hOnward ha c υ hRest with ⟨U, hFurther, hc⟩
    exact ⟨U, hOnward.trans hFurther, hc⟩
  · rcases hm _ υ hFirst with ⟨T, hOnward, hx⟩
    refine ⟨T, hOnward, ?_⟩
    cases x with
    | returned v => exact hx
    | failed e => exact hx

theorem settle {m : Run Value} (hm : FindsValue S σ m) : FindsValue S σ (Run.settle m) := by
  intro c τ h
  rcases exists_of_settle h with ⟨d, hRun, rfl⟩
  rcases hm d τ hRun with ⟨T, hOnward, hd⟩
  refine ⟨T, hOnward, ?_⟩
  -- what a `return` carries is as a value has to be
  cases d with
  | value v => exact hd
  | returned v => exact hd
  | failed e => exact hd

end Finds
end Run

/-! ## Every evaluation -/

open Run (Finds FindsValue)

/-- With `fuel` nested steps, whatever has its needs met in the scope that it is evaluated in misses
no name, and neither do calls of functions that have theirs met. -/
structure FindsAt (fuel : Nat) : Prop where
  expr : ∀ S σ s e, σ.Ready S s → σ.Provides s e.needs → FindsValue S σ (evalExpr fuel s e)
  exprs : ∀ S σ s es, σ.Ready S s → σ.Provides s (Expr.needsList es) →
    Finds (fun τ T vs => ∀ v ∈ vs, v.Confined (Closure.Supplied τ) T) S σ (evalExprs fuel s es)
  apply : ∀ S σ f vs, σ.Confines (Closure.Supplied σ) S → f.Confined (Closure.Supplied σ) S →
    (∀ v ∈ vs, v.Confined (Closure.Supplied σ) S) → FindsValue S σ (applyValue fuel f vs)
  stmt : ∀ S σ s st, σ.Ready S s → σ.Provides s st.needs →
    Finds (fun τ T v => v.Confined (Closure.Supplied τ) T ∧ τ.Provides s st.binds) S σ
      (evalStmt fuel s st)
  stmts : ∀ S σ s v ss, σ.Ready S s → v.Confined (Closure.Supplied σ) S →
    σ.Provides s (Stmt.needsList ss) → FindsValue S σ (evalStmts fuel s v ss)

namespace FindsAt

variable {fuel : Nat}

/-- Without any step nothing ends. -/
theorem zero : FindsAt 0 where
  expr S σ s e h he := by
    rw [evalExpr]
    exact .exhausted
  exprs S σ s es h hes := by
    rw [evalExprs]
    exact .exhausted
  apply S σ f vs h hf hvs := by
    rw [applyValue]
    exact .exhausted
  stmt S σ s st h hst := by
    rw [evalStmt]
    exact .exhausted
  stmts S σ s v ss h hv hss := by
    rw [evalStmts]
    exact .exhausted

theorem expr_succ (ih : FindsAt fuel) (S : ScopeId → Prop) (σ : Store) (s : ScopeId) (e : Expr)
    (h : σ.Ready S s) (he : σ.Provides s e.needs) : FindsValue S σ (evalExpr (fuel + 1) s e) := by
  cases e with
  | ident name =>
      simp only [evalExpr]
      exact .lookUp h (he name (List.mem_singleton_self name))
  | int n =>
      simp only [evalExpr]
      exact .pure h.confined trivial
  | bool b =>
      simp only [evalExpr]
      exact .pure h.confined trivial
  | prefixOp op right =>
      simp only [evalExpr]
      refine (ih.expr S σ s right h he).bind fun T τ v hOn _ => ?_
      exact .ofExcept hOn.confined (fun w => op.type_apply_ne) fun e => op.other_of_apply
  | infixOp op left right =>
      simp only [evalExpr]
      rcases Store.provides_append.1 he with ⟨hLeft, hRight⟩
      refine (ih.expr S σ s left h hLeft).bind fun T τ v hOn _ => ?_
      have hRight' := hRight.mono hOn.gains
      refine (ih.expr T τ s right (hOn.ready h) hRight').bind fun U υ w hOn' _ => ?_
      exact .ofExcept hOn'.confined (fun u => op.type_apply_ne) fun e => op.other_of_apply
  | cond condition consequence alternative =>
      cases alternative with
      | none =>
          simp only [evalExpr]
          rcases Store.provides_append.1 he with ⟨hCondition, hYes⟩
          refine (ih.expr S σ s condition h hCondition).bind fun T τ v hOn _ => ?_
          split
          · exact ih.stmts T τ s .null consequence (hOn.ready h) trivial (hYes.mono hOn.gains)
          · exact .pure hOn.confined trivial
      | some body =>
          simp only [evalExpr]
          rcases Store.provides_append.1 he with ⟨hCondition, hBranches⟩
          rcases Store.provides_append.1 hBranches with ⟨hYes, hNo⟩
          refine (ih.expr S σ s condition h hCondition).bind fun T τ v hOn _ => ?_
          split
          · exact ih.stmts T τ s .null consequence (hOn.ready h) trivial (hYes.mono hOn.gains)
          · exact ih.stmts T τ s .null body (hOn.ready h) trivial (hNo.mono hOn.gains)
  | fn parameters body =>
      simp only [evalExpr]
      exact .close h he
  | call callee arguments =>
      simp only [evalExpr]
      rcases Store.provides_append.1 he with ⟨hCallee, hArguments⟩
      refine (ih.expr S σ s callee h hCallee).bind fun T τ f hOn hf => ?_
      have hArguments' := hArguments.mono hOn.gains
      refine (ih.exprs T τ s arguments (hOn.ready h) hArguments').bind fun U υ vs hOn' hvs => ?_
      exact ih.apply U υ f vs hOn'.confined (hOn'.value hf) hvs

theorem exprs_succ (ih : FindsAt fuel) (S : ScopeId → Prop) (σ : Store) (s : ScopeId)
    (es : List Expr) (h : σ.Ready S s) (hes : σ.Provides s (Expr.needsList es)) :
    Finds (fun τ T vs => ∀ v ∈ vs, v.Confined (Closure.Supplied τ) T) S σ
      (evalExprs (fuel + 1) s es) := by
  cases es with
  | nil =>
      simp only [evalExprs]
      exact .pure h.confined (List.forall_mem_nil _)
  | cons e es =>
      simp only [evalExprs]
      rcases Store.provides_append.1 hes with ⟨hFirst, hRest⟩
      refine (ih.expr S σ s e h hFirst).bind fun T τ v hOn hv => ?_
      have hRest' := hRest.mono hOn.gains
      refine (ih.exprs T τ s es (hOn.ready h) hRest').bind fun U υ vs hOn' hvs => ?_
      exact .pure hOn'.confined (List.forall_mem_cons.2 ⟨hOn'.value hv, hvs⟩)

theorem apply_succ (ih : FindsAt fuel) (S : ScopeId → Prop) (σ : Store) (f : Value)
    (vs : List Value) (h : σ.Confines (Closure.Supplied σ) S)
    (hf : f.Confined (Closure.Supplied σ) S) (hvs : ∀ v ∈ vs, v.Confined (Closure.Supplied σ) S) :
    FindsValue S σ (applyValue (fuel + 1) f vs) := by
  cases f with
  | function c =>
      simp only [applyValue]
      split
      · next hCount =>
          have hBindings : ∀ name v, (rebindAll [] (c.parameters.zip vs)).lookup name = some v →
              v.Confined (Closure.Supplied σ) S := fun name v hv =>
            hvs v (mem_of_lookup_rebindAll hv)
          have hParameters := isSome_lookup_rebindAll hCount
          refine (Finds.openScope h hf.1 hf.2 hBindings hParameters).bind fun T τ s hOn hBody => ?_
          exact (ih.stmts T τ s .null c.body hBody.1 trivial hBody.2).settle
      · exact .fail h nofun
  | integer n =>
      simp only [applyValue]
      exact .fail h nofun
  | boolean b =>
      simp only [applyValue]
      exact .fail h nofun
  | null =>
      simp only [applyValue]
      exact .fail h nofun

theorem stmt_succ (ih : FindsAt fuel) (S : ScopeId → Prop) (σ : Store) (s : ScopeId) (st : Stmt)
    (h : σ.Ready S s) (hst : σ.Provides s st.needs) :
    Finds (fun τ T v => v.Confined (Closure.Supplied τ) T ∧ τ.Provides s st.binds) S σ
      (evalStmt (fuel + 1) s st) := by
  cases st with
  | bind name e =>
      simp only [evalStmt]
      exact (ih.expr S σ s e h hst).bind fun T τ v hOn hv => .define (hOn.ready h) name hv
  | ret value =>
      cases value with
      | none =>
          simp only [evalStmt]
          exact .leave h.confined trivial
      | some e =>
          simp only [evalStmt]
          exact (ih.expr S σ s e h hst).bind fun T τ v hOn hv => .leave hOn.confined hv
  | expr e =>
      simp only [evalStmt]
      exact (ih.expr S σ s e h hst).mono fun τ T v hv => ⟨hv, .nil τ s⟩
  | block body =>
      simp only [evalStmt]
      exact (ih.stmts S σ s .null body h trivial hst).mono fun τ T v hv => ⟨hv, .nil τ s⟩

theorem stmts_succ (ih : FindsAt fuel) (S : ScopeId → Prop) (σ : Store) (s : ScopeId) (v : Value)
    (ss : List Stmt) (h : σ.Ready S s) (hv : v.Confined (Closure.Supplied σ) S)
    (hss : σ.Provides s (Stmt.needsList ss)) : FindsValue S σ (evalStmts (fuel + 1) s v ss) := by
  cases ss with
  | nil =>
      simp only [evalStmts]
      exact .pure h.confined hv
  | cons st ss =>
      simp only [evalStmts]
      rcases Store.provides_append.1 hss with ⟨hFirst, hRest⟩
      refine (ih.stmt S σ s st h hFirst).bind fun T τ w hOn hw => ?_
      -- the name that the statement binds is there now, if it binds one
      exact ih.stmts T τ s w ss (hOn.ready h) hw.1 ((hRest.mono hOn.gains).of_filter hw.2)

end FindsAt

theorem findsAt (fuel : Nat) : FindsAt fuel := by
  induction fuel with
  | zero => exact .zero
  | succ fuel ih => exact ⟨ih.expr_succ, ih.exprs_succ, ih.apply_succ, ih.stmt_succ, ih.stmts_succ⟩

/-! ## Programs -/

/-- Let a program be run in a scope that provides what it needs, and let the needs of every function
that can be reached from there be met.  Then the run does not end by a name that is not found, and
the needs of every function that can be reached afterwards, from the scope and from the value that
came out, are met. -/
theorem eval_finds_names {fuel : Nat} {p : Program} {s : ScopeId} {σ τ : Store}
    {r : Except EvalError Value} (hs : s < σ.scopes.size) (hProgram : σ.Provides s p.needs)
    (hBodies : ∀ c, σ.ReachesClosure ⟨[s], []⟩ c → σ.Provides c.scope c.needs)
    (h : eval fuel p s σ = some (r, τ)) :
    (∀ name, r ≠ .error (.identifierNotFound name)) ∧
      ∀ c, τ.ReachesClosure ((⟨[s], []⟩ : Roots).with r) c → τ.Provides c.scope c.needs := by
  have hReady : σ.Ready (σ.Reaches ⟨[s], []⟩) s :=
    ⟨Store.confines_reaches hBodies, .scope List.mem_cons_self, hs⟩
  rcases Option.map_eq_some_iff.1 h with ⟨⟨c, υ⟩, hRun, hResult⟩
  cases hResult
  rcases (findsAt fuel).stmts _ σ s .null p.statements hReady trivial hProgram c τ hRun with
    ⟨T, hOnward, hc⟩
  have hStart : ∀ t ∈ [s], T t := fun t ht => by
    rw [List.mem_singleton.1 ht]
    exact hOnward.more s hReady.mem
  -- a value, or one that a `return` came to
  have hValue : ∀ v, v.Confined (Closure.Supplied τ) T →
      ∀ c, τ.ReachesClosure ⟨[s], [v]⟩ c → τ.Provides c.scope c.needs := fun v hv =>
    (hOnward.confined.of_reaches hStart (List.forall_mem_singleton.2 hv)).2
  cases c with
  | value v => exact ⟨nofun, hValue v hc⟩
  | returned v => exact ⟨nofun, hValue v hc⟩
  | failed e =>
      refine ⟨fun name hError => hc name (Except.error.inj hError), ?_⟩
      exact (hOnward.confined.of_reaches hStart (List.forall_mem_nil _)).2

/-- A function that uses a name of the scope that it was made in, and a scope inside that one. -/
def capturingStore : Store :=
  ⟨#[⟨none, [("a", .integer 1),
      ("f", .function ⟨0, ["x"], [.expr (.infixOp .plus (.ident "x") (.ident "a"))], 0⟩)]⟩,
    ⟨some 0, []⟩], 1⟩

/-- A function that is made behind a `let` whose name it uses. -/
theorem eval_finds_names_sample :
    ∃ τ, eval 20
        ⟨[.bind "b" (.int 2), .bind "g" (.fn ["y"]
            [.expr (.infixOp .plus (.call (.ident "f") [.ident "y"]) (.ident "b"))]),
          .expr (.call (.ident "g") [.int 3])]⟩ 1 capturingStore = some (.ok (.integer 6), τ) ∧
      ∀ c, τ.ReachesClosure ⟨[1], [.integer 6]⟩ c → τ.Provides c.scope c.needs := by
  have hRun : eval 20
      ⟨[.bind "b" (.int 2), .bind "g" (.fn ["y"]
          [.expr (.infixOp .plus (.call (.ident "f") [.ident "y"]) (.ident "b"))]),
        .expr (.call (.ident "g") [.int 3])]⟩ 1 capturingStore =
      some (.ok (.integer 6),
        ⟨#[⟨none, [("a", .integer 1),
            ("f", .function ⟨0, ["x"], [.expr (.infixOp .plus (.ident "x") (.ident "a"))], 0⟩)]⟩,
          ⟨some 0, [("b", .integer 2),
            ("g", .function ⟨1, ["y"],
              [.expr (.infixOp .plus (.call (.ident "f") [.ident "y"]) (.ident "b"))], 1⟩)]⟩,
          ⟨some 1, [("y", .integer 3)]⟩, ⟨some 0, [("x", .integer 3)]⟩], 2⟩) := by
    with_unfolding_all rfl
  have hProgram : capturingStore.Provides 1 ["f"] := by
    intro name hName
    rw [List.mem_singleton.1 hName, Store.get?_of_outward rfl rfl rfl Nat.one_pos,
      Store.get?_of_found rfl rfl]
    rfl
  have hBodies : ∀ c, capturingStore.ReachesClosure ⟨[1], []⟩ c →
      capturingStore.Provides c.scope c.needs := by
    intro c hc
    rcases hc.mem_bindings with ⟨scope, hScope, name, hBound⟩
    simp only [capturingStore, List.mem_toArray, List.mem_cons, List.not_mem_nil,
      or_false] at hScope
    rcases hScope with rfl | rfl
    · simp only [List.mem_cons, Prod.mk.injEq, reduceCtorEq, and_false, Value.function.injEq,
        List.not_mem_nil, or_false, false_or] at hBound
      rw [hBound.2]
      intro n hn
      have hA : n = "a" := List.mem_singleton.1 hn
      rw [hA, Store.get?_of_found rfl rfl]
      rfl
    · cases hBound
  exact ⟨_, hRun, (eval_finds_names (by decide) hProgram hBodies hRun).2⟩

end MonkeyLang
