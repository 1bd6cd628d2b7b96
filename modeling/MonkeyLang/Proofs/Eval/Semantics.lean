import MonkeyLang.Eval.Program
import MonkeyLang.Proofs.Eval.Operation

/-!
# Semantics — the rules of evaluation

What it means for expressions, statements and calls to be evaluated, as relations between the
store before, the completion, and the store after.  There are three kinds of completion: a value,
a `return` on its way outward, and a failure.  The rules count no steps, so a derivation is a
finite tree and an evaluation that goes on for ever has none.

Each construct has one rule for its regular course and one rule for each of its parts that may end
in something other than a value.  In the latter nothing behind that part is mentioned.
-/

namespace MonkeyLang

/-! ## Completions -/

/-- The completions that are no value: nothing behind them is evaluated. -/
inductive Exit
  | returned (v : Value)
  | failed (e : EvalError)

/-- An exit completes evaluations of every kind. -/
def Exit.completion {α : Type} : Exit → Completion α
  | .returned v => .returned v
  | .failed e => .failed e

theorem Exit.value_ne_completion {α : Type} (x : Exit) (a : α) :
    Completion.value a ≠ x.completion := by
  cases x <;> nofun

/-- The completion with the result of an operator. -/
def Completion.ofExcept {α : Type} : Except EvalError α → Completion α
  | .ok a => .value a
  | .error e => .failed e

/-! ## Names -/

namespace Store

/-- `σ.Sees name s v`: seen from the scope `s`, the name means `v`.  The nearest scope that binds
the name counts; the scope around another one is one that was opened before it. -/
inductive Sees (σ : Store) (name : String) : ScopeId → Value → Prop
  | here {s : ScopeId} {scope : Scope} {v : Value} (hScope : σ.scopes[s]? = some scope)
      (hFound : scope.find? name = some v) : Sees σ name s v
  | outward {s outer : ScopeId} {scope : Scope} {v : Value} (hScope : σ.scopes[s]? = some scope)
      (hMissing : scope.find? name = none) (hOuter : scope.enclosing = some outer)
      (hEarlier : outer < s) (h : Sees σ name outer v) : Sees σ name s v

theorem Sees.get?_eq {σ : Store} {name : String} {s : ScopeId} {v : Value}
    (h : σ.Sees name s v) : σ.get? s name = some v := by
  induction h with
  | here hScope hFound => exact get?_of_found hScope hFound
  | outward hScope hMissing hOuter hEarlier _ ih =>
      rw [get?_of_outward hScope hMissing hOuter hEarlier, ih]

theorem sees_of_get? {σ : Store} {name : String} {s : ScopeId} {v : Value}
    (h : σ.get? s name = some v) : σ.Sees name s v := by
  -- by the way outward
  induction s using Nat.strongRecOn with
  | ind s ih =>
      rw [get?] at h
      cases hScope : σ.scopes[s]? with
      | none => simp [hScope] at h
      | some scope =>
          simp only [hScope] at h
          cases hFound : scope.find? name with
          | some w =>
              simp only [hFound, Option.some.injEq] at h
              subst h
              exact .here hScope hFound
          | none =>
              simp only [hFound] at h
              cases hOuter : scope.enclosing with
              | none => simp [hOuter] at h
              | some outer =>
                  simp only [hOuter] at h
                  split at h
                  · next hEarlier => exact .outward hScope hFound hOuter hEarlier (ih outer hEarlier h)
                  · cases h

theorem get?_eq_some_iff {σ : Store} {name : String} {s : ScopeId} {v : Value} :
    σ.get? s name = some v ↔ σ.Sees name s v :=
  ⟨sees_of_get?, Sees.get?_eq⟩

theorem get?_eq_none_iff {σ : Store} {name : String} {s : ScopeId} :
    σ.get? s name = none ↔ ∀ v, ¬ σ.Sees name s v := by
  simp only [← get?_eq_some_iff, Option.eq_none_iff_forall_ne_some, ne_eq]

/-! ## Parameters -/

/-- Bind names in a scope, one after the other. -/
def defineAll (σ : Store) (s : ScopeId) : List (String × Value) → Store
  | [] => σ
  | (name, v) :: rest => (σ.define s name v).defineAll s rest

theorem eq_of_openScope {σ τ : Store} {s : ScopeId} {enclosing : Option ScopeId}
    {bindings : List (String × Value)} (h : σ.openScope enclosing bindings = (s, τ)) :
    s = σ.scopes.size ∧ τ = (σ.openScope enclosing bindings).2 := by
  cases h
  exact ⟨rfl, rfl⟩

theorem define_openScope (σ : Store) (enclosing : Option ScopeId)
    (bindings : List (String × Value)) (name : String) (v : Value) :
    (σ.openScope enclosing bindings).2.define σ.scopes.size name v =
      (σ.openScope enclosing (rebind name v bindings)).2 := by
  have hScopes : (σ.scopes.push ⟨enclosing, bindings⟩).modify σ.scopes.size
      (fun scope => scope.insert name v) = σ.scopes.push ⟨enclosing, rebind name v bindings⟩ := by
    refine Array.ext_getElem? fun t => ?_
    simp only [Array.getElem?_modify, Array.getElem?_push]
    by_cases ht : σ.scopes.size = t
    · simp only [ht, if_true, Option.map_some, Scope.insert]
    · simp only [ht, Ne.symm ht, if_false]
  simp only [openScope, define, hScopes]

/-- Names that are bound one after the other in a new scope are its bindings. -/
theorem defineAll_openScope (σ : Store) (enclosing : Option ScopeId)
    (pairs bindings : List (String × Value)) :
    (σ.openScope enclosing bindings).2.defineAll σ.scopes.size pairs =
      (σ.openScope enclosing (rebindAll bindings pairs)).2 := by
  induction pairs generalizing bindings with
  | nil => rfl
  | cons pair pairs ih =>
      obtain ⟨name, v⟩ := pair
      calc
        (σ.openScope enclosing bindings).2.defineAll σ.scopes.size ((name, v) :: pairs)
            = ((σ.openScope enclosing bindings).2.define σ.scopes.size name v).defineAll
                σ.scopes.size pairs := rfl
        _ = (σ.openScope enclosing (rebind name v bindings)).2.defineAll σ.scopes.size pairs := by
              rw [define_openScope]
        _ = (σ.openScope enclosing (rebindAll bindings ((name, v) :: pairs))).2 :=
              ih (rebind name v bindings)

end Store

theorem lookup_rebindAll (name : String) (pairs bindings : List (String × Value)) :
    (rebindAll bindings pairs).lookup name =
      (pairs.reverse.lookup name).or (bindings.lookup name) := by
  induction pairs generalizing bindings with
  | nil => rfl
  | cons pair pairs ih =>
      obtain ⟨n, v⟩ := pair
      have hFirst : (rebind n v bindings).lookup name =
          ([(n, v)].lookup name).or (bindings.lookup name) := by
        by_cases hName : name = n
        · rw [hName, lookup_rebind_self, List.lookup_cons_self, Option.some_or]
        · rw [lookup_rebind_of_ne v bindings hName, List.lookup_cons,
            beq_eq_false_iff_ne.2 hName]
          rfl
      rw [rebindAll, ih, hFirst, List.reverse_cons, List.lookup_append, Option.or_assoc]

/-! ## Rules -/

namespace BigStep

mutual

/-- `Evaluates s σ e c τ`: in the scope `s` of the store `σ` the expression `e` completes with
`c` and leaves the store `τ`. -/
inductive Evaluates : ScopeId → Store → Expr → Completion Value → Store → Prop
  -- atoms
  | ident {s : ScopeId} {σ : Store} {name : String} {v : Value} (h : σ.Sees name s v) :
      Evaluates s σ (.ident name) (.value v) σ
  | unbound {s : ScopeId} {σ : Store} {name : String} (h : ∀ v, ¬ σ.Sees name s v) :
      Evaluates s σ (.ident name) (.failed (.identifierNotFound name)) σ
  | int {s : ScopeId} {σ : Store} (n : Int64) : Evaluates s σ (.int n) (.value (.integer n)) σ
  | bool {s : ScopeId} {σ : Store} (b : Bool) : Evaluates s σ (.bool b) (.value (.boolean b)) σ
  | fn {s : ScopeId} {σ τ : Store} {parameters : List String} {body : List Stmt} {c : Closure}
      (hClose : σ.close s parameters body = (c, τ)) :
      Evaluates s σ (.fn parameters body) (.value (.function c)) τ
  -- operators
  | prefixOp {s : ScopeId} {σ τ : Store} {op : PrefixOp} {right : Expr} {v : Value}
      {r : Except EvalError Value} (hRight : Evaluates s σ right (.value v) τ)
      (hOp : op.Gives v r) : Evaluates s σ (.prefixOp op right) (.ofExcept r) τ
  | prefixExit {s : ScopeId} {σ τ : Store} {op : PrefixOp} {right : Expr} {x : Exit}
      (hRight : Evaluates s σ right x.completion τ) :
      Evaluates s σ (.prefixOp op right) x.completion τ
  | infixOp {s : ScopeId} {σ τ υ : Store} {op : InfixOp} {left right : Expr} {v w : Value}
      {r : Except EvalError Value} (hLeft : Evaluates s σ left (.value v) τ)
      (hRight : Evaluates s τ right (.value w) υ) (hOp : op.Gives v w r) :
      Evaluates s σ (.infixOp op left right) (.ofExcept r) υ
  | leftExit {s : ScopeId} {σ τ : Store} {op : InfixOp} {left right : Expr} {x : Exit}
      (hLeft : Evaluates s σ left x.completion τ) :
      Evaluates s σ (.infixOp op left right) x.completion τ
  | rightExit {s : ScopeId} {σ τ υ : Store} {op : InfixOp} {left right : Expr} {v : Value}
      {x : Exit} (hLeft : Evaluates s σ left (.value v) τ)
      (hRight : Evaluates s τ right x.completion υ) :
      Evaluates s σ (.infixOp op left right) x.completion υ
  -- conditionals
  | consequence {s : ScopeId} {σ τ υ : Store} {condition : Expr} {yes : List Stmt}
      {no : Option (List Stmt)} {v : Value} {c : Completion Value}
      (hCondition : Evaluates s σ condition (.value v) τ) (hTrue : ¬ v.Falsy)
      (hYes : ExecutesAll s τ yes c υ) : Evaluates s σ (.cond condition yes no) c υ
  | alternative {s : ScopeId} {σ τ υ : Store} {condition : Expr} {yes no : List Stmt}
      {v : Value} {c : Completion Value} (hCondition : Evaluates s σ condition (.value v) τ)
      (hFalse : v.Falsy) (hNo : ExecutesAll s τ no c υ) :
      Evaluates s σ (.cond condition yes (some no)) c υ
  | noAlternative {s : ScopeId} {σ τ : Store} {condition : Expr} {yes : List Stmt} {v : Value}
      (hCondition : Evaluates s σ condition (.value v) τ) (hFalse : v.Falsy) :
      Evaluates s σ (.cond condition yes none) (.value .null) τ
  | conditionExit {s : ScopeId} {σ τ : Store} {condition : Expr} {yes : List Stmt}
      {no : Option (List Stmt)} {x : Exit} (hCondition : Evaluates s σ condition x.completion τ) :
      Evaluates s σ (.cond condition yes no) x.completion τ
  -- calls
  | call {s : ScopeId} {σ τ υ ω : Store} {callee : Expr} {arguments : List Expr} {f : Value}
      {vs : List Value} {c : Completion Value} (hCallee : Evaluates s σ callee (.value f) τ)
      (hArguments : EvaluatesAll s τ arguments (.value vs) υ) (hCall : Calls υ f vs c ω) :
      Evaluates s σ (.call callee arguments) c ω
  | calleeExit {s : ScopeId} {σ τ : Store} {callee : Expr} {arguments : List Expr} {x : Exit}
      (hCallee : Evaluates s σ callee x.completion τ) :
      Evaluates s σ (.call callee arguments) x.completion τ
  | argumentExit {s : ScopeId} {σ τ υ : Store} {callee : Expr} {arguments : List Expr}
      {f : Value} {x : Exit} (hCallee : Evaluates s σ callee (.value f) τ)
      (hArguments : EvaluatesAll s τ arguments x.completion υ) :
      Evaluates s σ (.call callee arguments) x.completion υ

/-- Expressions in order, up to the first that does not come to a value. -/
inductive EvaluatesAll : ScopeId → Store → List Expr → Completion (List Value) → Store → Prop
  | nil {s : ScopeId} {σ : Store} : EvaluatesAll s σ [] (.value []) σ
  | cons {s : ScopeId} {σ τ υ : Store} {e : Expr} {es : List Expr} {v : Value} {vs : List Value}
      (hFirst : Evaluates s σ e (.value v) τ) (hRest : EvaluatesAll s τ es (.value vs) υ) :
      EvaluatesAll s σ (e :: es) (.value (v :: vs)) υ
  | firstExit {s : ScopeId} {σ τ : Store} {e : Expr} {es : List Expr} {x : Exit}
      (hFirst : Evaluates s σ e x.completion τ) : EvaluatesAll s σ (e :: es) x.completion τ
  | restExit {s : ScopeId} {σ τ υ : Store} {e : Expr} {es : List Expr} {v : Value} {x : Exit}
      (hFirst : Evaluates s σ e (.value v) τ) (hRest : EvaluatesAll s τ es x.completion υ) :
      EvaluatesAll s σ (e :: es) x.completion υ

/-- `Calls σ f vs c τ`: the value `f` is called with the values `vs`.  Whether it is a function is
seen to first, then the number of arguments.  The body runs in a new scope, and this is the only
place where a `return` becomes a value. -/
inductive Calls : Store → Value → List Value → Completion Value → Store → Prop
  | noFunction {σ : Store} {f : Value} {vs : List Value} (h : f.type ≠ .function) :
      Calls σ f vs (.failed (.notAFunction f.type)) σ
  | argumentCount {σ : Store} {f : Closure} {vs : List Value}
      (h : vs.length ≠ f.parameters.length) :
      Calls σ (.function f) vs (.failed (.wrongArgumentCount f.parameters.length vs.length)) σ
  | value {σ τ υ : Store} {s : ScopeId} {f : Closure} {vs : List Value} {v : Value}
      (hCount : vs.length = f.parameters.length)
      (hOpen : σ.openScope (some f.scope) [] = (s, τ))
      (hBody : ExecutesAll s (τ.defineAll s (f.parameters.zip vs)) f.body (.value v) υ) :
      Calls σ (.function f) vs (.value v) υ
  | returned {σ τ υ : Store} {s : ScopeId} {f : Closure} {vs : List Value} {v : Value}
      (hCount : vs.length = f.parameters.length)
      (hOpen : σ.openScope (some f.scope) [] = (s, τ))
      (hBody : ExecutesAll s (τ.defineAll s (f.parameters.zip vs)) f.body (.returned v) υ) :
      Calls σ (.function f) vs (.value v) υ
  | failed {σ τ υ : Store} {s : ScopeId} {f : Closure} {vs : List Value} {e : EvalError}
      (hCount : vs.length = f.parameters.length)
      (hOpen : σ.openScope (some f.scope) [] = (s, τ))
      (hBody : ExecutesAll s (τ.defineAll s (f.parameters.zip vs)) f.body (.failed e) υ) :
      Calls σ (.function f) vs (.failed e) υ

/-- A statement.  A name is bound behind the evaluation of its value, in the scope itself. -/
inductive Executes : ScopeId → Store → Stmt → Completion Value → Store → Prop
  | bind {s : ScopeId} {σ τ : Store} {name : String} {e : Expr} {v : Value}
      (hValue : Evaluates s σ e (.value v) τ) :
      Executes s σ (.bind name e) (.value v) (τ.define s name v)
  | bindExit {s : ScopeId} {σ τ : Store} {name : String} {e : Expr} {x : Exit}
      (hValue : Evaluates s σ e x.completion τ) : Executes s σ (.bind name e) x.completion τ
  | ret {s : ScopeId} {σ : Store} : Executes s σ (.ret none) (.returned .null) σ
  | retValue {s : ScopeId} {σ τ : Store} {e : Expr} {v : Value}
      (hValue : Evaluates s σ e (.value v) τ) : Executes s σ (.ret (some e)) (.returned v) τ
  | retExit {s : ScopeId} {σ τ : Store} {e : Expr} {x : Exit}
      (hValue : Evaluates s σ e x.completion τ) : Executes s σ (.ret (some e)) x.completion τ
  | expr {s : ScopeId} {σ τ : Store} {e : Expr} {c : Completion Value}
      (hValue : Evaluates s σ e c τ) : Executes s σ (.expr e) c τ
  | block {s : ScopeId} {σ τ : Store} {body : List Stmt} {c : Completion Value}
      (hBody : ExecutesAll s σ body c τ) : Executes s σ (.block body) c τ

/-- Statements in order, up to the first that does not come to a value.  The value is that of the
last one, and null if there is none. -/
inductive ExecutesAll : ScopeId → Store → List Stmt → Completion Value → Store → Prop
  | nil {s : ScopeId} {σ : Store} : ExecutesAll s σ [] (.value .null) σ
  | last {s : ScopeId} {σ τ : Store} {st : Stmt} {v : Value}
      (hFirst : Executes s σ st (.value v) τ) : ExecutesAll s σ [st] (.value v) τ
  | cons {s : ScopeId} {σ τ υ : Store} {st next : Stmt} {ss : List Stmt} {v : Value}
      {c : Completion Value} (hFirst : Executes s σ st (.value v) τ)
      (hRest : ExecutesAll s τ (next :: ss) c υ) : ExecutesAll s σ (st :: next :: ss) c υ
  | exit {s : ScopeId} {σ τ : Store} {st : Stmt} {ss : List Stmt} {x : Exit}
      (hFirst : Executes s σ st x.completion τ) : ExecutesAll s σ (st :: ss) x.completion τ

end

/-- `Runs s σ p r τ`: as a program `p` comes to the result `r`.  A `return` that no call stopped
becomes its value. -/
inductive Runs (s : ScopeId) (σ : Store) (p : Program) : Except EvalError Value → Store → Prop
  | value {τ : Store} {v : Value} (h : ExecutesAll s σ p.statements (.value v) τ) :
      Runs s σ p (.ok v) τ
  | returned {τ : Store} {v : Value} (h : ExecutesAll s σ p.statements (.returned v) τ) :
      Runs s σ p (.ok v) τ
  | failed {τ : Store} {e : EvalError} (h : ExecutesAll s σ p.statements (.failed e) τ) :
      Runs s σ p (.error e) τ

end BigStep
end MonkeyLang
