import MonkeyLang.Proofs.Eval.Adequacy

/-!
# Early exit — what a `return` or an error cuts through

An evaluation that comes to a part of a term, with everything before that part evaluated to values,
ends when the part ends in a `return` or in an error: with that same exit and with the store that
the part left.  So nothing to the right of the part is evaluated, no name around it is bound, no
call around it is made, and no operator gets to see the value that is returned.

`Enters` lists the places that a part can have in a term.  Each of them is the place of a premise
in a rule of `BigStep` that ends in an exit, and that rule is the proof.  A place inside a place is
reached by `Reaches`, to any depth, but never inside the body of a function that is called: there a
`return` ends, while errors go on (`ReachesAcross`).
-/

namespace MonkeyLang

open Run (Ends)

/-! ## Terms and their parts -/

/-- What can be evaluated in a scope. -/
inductive Term
  | expr (e : Expr)
  | stmt (st : Stmt)
  | stmts (ss : List Stmt)

namespace Term

def eval (fuel : Nat) (s : ScopeId) : Term → Run Value
  | .expr e => evalExpr fuel s e
  | .stmt st => evalStmt fuel s st
  | .stmts ss => evalStmts fuel s .null ss

/-- Granted enough steps, the evaluation on `σ` completes with `c` and leaves `τ`. -/
def EndsIn (s : ScopeId) (t : Term) (σ : Store) (c : Completion Value) (τ : Store) : Prop :=
  Ends (fun n => t.eval n s) σ c τ

/-- `Enters s t σ u τ`: the evaluation of `t` on `σ` comes to its part `u`, when the store is `τ`.
What stands before the part has come to values by then. -/
inductive Enters (s : ScopeId) : Term → Store → Term → Store → Prop
  -- operands
  | operand {σ : Store} {op : PrefixOp} {e : Expr} : Enters s (.expr (.prefixOp op e)) σ (.expr e) σ
  | left {σ : Store} {op : InfixOp} {l r : Expr} : Enters s (.expr (.infixOp op l r)) σ (.expr l) σ
  | right {σ τ : Store} {op : InfixOp} {l r : Expr} {v : Value}
      (hLeft : (Term.expr l).EndsIn s σ (.value v) τ) :
      Enters s (.expr (.infixOp op l r)) σ (.expr r) τ
  -- conditionals
  | condition {σ : Store} {e : Expr} {yes : List Stmt} {no : Option (List Stmt)} :
      Enters s (.expr (.cond e yes no)) σ (.expr e) σ
  | consequence {σ τ : Store} {e : Expr} {yes : List Stmt} {no : Option (List Stmt)} {v : Value}
      (hCondition : (Term.expr e).EndsIn s σ (.value v) τ) (hTrue : v.truthy = true) :
      Enters s (.expr (.cond e yes no)) σ (.stmts yes) τ
  | alternative {σ τ : Store} {e : Expr} {yes no : List Stmt} {v : Value}
      (hCondition : (Term.expr e).EndsIn s σ (.value v) τ) (hFalse : v.truthy = false) :
      Enters s (.expr (.cond e yes (some no))) σ (.stmts no) τ
  -- calls
  | callee {σ : Store} {f : Expr} {es : List Expr} : Enters s (.expr (.call f es)) σ (.expr f) σ
  | argument {σ τ υ : Store} {f e : Expr} {before after : List Expr} {v : Value} {vs : List Value}
      (hCallee : (Term.expr f).EndsIn s σ (.value v) τ)
      (hBefore : Ends (fun n => evalExprs n s before) τ (.value vs) υ) :
      Enters s (.expr (.call f (before ++ e :: after))) σ (.expr e) υ
  -- statements
  | bound {σ : Store} {name : String} {e : Expr} : Enters s (.stmt (.bind name e)) σ (.expr e) σ
  | returned {σ : Store} {e : Expr} : Enters s (.stmt (.ret (some e))) σ (.expr e) σ
  | value {σ : Store} {e : Expr} : Enters s (.stmt (.expr e)) σ (.expr e) σ
  | block {σ : Store} {ss : List Stmt} : Enters s (.stmt (.block ss)) σ (.stmts ss) σ
  | statement {σ τ : Store} {st : Stmt} {before after : List Stmt} {v : Value}
      (hBefore : (Term.stmts before).EndsIn s σ (.value v) τ) :
      Enters s (.stmts (before ++ st :: after)) σ (.stmt st) τ

/-- Any number of parts inside one another. -/
inductive Reaches (s : ScopeId) : Term → Store → Term → Store → Prop
  | here {t : Term} {σ : Store} : Reaches s t σ t σ
  | enter {t u w : Term} {σ τ υ : Store} (h : Enters s t σ u τ) (hs : Reaches s u τ w υ) :
      Reaches s t σ w υ

/-- `EntersBody s t σ f s' τ`: the term is a call of the function `f` with as many values as it has
parameters, and its evaluation on `σ` comes to the body of `f`, in the new scope `s'` of `τ`. -/
inductive EntersBody (s : ScopeId) : Term → Store → Closure → ScopeId → Store → Prop
  | call {σ τ υ ω : Store} {callee : Expr} {arguments : List Expr} {f : Closure} {vs : List Value}
      {s' : ScopeId} (hCallee : (Term.expr callee).EndsIn s σ (.value (.function f)) τ)
      (hArguments : Ends (fun n => evalExprs n s arguments) τ (.value vs) υ)
      (hCount : vs.length = f.parameters.length)
      (hOpen : υ.openScope (some f.scope) (rebindAll [] (f.parameters.zip vs)) = (s', ω)) :
      EntersBody s (.expr (.call callee arguments)) σ f s' ω

/-- Any number of parts inside one another, in the bodies of functions that are called, too. -/
inductive ReachesAcross : ScopeId → Term → Store → ScopeId → Term → Store → Prop
  | here {s : ScopeId} {t : Term} {σ : Store} : ReachesAcross s t σ s t σ
  | enter {s s' : ScopeId} {t u w : Term} {σ τ υ : Store} (h : Enters s t σ u τ)
      (hs : ReachesAcross s u τ s' w υ) : ReachesAcross s t σ s' w υ
  | call {s s' s'' : ScopeId} {t w : Term} {σ τ υ : Store} {f : Closure}
      (h : EntersBody s t σ f s' τ) (hs : ReachesAcross s' (.stmts f.body) τ s'' w υ) :
      ReachesAcross s t σ s'' w υ

end Term

/-! ## Exits behind values -/

namespace BigStep

variable {s : ScopeId} {σ τ υ : Store} {x : Exit}

theorem EvaluatesAll.exists_of_cons {e : Expr} {es : List Expr} {vs : List Value}
    (h : EvaluatesAll s σ (e :: es) (.value vs) υ) :
    ∃ v vs' τ, Evaluates s σ e (.value v) τ ∧ EvaluatesAll s τ es (.value vs') υ := by
  generalize hValue : Completion.value vs = c at h
  cases h with
  | cons hFirst hRest => exact ⟨_, _, _, hFirst, hRest⟩
  | @firstExit _ _ _ _ _ x _ => exact absurd hValue (x.value_ne_completion vs)
  | @restExit _ _ _ _ _ _ _ x _ _ => exact absurd hValue (x.value_ne_completion vs)

theorem EvaluatesAll.exit_behind {before after : List Expr} {e : Expr} {vs : List Value}
    (hBefore : EvaluatesAll s σ before (.value vs) τ) (h : Evaluates s τ e x.completion υ) :
    EvaluatesAll s σ (before ++ e :: after) x.completion υ := by
  induction before generalizing σ vs with
  | nil =>
      cases hBefore
      exact .firstExit h
  | cons b before ih =>
      rcases hBefore.exists_of_cons with ⟨v, vs', ρ, hFirst, hRest⟩
      exact .restExit hFirst (ih hRest)

theorem ExecutesAll.exists_of_cons {st : Stmt} {ss : List Stmt} {v : Value}
    (h : ExecutesAll s σ (st :: ss) (.value v) υ) :
    ∃ w w' τ, Executes s σ st (.value w) τ ∧ ExecutesAll s τ ss (.value w') υ := by
  generalize hValue : Completion.value v = c at h
  cases h with
  | last hFirst => exact ⟨_, _, _, hFirst, .nil⟩
  | cons hFirst hRest =>
      subst hValue
      exact ⟨_, _, _, hFirst, hRest⟩
  | @exit _ _ _ _ _ x _ => exact absurd hValue (x.value_ne_completion v)

/-- Statements behind others that come to a value. -/
theorem ExecutesAll.append {before after : List Stmt} {next : Stmt} {v : Value}
    {c : Completion Value} (hBefore : ExecutesAll s σ before (.value v) τ)
    (h : ExecutesAll s τ (next :: after) c υ) :
    ExecutesAll s σ (before ++ next :: after) c υ := by
  induction before generalizing σ v with
  | nil =>
      cases hBefore
      exact h
  | cons b before ih =>
      rcases hBefore.exists_of_cons with ⟨w, w', ρ, hFirst, hRest⟩
      -- something stands behind the first statement, if only the one that follows
      have hMore := ih hRest
      cases before with
      | nil => exact .cons hFirst hMore
      | cons b' before => exact .cons hFirst hMore

theorem ExecutesAll.exit_behind {before after : List Stmt} {st : Stmt} {v : Value}
    (hBefore : ExecutesAll s σ before (.value v) τ) (h : Executes s τ st x.completion υ) :
    ExecutesAll s σ (before ++ st :: after) x.completion υ :=
  hBefore.append (.exit h)

end BigStep

/-! ## One part -/

namespace Term

open BigStep

variable {s s' : ScopeId} {t u : Term} {σ τ υ : Store} {x : Exit}

theorem EndsIn.of_eval {n : Nat} {c : Completion Value} (h : t.eval n s σ = some (c, τ)) :
    t.EndsIn s σ c τ := by
  cases t with
  | expr e => exact (Run.ends_iff (fun _ _ hk => evalExpr_of_le hk s e)).2 ⟨n, h⟩
  | stmt st => exact (Run.ends_iff (fun _ _ hk => evalStmt_of_le hk s st)).2 ⟨n, h⟩
  | stmts ss => exact (Run.ends_iff (fun _ _ hk => evalStmts_of_le hk s .null ss)).2 ⟨n, h⟩

/-- An exit of the part is the exit of the term. -/
theorem Enters.exit (h : Enters s t σ u τ) (hExit : u.EndsIn s τ x.completion υ) :
    t.EndsIn s σ x.completion υ := by
  cases h with
  | operand => exact evaluates_iff.1 (.prefixExit (evaluates_iff.2 hExit))
  | left => exact evaluates_iff.1 (.leftExit (evaluates_iff.2 hExit))
  | right hLeft =>
      exact evaluates_iff.1 (.rightExit (evaluates_iff.2 hLeft) (evaluates_iff.2 hExit))
  | condition => exact evaluates_iff.1 (.conditionExit (evaluates_iff.2 hExit))
  | consequence hCondition hTrue =>
      have hTrue := Value.truthy_eq_true_iff.1 hTrue
      exact evaluates_iff.1
        (.consequence (evaluates_iff.2 hCondition) hTrue (executesAll_iff.2 hExit))
  | alternative hCondition hFalse =>
      have hFalse := Value.truthy_eq_false_iff.1 hFalse
      exact evaluates_iff.1
        (.alternative (evaluates_iff.2 hCondition) hFalse (executesAll_iff.2 hExit))
  | callee => exact evaluates_iff.1 (.calleeExit (evaluates_iff.2 hExit))
  | argument hCallee hBefore =>
      refine evaluates_iff.1 (.argumentExit (evaluates_iff.2 hCallee) ?_)
      exact (evaluatesAll_iff.2 hBefore).exit_behind (evaluates_iff.2 hExit)
  | bound => exact executes_iff.1 (.bindExit (evaluates_iff.2 hExit))
  | returned => exact executes_iff.1 (.retExit (evaluates_iff.2 hExit))
  | value => exact executes_iff.1 (.expr (evaluates_iff.2 hExit))
  | block => exact executes_iff.1 (.block (executesAll_iff.2 hExit))
  | statement hBefore =>
      exact executesAll_iff.1 ((executesAll_iff.2 hBefore).exit_behind (executes_iff.2 hExit))

theorem EntersBody.ends {f : Closure} {c : Completion Value} (h : EntersBody s t σ f s' τ)
    (hBody : (Term.stmts f.body).EndsIn s' τ c υ) : t.EndsIn s σ c.settled υ := by
  cases h with
  | call hCallee hArguments hCount hOpen =>
      rcases Store.eq_of_openScope hOpen with ⟨rfl, rfl⟩
      rw [← Store.defineAll_openScope] at hBody
      refine .of_succ ?_
      simp only [eval, evalExpr]
      exact Ends.bind hCallee (hArguments.bind (.call hCount rfl hBody))

/-! ## Any number of parts -/

theorem Reaches.exit (h : Reaches s t σ u τ) (hExit : u.EndsIn s τ x.completion υ) :
    t.EndsIn s σ x.completion υ := by
  induction h with
  | here => exact hExit
  | enter hEnters _ ih => exact hEnters.exit (ih hExit)

theorem ReachesAcross.failed {e : EvalError} (h : ReachesAcross s t σ s' u τ)
    (hExit : u.EndsIn s' τ (.failed e) υ) : t.EndsIn s σ (.failed e) υ := by
  induction h with
  | here => exact hExit
  | enter hEnters _ ih => exact hEnters.exit (x := .failed e) (ih hExit)
  | call hBody _ ih => exact hBody.ends (ih hExit)

theorem EndsIn.outcome {p : Program} {c : Completion Value}
    (h : (Term.stmts p.statements).EndsIn s σ c τ) :
    ∃ n, ∀ fuel, n ≤ fuel → MonkeyLang.eval fuel p s σ = some (c.result, τ) := by
  rcases h with ⟨n, h⟩
  exact ⟨n, fun fuel hFuel => Option.map_eq_some_iff.2 ⟨(c, τ), h fuel hFuel, rfl⟩⟩

end Term

open Term in
/-- An exit of a part is the exit of the whole, with the same store.  A `return` is stopped by the
nearest call around it, or by the program, and becomes its value.  An error passes every call. -/
theorem exit_cuts_through (s : ScopeId) (σ : Store) :
    (∀ t u τ (x : Exit) υ, Reaches s t σ u τ → u.EndsIn s τ x.completion υ →
      t.EndsIn s σ x.completion υ) ∧
    (∀ t f s' τ u υ v ω, EntersBody s t σ f s' τ → Reaches s' (.stmts f.body) τ u υ →
      u.EndsIn s' υ (.returned v) ω → t.EndsIn s σ (.value v) ω) ∧
    (∀ (p : Program) u τ v υ, Reaches s (.stmts p.statements) σ u τ →
      u.EndsIn s τ (.returned v) υ →
        ∃ n, ∀ fuel, n ≤ fuel → eval fuel p s σ = some (.ok v, υ)) ∧
    (∀ t s' u τ e υ, ReachesAcross s t σ s' u τ → u.EndsIn s' τ (.failed e) υ →
      t.EndsIn s σ (.failed e) υ) ∧
    (∀ (p : Program) s' u τ e υ, ReachesAcross s (.stmts p.statements) σ s' u τ →
      u.EndsIn s' τ (.failed e) υ →
        ∃ n, ∀ fuel, n ≤ fuel → eval fuel p s σ = some (.error e, υ)) := by
  refine ⟨?_, ?_, ?_, ?_, ?_⟩
  · intro t u τ x υ hReaches hExit
    exact hReaches.exit hExit
  · intro t f s' τ u υ v ω hBody hReaches hExit
    exact hBody.ends (hReaches.exit (x := .returned v) hExit)
  · intro p u τ v υ hReaches hExit
    exact (hReaches.exit (x := .returned v) hExit).outcome
  · intro t s' u τ e υ hReaches hExit
    exact hReaches.failed hExit
  · intro p s' u τ e υ hReaches hExit
    exact (hReaches.failed hExit).outcome

/-- A function with a `return` inside an operand. -/
def negatingClosure : Closure where
  id := 0
  parameters := ["x"]
  body :=
    [.expr (.prefixOp .bang
        (.cond (.bool true) [.ret (some (.prefixOp .minus (.ident "x")))] none)),
      .expr (.ident "y")]
  scope := 0

/-- A store with a single scope, which binds the function, and the scopes of calls of it. -/
def negatingStore (calls : List Value) : Store where
  scopes := (⟨none, [("f", .function negatingClosure)]⟩ ::
    calls.map fun v => ⟨some 0, [("x", v)]⟩).toArray
  closures := 1

/-- `let a = f(if (true) { return 3; })` -/
def returningArgument : Stmt :=
  .bind "a" (.call (.ident "f") [.cond (.bool true) [.ret (some (.int 3))] none])

/-- `let a = 1 + f(true)` -/
def failingCall : Stmt :=
  .bind "a" (.infixOp .plus (.int 1) (.call (.ident "f") [.bool true]))

open Term in
/-- A `return` in an argument, which leaves `a` unbound and `f` not called, a `return` in the body
of a call, and an error in it. -/
theorem exit_cuts_through_sample :
    (Term.stmt returningArgument).EndsIn 0 (negatingStore []) (.returned (.integer 3))
      (negatingStore []) ∧
    (∃ n, ∀ fuel, n ≤ fuel → eval fuel ⟨[returningArgument]⟩ 0 (negatingStore []) =
      some (.ok (.integer 3), negatingStore [])) ∧
    (Term.expr (.call (.ident "f") [.int 2])).EndsIn 0 (negatingStore []) (.value (.integer (-2)))
      (negatingStore [.integer 2]) ∧
    (Term.stmt failingCall).EndsIn 0 (negatingStore [])
      (.failed (.unknownPrefixOperator .minus .boolean)) (negatingStore [.boolean true]) ∧
    (∃ n, ∀ fuel, n ≤ fuel → eval fuel ⟨[failingCall]⟩ 0 (negatingStore []) =
      some (.error (.unknownPrefixOperator .minus .boolean), negatingStore [.boolean true])) := by
  -- the parts that stand before the exits
  have hNone : ∀ s σ, (Term.stmts []).EndsIn s σ (.value .null) σ := fun s σ =>
    BigStep.executesAll_iff.1 .nil
  have hTrue : ∀ s σ, (Term.expr (.bool true)).EndsIn s σ (.value (.boolean true)) σ := fun s σ =>
    BigStep.evaluates_iff.1 (.bool true)
  have hOne : (Term.expr (.int 1)).EndsIn 0 (negatingStore []) (.value (.integer 1))
      (negatingStore []) := BigStep.evaluates_iff.1 (.int 1)
  have hCallee : (Term.expr (.ident "f")).EndsIn 0 (negatingStore [])
      (.value (.function negatingClosure)) (negatingStore []) :=
    BigStep.evaluates_iff.1 (.ident (.here rfl rfl))
  have hFirst : ∀ s σ st ss, Enters s (.stmts (st :: ss)) σ (.stmt st) σ := fun s σ st ss =>
    @Enters.statement s σ σ st [] ss .null (hNone s σ)
  -- the argument of the first program
  have hArgument : Reaches 0 (.stmt returningArgument) (negatingStore [])
      (.stmt (.ret (some (.int 3)))) (negatingStore []) :=
    .enter .bound <| .enter (@Enters.argument 0 _ _ _ _ _ [] [] _ [] hCallee
        (BigStep.evaluatesAll_iff.1 .nil)) <|
      .enter (.consequence (hTrue 0 _) rfl) <| .enter (hFirst 0 _ _ _) .here
  have hThree : (Term.stmt (.ret (some (.int 3)))).EndsIn 0 (negatingStore [])
      (.returned (.integer 3)) (negatingStore []) :=
    BigStep.executes_iff.1 (.retValue (.int 3))
  -- the body of the function
  have hBody : ∀ e v, (Term.expr e).EndsIn 0 (negatingStore []) (.value v) (negatingStore []) →
      EntersBody 0 (.expr (.call (.ident "f") [e])) (negatingStore []) negatingClosure 1
        (negatingStore [v]) := fun e v he =>
    .call hCallee (BigStep.evaluatesAll_iff.1 (.cons (BigStep.evaluates_iff.2 he) .nil)) rfl rfl
  have hReturn : ∀ σ, Reaches 1 (.stmts negatingClosure.body) σ
      (.stmt (.ret (some (.prefixOp .minus (.ident "x"))))) σ := fun σ =>
    .enter (hFirst 1 _ _ _) <| .enter .value <| .enter .operand <|
      .enter (.consequence (hTrue 1 _) rfl) <| .enter (hFirst 1 _ _ _) .here
  have hTwo : (Term.stmt (.ret (some (.prefixOp .minus (.ident "x"))))).EndsIn 1
      (negatingStore [.integer 2]) (.returned (.integer (-2))) (negatingStore [.integer 2]) :=
    .of_eval (n := 3) (by with_unfolding_all rfl)
  -- the operand in the body that fails
  have hOperand : ReachesAcross 0 (.stmt failingCall) (negatingStore []) 1
      (.expr (.prefixOp .minus (.ident "x"))) (negatingStore [.boolean true]) :=
    .enter .bound <| .enter (.right hOne) <| .call (hBody _ _ (hTrue 0 _)) <|
      .enter (hFirst 1 _ _ _) <| .enter .value <| .enter .operand <|
      .enter (.consequence (hTrue 1 _) rfl) <| .enter (hFirst 1 _ _ _) <| .enter .returned .here
  have hFails : (Term.expr (.prefixOp .minus (.ident "x"))).EndsIn 1
      (negatingStore [.boolean true]) (.failed (.unknownPrefixOperator .minus .boolean))
      (negatingStore [.boolean true]) :=
    .of_eval (n := 2) (by with_unfolding_all rfl)
  rcases exit_cuts_through 0 (negatingStore []) with ⟨hExit, hCall, hProgram, hAcross, hFailed⟩
  exact ⟨hExit _ _ _ (.returned (.integer 3)) _ hArgument hThree,
    hProgram ⟨[returningArgument]⟩ _ _ _ _ (.enter (hFirst 0 _ _ _) hArgument) hThree,
    hCall _ _ _ _ _ _ _ _ (hBody _ _ (BigStep.evaluates_iff.1 (.int 2))) (hReturn _) hTwo,
    hAcross _ _ _ _ _ _ hOperand hFails,
    hFailed ⟨[failingCall]⟩ _ _ _ _ _ (.enter (hFirst 0 _ _ _) hOperand) hFails⟩

end MonkeyLang
