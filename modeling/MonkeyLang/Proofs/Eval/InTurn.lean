import MonkeyLang.Proofs.Eval.EarlyExit

/-!
# In turn — programs one after the other, and all at once

Programs that are run one after the other in the same scope leave each other nothing but the store.
So their statements in one list come to the same: to the completion of the first program that ends
in a `return` or in an error, and of the last one if there is none.
-/

namespace MonkeyLang

open Run (Ends)

theorem Completion.value_or_exit (c : Completion Value) :
    (∃ v, c = .value v) ∨ ∃ x : Exit, c = x.completion := by
  cases c with
  | value v => exact .inl ⟨v, rfl⟩
  | returned v => exact .inr ⟨.returned v, rfl⟩
  | failed e => exact .inr ⟨.failed e, rfl⟩

/-- The programs are run in order in the scope `s`, with what each completes with and the store they
leave in the end.  An exit ends its own program only. -/
inductive InTurn (s : ScopeId) : Store → List Program → List (Completion Value) → Store → Prop
  | nil {σ : Store} : InTurn s σ [] [] σ
  | cons {σ τ υ : Store} {p : Program} {ps : List Program} {c : Completion Value}
      {cs : List (Completion Value)}
      (hFirst : Ends (fun n => evalStmts n s .null p.statements) σ c τ)
      (hRest : InTurn s τ ps cs υ) : InTurn s σ (p :: ps) (c :: cs) υ

/-- The completion is that of the first program that exits, or of the last one. -/
def Decisive (cs : List (Completion Value)) (c : Completion Value) : Prop :=
  ∃ before after, cs = before ++ c :: after ∧ (∀ b ∈ before, ∃ v, b = .value v) ∧
    (after = [] ∨ ∃ x : Exit, c = x.completion)

theorem Decisive.last (c : Completion Value) : Decisive [c] c :=
  ⟨[], [], rfl, List.forall_mem_nil _, .inl rfl⟩

theorem Decisive.exit (x : Exit) (cs : List (Completion Value)) :
    Decisive (x.completion :: cs) x.completion :=
  ⟨[], cs, rfl, List.forall_mem_nil _, .inr ⟨x, rfl⟩⟩

theorem Decisive.value {cs : List (Completion Value)} {c : Completion Value} (v : Value)
    (h : Decisive cs c) : Decisive (.value v :: cs) c := by
  rcases h with ⟨before, after, rfl, hBefore, hLast⟩
  exact ⟨.value v :: before, after, rfl, List.forall_mem_cons.2 ⟨⟨v, rfl⟩, hBefore⟩, hLast⟩

namespace BigStep

variable {s : ScopeId} {σ τ υ : Store}

/-- Nothing is done behind an exit. -/
theorem ExecutesAll.exit_append {ss : List Stmt} {x : Exit}
    (h : ExecutesAll s σ ss x.completion τ) (more : List Stmt) :
    ExecutesAll s σ (ss ++ more) x.completion τ := by
  induction ss generalizing σ with
  | nil =>
      generalize hExit : x.completion = c at h
      cases h
      exact absurd hExit.symm (x.value_ne_completion _)
  | cons st ss ih =>
      generalize hExit : x.completion = c at h
      cases h with
      | last => exact absurd hExit.symm (x.value_ne_completion _)
      | cons hFirst hRest =>
          subst hExit
          exact .cons hFirst (ih hRest)
      | exit hFirst => exact .exit hFirst

/-- Programs with at least one statement each, run in turn, and their statements all at once. -/
theorem exists_executesAll_flatMap {ps : List Program} {cs : List (Completion Value)}
    (h : InTurn s σ ps cs υ) (hNonempty : ps ≠ []) (hStatements : ∀ p ∈ ps, p.statements ≠ []) :
    ∃ c τ, Decisive cs c ∧ ExecutesAll s σ (ps.flatMap Program.statements) c τ := by
  induction h with
  | nil => exact absurd rfl hNonempty
  | @cons σ ρ υ p ps c cs hFirst hRest ih =>
      rw [List.forall_mem_cons] at hStatements
      have hFirst : ExecutesAll s σ p.statements c ρ := executesAll_iff.2 hFirst
      rw [List.flatMap_cons]
      rcases c.value_or_exit with ⟨v, rfl⟩ | ⟨x, rfl⟩
      · cases ps with
        | nil =>
            cases hRest
            rw [List.flatMap_nil, List.append_nil]
            exact ⟨.value v, ρ, .last _, hFirst⟩
        | cons q ps =>
            rcases ih (List.cons_ne_nil q ps) hStatements.2 with ⟨c, τ, hDecisive, hAll⟩
            refine ⟨c, τ, hDecisive.value v, ?_⟩
            cases hMore : (q :: ps).flatMap Program.statements with
            | nil =>
                rw [List.flatMap_cons, List.append_eq_nil_iff] at hMore
                exact absurd hMore.1 (hStatements.2 q List.mem_cons_self)
            | cons st ss =>
                rw [hMore] at hAll
                exact hFirst.append hAll
      · exact ⟨x.completion, ρ, .exit x cs, hFirst.exit_append _⟩

/-- What the statements of a program come to in a new scope of a new store is its result. -/
theorem evalFresh_of_executesAll {p : Program} {c : Completion Value}
    (h : ExecutesAll Store.fresh.1 Store.fresh.2 p.statements c τ) :
    ∃ n, ∀ fuel, n ≤ fuel → evalFresh fuel p = some c.result := by
  rcases executesAll_iff.1 h with ⟨n, hEnds⟩
  refine ⟨n, fun fuel hFuel => ?_⟩
  have hRun : evalStmts fuel Store.fresh.1 .null p.statements Store.fresh.2 = some (c, τ) :=
    hEnds fuel hFuel
  simp only [evalFresh, eval, Run.outcome, hRun, Option.map_some]

end BigStep

end MonkeyLang
