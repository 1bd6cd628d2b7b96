import MonkeyLang.Eval.Program
import MonkeyLang.Proofs.Eval.Frame
import MonkeyLang.Proofs.Eval.Simulation

/-!
# Repetition — a call cannot tell that it was made before

A call leaves every scope of the store as it was, so the store behind it contains the store in
front of it.  On all scopes and closures that were there, the two stores correspond with every
number standing for itself (`Correspondence.inside`).  The call made once more runs in step with
the first one, and comes to the same: equal values and errors, the same closure if it was there
before the first call, and otherwise a new closure of the same literal.
-/

namespace MonkeyLang

/-! ## Stores without dangling numbers -/

namespace Store

/-- A value of the store.  The closure of a function is one that was made, in a scope of the
store. -/
def Holds (σ : Store) : Value → Prop
  | .function c => c.id < σ.closures ∧ c.scope < σ.scopes.size
  | _ => True

/-- Every scope is enclosed by a scope of the store, if by any, and binds names to values of the
store. -/
structure WellFormed (σ : Store) : Prop where
  enclosing : ∀ {s o : ScopeId} {scope : Scope}, σ.scopes[s]? = some scope →
    scope.enclosing = some o → o < σ.scopes.size
  bindings : ∀ {s : ScopeId} {scope : Scope} {name : String} {v : Value},
    σ.scopes[s]? = some scope → scope.find? name = some v → σ.Holds v

end Store

/-! ## A store inside a larger one -/

/-- The scopes and closures of a store, each of which stands for itself. -/
def Renaming.same (σ : Store) : Renaming where
  scope s s' := s' = s ∧ s < σ.scopes.size
  closure c c' := c' = c ∧ σ.Holds (.function c)
  scope_iff := by
    rintro s _ t _ ⟨rfl, -⟩ ⟨rfl, -⟩
    exact Iff.rfl
  closure_iff := by
    rintro c _ d _ ⟨rfl, -⟩ ⟨rfl, -⟩
    exact Iff.rfl
  parameters := by
    rintro c _ ⟨rfl, -⟩
    rfl
  body := by
    rintro c _ ⟨rfl, -⟩
    rfl
  captured := by
    rintro c _ ⟨rfl, hc⟩
    exact ⟨rfl, hc.2⟩

theorem Value.Corresponds.same {σ : Store} {v : Value} (h : σ.Holds v) :
    v.Corresponds (Renaming.same σ) v := by
  cases v with
  | integer n => exact .integer n
  | boolean b => exact .boolean b
  | null => exact .null
  | function c => exact .function ⟨rfl, h⟩

/-- A store looks like the part of a larger store that it is. -/
def Correspondence.inside {σ σ' : Store} (hσ : σ.WellFormed) (h : σ.Extends σ') :
    Correspondence where
  toRenaming := .same σ
  left := σ
  right := σ'
  scopes := by
    rintro _ s ⟨rfl, hs⟩
    have hScope : σ.scopes[s]? = some σ.scopes[s] := Array.getElem?_eq_getElem hs
    refine ⟨σ.scopes[s], σ.scopes[s], hScope, (h.same s hs).trans hScope, ?_⟩
    exact
      { enclosing := optionRel_refl fun o ho => ⟨⟨rfl, hσ.enclosing hScope ho⟩, Iff.rfl⟩
        bindings := fun name => optionRel_refl fun v hv => .same (hσ.bindings hScope hv) }
  closures := by
    rintro c _ ⟨rfl, hc⟩
    exact ⟨hc.1, Nat.lt_of_lt_of_le hc.1 h.closures_le⟩

/-! ## The same outcome -/

/-- `v'` is what `v` was.  In front of the calls that came to them the stores were `σ` and `σ'`: a
function that was in `σ` already is the very same, and a new one is new again, with the same
parameters and body. -/
def Value.Repeats (σ σ' : Store) : Value → Value → Prop
  | .function c, .function c' =>
      if c.id < σ.closures then c' = c
      else σ'.closures ≤ c'.id ∧ c'.parameters = c.parameters ∧ c'.body = c.body
  | v, v' => v' = v

/-- Values that repeat one another, or equal errors. -/
def Repeats (σ σ' : Store) : Except EvalError Value → Except EvalError Value → Prop
  | .ok v, .ok v' => v.Repeats σ σ' v'
  | .error e, .error e' => e' = e
  | _, _ => False

theorem Value.Corresponds.repeats {σ σ' : Store} {hσ : σ.WellFormed} {h : σ.Extends σ'}
    {K : Correspondence} (hGrows : (Correspondence.inside hσ h).Grows K) {v v' : Value}
    (hv : v.Corresponds K.toRenaming v') : v.Repeats σ σ' v' := by
  cases hv with
  | integer n => rfl
  | boolean b => rfl
  | null => rfl
  | @function c c' hc =>
      -- the closures are a pair from before the calls, or new in both stores
      have hPair := hGrows.closure_new hc
      by_cases hOld : c.id < σ.closures
      · simp only [Value.Repeats, if_pos hOld]
        rcases hPair with ⟨hSame, -⟩ | ⟨hNew, -⟩
        · exact hSame
        · exact absurd hOld (Nat.not_lt.2 hNew)
      · simp only [Value.Repeats, if_neg hOld]
        rcases hPair with ⟨-, hHeld⟩ | ⟨-, hNew⟩
        · exact absurd hHeld.1 hOld
        · exact ⟨hNew, K.parameters hc, K.body hc⟩

theorem Completion.Corresponds.repeats {σ σ' : Store} {hσ : σ.WellFormed} {h : σ.Extends σ'}
    {K : Correspondence} (hGrows : (Correspondence.inside hσ h).Grows K)
    {c c' : Completion Value} (hc : c.Corresponds K.toRenaming Value.Corresponds c') :
    Repeats σ σ' c.result c'.result := by
  cases hc with
  | value hv => exact hv.repeats hGrows
  | returned hv => exact hv.repeats hGrows
  | failed e => rfl

/-- A call that ends, made again in the store it left, ends once more, and in the same way. -/
theorem applyValue_repeats {fuel : Nat} {f : Value} {vs : List Value} {σ σ' : Store}
    {r : Except EvalError Value} (hσ : σ.WellFormed) (hf : σ.Holds f) (hvs : ∀ v ∈ vs, σ.Holds v)
    (h : (applyValue fuel f vs).outcome σ = some (r, σ')) :
    ∃ r' σ'', (applyValue fuel f vs).outcome σ' = some (r', σ'') ∧ Repeats σ σ' r r' := by
  rcases Option.map_eq_some_iff.1 h with ⟨⟨c, τ⟩, hRun, hResult⟩
  cases hResult
  have hExtends : σ.Extends σ' := applyValue_extends hRun
  have hArguments : List.Forall₂ (Value.Corresponds (Renaming.same σ)) vs vs := by
    rw [List.forall₂_same]
    exact fun v hv => .same (hvs v hv)
  -- the second call is the first one in a store that corresponds
  have hStep := (simulatesAt fuel).apply (.inside hσ hExtends) f f vs vs (.same hf) hArguments
  rcases hStep c σ' hRun with ⟨K, c', hGrows, -, hRun', hEnd⟩
  refine ⟨c'.result, K.right, ?_, hEnd.repeats hGrows⟩
  exact Option.map_eq_some_iff.2 ⟨(c', K.right), hRun', rfl⟩

/-- A function that makes a function. -/
def sampleMaker : Closure where
  id := 0
  parameters := ["x"]
  body := [.expr (.fn ["y"] [.expr (.infixOp .plus (.ident "x") (.ident "y"))])]
  scope := 0

/-- A store with nothing but that function. -/
def makerStore : Store :=
  ⟨#[⟨none, [("maker", .function sampleMaker)]⟩], 1⟩

theorem makerStore_wellFormed : makerStore.WellFormed where
  enclosing := by
    intro s o scope hScope ho
    have hOnly : scope ∈ makerStore.scopes := Array.mem_of_getElem? hScope
    simp only [makerStore, List.mem_toArray, List.mem_singleton] at hOnly
    subst hOnly
    cases ho
  bindings := by
    intro s scope name v hScope hv
    have hOnly : scope ∈ makerStore.scopes := Array.mem_of_getElem? hScope
    simp only [makerStore, List.mem_toArray, List.mem_singleton] at hOnly
    subst hOnly
    simp only [Scope.find?, List.lookup_cons, List.lookup_nil] at hv
    split at hv
    · cases hv
      exact ⟨Nat.one_pos, Nat.one_pos⟩
    · cases hv

/-- Both calls come to a closure that is new. -/
theorem applyValue_repeats_sample :
    ∃ c σ', (applyValue 4 (.function sampleMaker) [.integer 1]).outcome makerStore =
        some (.ok (.function c), σ') ∧
      ∃ r σ'', (applyValue 4 (.function sampleMaker) [.integer 1]).outcome σ' = some (r, σ'') ∧
        Repeats makerStore σ' (.ok (.function c)) r := by
  have hRun : (applyValue 4 (.function sampleMaker) [.integer 1]).outcome makerStore =
      some (.ok (.function ⟨1, ["y"], [.expr (.infixOp .plus (.ident "x") (.ident "y"))], 1⟩),
        ⟨#[⟨none, [("maker", .function sampleMaker)]⟩, ⟨some 0, [("x", .integer 1)]⟩], 2⟩) := by
    with_unfolding_all rfl
  have hMaker : makerStore.Holds (.function sampleMaker) := ⟨Nat.one_pos, Nat.one_pos⟩
  have hArguments : ∀ v ∈ [Value.integer 1], makerStore.Holds v := by
    intro v hv
    rw [List.mem_singleton.1 hv]
    trivial
  exact ⟨_, _, hRun, applyValue_repeats makerStore_wellFormed hMaker hArguments hRun⟩

end MonkeyLang
