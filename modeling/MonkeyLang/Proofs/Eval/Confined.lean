import Mathlib.Order.Basic
import MonkeyLang.Proofs.Eval.Locality
import MonkeyLang.Proofs.Eval.Semantics

/-!
# Confined — scopes that no way leads out of

A set of scopes confines an evaluation if the scopes around them and the scopes that their functions
were made in are among them.  What is looked up in such a scope comes from such scopes.  A statement
about closures that holds of every function bound in them therefore holds of every function that an
evaluation can get hold of (`Store.Confines.of_get?`), and with the scopes that it opens itself the
set is closed in this way again.

The scopes that can be reached from some roots are the least such set (`Store.confines_reaches`,
`Store.Confines.of_reaches`).
-/

namespace MonkeyLang

variable {P Q : Closure → Prop} {S T : ScopeId → Prop}

/-! ## Values -/

/-- If the value is a function, it is one as `P` says, and was made in one of the scopes `S`. -/
def Value.Confined (P : Closure → Prop) (S : ScopeId → Prop) : Value → Prop
  | .function c => P c ∧ S c.scope
  | _ => True

theorem Value.Confined.mono {v : Value} (h : v.Confined P S) (hP : ∀ c, P c → Q c) (hS : S ≤ T) :
    v.Confined Q T := by
  cases v with
  | function c => exact ⟨hP c h.1, hS _ h.2⟩
  | integer n => trivial
  | boolean b => trivial
  | null => trivial

theorem Value.Confined.of_type_ne (P : Closure → Prop) (S : ScopeId → Prop) {v : Value}
    (h : v.type ≠ .function) : v.Confined P S := by
  cases v with
  | function c => exact absurd rfl h
  | integer n => trivial
  | boolean b => trivial
  | null => trivial

/-- A parameter is bound to one of the arguments. -/
theorem mem_of_lookup_rebindAll {names : List String} {vs : List Value} {name : String} {v : Value}
    (h : (rebindAll [] (names.zip vs)).lookup name = some v) : v ∈ vs := by
  rw [lookup_rebindAll, List.lookup_nil, Option.or_none] at h
  rcases List.lookup_eq_some_iff.1 h with ⟨before, after, hPairs, -⟩
  have hMem : (name, v) ∈ (names.zip vs).reverse := by
    rw [hPairs]
    exact List.mem_append_right before List.mem_cons_self
  exact (List.of_mem_zip (List.mem_reverse.1 hMem)).2

/-! ## Stores -/

namespace Store

/-- No way leads out of the scopes `S`, and the functions that are bound in them are as `P` says. -/
structure Confines (P : Closure → Prop) (S : ScopeId → Prop) (σ : Store) : Prop where
  enclosing : ∀ {s o : ScopeId} {scope : Scope}, S s → σ.scopes[s]? = some scope →
    scope.enclosing = some o → S o
  bindings : ∀ {s : ScopeId} {scope : Scope} {name : String} {v : Value}, S s →
    σ.scopes[s]? = some scope → scope.find? name = some v → v.Confined P S

/-- No way leads out of the scopes that can be reached. -/
theorem confines_reaches {σ : Store} {roots : Roots}
    (h : ∀ c, σ.ReachesClosure roots c → P c) : σ.Confines P (σ.Reaches roots) where
  enclosing hs hScope ho := .enclosing hs hScope ho
  bindings {s scope name v} hs hScope hv := by
    cases v with
    | function c => exact ⟨h c (.bound hs hScope hv), .captured hs hScope hv⟩
    | integer n => trivial
    | boolean b => trivial
    | null => trivial

/-- From scopes alone one gets hold of functions only where they are bound. -/
theorem ReachesClosure.mem_bindings {σ : Store} {scopes : List ScopeId} {c : Closure}
    (h : σ.ReachesClosure ⟨scopes, []⟩ c) :
    ∃ scope ∈ σ.scopes, ∃ name, (name, Value.function c) ∈ scope.bindings := by
  cases h with
  | value hc => cases hc
  | @bound s scope name c hs hScope hc =>
      rcases List.lookup_eq_some_iff.1 hc with ⟨before, after, hBindings, -⟩
      refine ⟨scope, Array.mem_of_getElem? hScope, name, ?_⟩
      rw [hBindings]
      exact List.mem_append_right before List.mem_cons_self

namespace Confines

variable {σ : Store}

/-- What can be reached from confined roots is confined. -/
theorem of_reaches (h : σ.Confines P S) {roots : Roots} (hScopes : ∀ s ∈ roots.scopes, S s)
    (hValues : ∀ v ∈ roots.values, v.Confined P S) :
    (∀ s, σ.Reaches roots s → S s) ∧ ∀ c, σ.ReachesClosure roots c → P c := by
  have hReaches : ∀ s, σ.Reaches roots s → S s := by
    intro s hs
    induction hs with
    | scope hs => exact hScopes _ hs
    | value hc => exact (hValues _ hc).2
    | enclosing _ hScope ho ih => exact h.enclosing ih hScope ho
    | captured _ hScope hc ih => exact (h.bindings ih hScope hc).2
  refine ⟨hReaches, fun c hc => ?_⟩
  cases hc with
  | value hc => exact (hValues _ hc).1
  | bound hs hScope hc => exact (h.bindings (hReaches _ hs) hScope hc).1

theorem of_get? (h : σ.Confines P S) {s : ScopeId} (hs : S s) {name : String} {v : Value}
    (hv : σ.get? s name = some v) : v.Confined P S := by
  replace hv := sees_of_get? hv
  induction hv with
  | here hScope hFound => exact h.bindings hs hScope hFound
  | outward hScope _ hOuter _ _ ih => exact ih (h.enclosing hs hScope hOuter)

theorem mono (h : σ.Confines P S) (hP : ∀ c, P c → Q c) : σ.Confines Q S where
  enclosing := h.enclosing
  bindings hs hScope hv := (h.bindings hs hScope hv).mono hP le_rfl

theorem define (h : σ.Confines P S) (s : ScopeId) (name : String) {v : Value}
    (hv : v.Confined P S) : (σ.define s name v).Confines P S where
  enclosing {t o scope} ht hScope ho := by
    rcases bindings_of_define hScope with ⟨old, hOld, hEnclosing, -⟩
    exact h.enclosing ht hOld (hEnclosing.symm.trans ho)
  bindings {t scope n w} ht hScope hw := by
    rcases bindings_of_define hScope with ⟨old, hOld, -, hBindings⟩
    rcases hBindings n w hw with rfl | hOldBinding
    · exact hv
    · exact h.bindings ht hOld hOldBinding

/-- A new scope is one more of the confined ones. -/
theorem openScope (h : σ.Confines P S) {o : ScopeId} (ho : S o) {bs : List (String × Value)}
    (hbs : ∀ name v, bs.lookup name = some v → v.Confined P S) :
    (σ.openScope (some o) bs).2.Confines P (fun s => S s ∨ s = σ.scopes.size) := by
  have hMore : S ≤ fun s => S s ∨ s = σ.scopes.size := fun s hs => .inl hs
  -- a scope from before is not the new one
  have hScopes : ∀ {t : ScopeId} {scope : Scope}, (S t ∨ t = σ.scopes.size) →
      (σ.openScope (some o) bs).2.scopes[t]? = some scope →
        S t ∧ σ.scopes[t]? = some scope ∨ scope = ⟨some o, bs⟩ := by
    intro t scope ht hScope
    rcases scope_of_openScope hScope with hOld | ⟨-, rfl⟩
    · have hNe : t ≠ σ.scopes.size := Nat.ne_of_lt (Array.getElem?_eq_some_iff.1 hOld).1
      exact .inl ⟨ht.resolve_right hNe, hOld⟩
    · exact .inr rfl
  constructor
  · intro t p scope ht hScope hp
    rcases hScopes ht hScope with ⟨ht, hOld⟩ | rfl
    · exact .inl (h.enclosing ht hOld hp)
    · cases hp
      exact .inl ho
  · intro t scope name v ht hScope hv
    rcases hScopes ht hScope with ⟨ht, hOld⟩ | rfl
    · exact (h.bindings ht hOld hv).mono (fun _ hc => hc) hMore
    · exact (hbs name v hv).mono (fun _ hc => hc) hMore

theorem close (h : σ.Confines P S) (s : ScopeId) (parameters : List String) (body : List Stmt) :
    (σ.close s parameters body).2.Confines P S :=
  ⟨h.enclosing, h.bindings⟩

end Confines
end Store

/-! ## Completions -/

/-- A value as `R` says, or a return of a confined value, or an error as `E` says. -/
def Completion.Confined {α : Type} (P : Closure → Prop) (S : ScopeId → Prop) (R : α → Prop)
    (E : EvalError → Prop) : Completion α → Prop
  | .value a => R a
  | .returned v => v.Confined P S
  | .failed e => E e

end MonkeyLang
