import MonkeyLang.Value.Basic

/-!
# Store — scopes that enclose one another

A store holds every scope that was ever opened, by number, and counts the closures that were
ever made.  A scope has bindings of its own and may be enclosed by a scope opened before it.
Looking a name up walks outward from a scope to the scopes around it; defining one touches the
scope itself and no other.
-/

namespace MonkeyLang

/-! ## One scope -/

/-- The bindings of a scope, and the scope around it. -/
structure Scope where
  enclosing : Option ScopeId
  bindings : List (String × Value)
  deriving DecidableEq

/-- The bindings with `name` bound to `v`: in place if the name is bound already, and otherwise
behind all others. -/
def rebind (name : String) (v : Value) : List (String × Value) → List (String × Value)
  | [] => [(name, v)]
  | (n, w) :: rest =>
      if n = name then (n, v) :: rest else (n, w) :: rebind name v rest

/-- Bind names one after the other, so that the last of equal names wins. -/
def rebindAll (bindings : List (String × Value)) :
    List (String × Value) → List (String × Value)
  | [] => bindings
  | (n, v) :: rest => rebindAll (rebind n v bindings) rest

/-- What a name was bound to, in this scope alone. -/
def Scope.find? (s : Scope) (name : String) : Option Value :=
  s.bindings.lookup name

def Scope.insert (s : Scope) (name : String) (v : Value) : Scope :=
  { s with bindings := rebind name v s.bindings }

theorem lookup_rebind_self (name : String) (v : Value) (bs : List (String × Value)) :
    (rebind name v bs).lookup name = some v := by
  induction bs with
  | nil => simp [rebind]
  | cons b bs ih =>
      obtain ⟨n, w⟩ := b
      by_cases h : n = name
      · simp [rebind, h]
      · simp [rebind, h, List.lookup_cons, beq_eq_false_iff_ne.2 (Ne.symm h), ih]

theorem lookup_rebind_of_ne {name other : String} (v : Value) (bs : List (String × Value))
    (h : other ≠ name) : (rebind name v bs).lookup other = bs.lookup other := by
  induction bs with
  | nil => simp [rebind, List.lookup_cons, beq_eq_false_iff_ne.2 h]
  | cons b bs ih =>
      obtain ⟨n, w⟩ := b
      by_cases hn : n = name
      · subst hn
        simp [rebind, List.lookup_cons, beq_eq_false_iff_ne.2 h]
      · cases ho : (other == n) <;> simp [rebind, hn, List.lookup_cons, ho, ih]

@[simp] theorem Scope.find?_insert_self (s : Scope) (name : String) (v : Value) :
    (s.insert name v).find? name = some v :=
  lookup_rebind_self name v s.bindings

theorem Scope.find?_insert_of_ne (s : Scope) {name other : String} (v : Value)
    (h : other ≠ name) : (s.insert name v).find? other = s.find? other :=
  lookup_rebind_of_ne v s.bindings h

/-! ## All scopes -/

/-- All scopes, the scope of number `s` at place `s`, and the number of closures made. -/
structure Store where
  scopes : Array Scope
  closures : Nat
  deriving DecidableEq

namespace Store

/-- A store without any scope. -/
def empty : Store :=
  ⟨#[], 0⟩

/-- Open a scope with the given bindings, enclosed by another one or by none. -/
def openScope (σ : Store) (enclosing : Option ScopeId) (bindings : List (String × Value)) :
    ScopeId × Store :=
  (σ.scopes.size, { σ with scopes := σ.scopes.push ⟨enclosing, bindings⟩ })

/-- Bind a name in the scope `s`, over an earlier binding in the same scope. -/
def define (σ : Store) (s : ScopeId) (name : String) (v : Value) : Store :=
  { σ with scopes := σ.scopes.modify s fun scope => scope.insert name v }

/-- Make a closure in the scope `s`, with a number that no closure had before. -/
def close (σ : Store) (s : ScopeId) (parameters : List String) (body : List Stmt) :
    Closure × Store :=
  (⟨σ.closures, parameters, body, s⟩, { σ with closures := σ.closures + 1 })

/-- Behind an opening there are the scopes from before and the new one. -/
theorem scope_of_openScope {σ : Store} {enclosing : Option ScopeId}
    {bindings : List (String × Value)} {t : ScopeId} {scope : Scope}
    (h : (σ.openScope enclosing bindings).2.scopes[t]? = some scope) :
    σ.scopes[t]? = some scope ∨ t = σ.scopes.size ∧ scope = ⟨enclosing, bindings⟩ := by
  simp only [openScope, Array.getElem?_push] at h
  split at h
  · next ht => exact .inr ⟨ht, (Option.some.inj h).symm⟩
  · exact .inl h

/-- Behind a definition there are the scopes from before, one of them with the new binding. -/
theorem scope_of_define {σ : Store} {s t : ScopeId} {name : String} {v : Value} {scope : Scope}
    (h : (σ.define s name v).scopes[t]? = some scope) :
    ∃ old, σ.scopes[t]? = some old ∧ scope = if s = t then old.insert name v else old := by
  simp only [define, Array.getElem?_modify] at h
  split at h
  · next ht =>
      rcases Option.map_eq_some_iff.1 h with ⟨old, hOld, rfl⟩
      exact ⟨old, hOld, (if_pos ht).symm⟩
  · next ht => exact ⟨scope, h, (if_neg ht).symm⟩

/-- A scope encloses what it enclosed, and binds what it bound or the new value. -/
theorem bindings_of_define {σ : Store} {s t : ScopeId} {name : String} {v : Value} {scope : Scope}
    (h : (σ.define s name v).scopes[t]? = some scope) :
    ∃ old, σ.scopes[t]? = some old ∧ scope.enclosing = old.enclosing ∧
      ∀ n w, scope.find? n = some w → w = v ∨ old.find? n = some w := by
  rcases scope_of_define h with ⟨old, hOld, rfl⟩
  refine ⟨old, hOld, ?_, fun n w hw => ?_⟩
  · split <;> rfl
  · split at hw
    · by_cases hn : n = name
      · rw [hn, Scope.find?_insert_self] at hw
        exact .inl (Option.some.inj hw).symm
      · rw [Scope.find?_insert_of_ne old v hn] at hw
        exact .inr hw
    · exact .inr hw

/-- The value of a name as seen from the scope `s`: its nearest binding on the way outward.  A
scope is only ever enclosed by one opened before it, so each step leads to a smaller number. -/
def get? (σ : Store) (s : ScopeId) (name : String) : Option Value :=
  match σ.scopes[s]? with
  | none => none
  | some scope =>
      match scope.find? name with
      | some v => some v
      | none =>
          match scope.enclosing with
          | none => none
          | some outer => if outer < s then σ.get? outer name else none
termination_by s

theorem get?_of_found {σ : Store} {s : ScopeId} {scope : Scope} {name : String} {v : Value}
    (hScope : σ.scopes[s]? = some scope) (hFound : scope.find? name = some v) :
    σ.get? s name = some v := by
  rw [get?, hScope]
  simp only [hFound]

theorem get?_of_outermost {σ : Store} {s : ScopeId} {scope : Scope} {name : String}
    (hScope : σ.scopes[s]? = some scope) (hMissing : scope.find? name = none)
    (hOuter : scope.enclosing = none) : σ.get? s name = none := by
  rw [get?, hScope]
  simp only [hMissing, hOuter]

theorem get?_of_outward {σ : Store} {s outer : ScopeId} {scope : Scope} {name : String}
    (hScope : σ.scopes[s]? = some scope) (hMissing : scope.find? name = none)
    (hOuter : scope.enclosing = some outer) (hEarlier : outer < s) :
    σ.get? s name = σ.get? outer name := by
  rw [get?, hScope]
  simp only [hMissing, hOuter, if_pos hEarlier]

/-- A store with a single scope, and that scope. -/
def fresh : ScopeId × Store :=
  empty.openScope none []

end Store
end MonkeyLang
