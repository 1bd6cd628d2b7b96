import Mathlib.Data.List.Forall2
import MonkeyLang.Store.Basic

/-!
# Correspondence — stores that differ in numbers only

Scopes and closures are known by numbers, and which number one gets depends on everything that
was done before.  A `Renaming` says which scopes and closures of one store stand for which ones of
another, and a `Correspondence` is a renaming with two stores that look alike along it: scopes that
stand for each other are enclosed alike, and whatever name is looked up in them, the values found
correspond.

Stores that correspond go on doing so when a scope is opened, a closure made or a name bound in
both of them.  `Correspondence.Grows` says that nothing else happens to the renaming: only scopes
and closures that are new in both stores are added to it.
-/

namespace MonkeyLang

/-! ## Renamings -/

/-- Scopes and closures that stand for each other.  No two numbers stand for the same one, and
closures that stand for each other come from equal literals and from scopes that stand for each
other. -/
structure Renaming where
  scope : ScopeId → ScopeId → Prop
  closure : Closure → Closure → Prop
  scope_iff : ∀ {s s' t t'}, scope s s' → scope t t' → (s = t ↔ s' = t')
  closure_iff : ∀ {c c' d d'}, closure c c' → closure d d' → (c.id = d.id ↔ c'.id = d'.id)
  parameters : ∀ {c c'}, closure c c' → c'.parameters = c.parameters
  body : ∀ {c c'}, closure c c' → c'.body = c.body
  captured : ∀ {c c'}, closure c c' → scope c.scope c'.scope

namespace Renaming

/-- One renaming is part of another. -/
instance : LE Renaming where
  le β γ := (∀ {s s'}, β.scope s s' → γ.scope s s') ∧ ∀ {c c'}, β.closure c c' → γ.closure c c'

theorem le_refl (β : Renaming) : β ≤ β :=
  ⟨fun h => h, fun h => h⟩

theorem le_trans {β γ δ : Renaming} (h : β ≤ γ) (h' : γ ≤ δ) : β ≤ δ :=
  ⟨fun hs => h'.1 (h.1 hs), fun hc => h'.2 (h.2 hc)⟩

/-- A renaming with one more pair of scopes, none of which stood for any other. -/
def addScope (β : Renaming) {n n' : ScopeId} (hNew : ∀ {s s'}, β.scope s s' → s ≠ n ∧ s' ≠ n') :
    Renaming where
  scope s s' := β.scope s s' ∨ s = n ∧ s' = n'
  closure := β.closure
  scope_iff := by
    rintro s s' t t' (hs | ⟨rfl, rfl⟩) (ht | ⟨rfl, rfl⟩)
    · exact β.scope_iff hs ht
    · exact iff_of_false (hNew hs).1 (hNew hs).2
    · exact iff_of_false (hNew ht).1.symm (hNew ht).2.symm
    · exact iff_of_true rfl rfl
  closure_iff := β.closure_iff
  parameters := β.parameters
  body := β.body
  captured h := .inl (β.captured h)

theorem le_addScope (β : Renaming) {n n' : ScopeId}
    (hNew : ∀ {s s'}, β.scope s s' → s ≠ n ∧ s' ≠ n') : β ≤ β.addScope hNew :=
  ⟨.inl, fun h => h⟩

/-- A renaming with one more pair of closures of the same literal, whose numbers no others had. -/
def addClosure (β : Renaming) {n n' : Nat} (parameters : List String) (body : List Stmt)
    {s s' : ScopeId} (hs : β.scope s s')
    (hNew : ∀ {c c'}, β.closure c c' → c.id ≠ n ∧ c'.id ≠ n') : Renaming where
  scope := β.scope
  closure c c' := β.closure c c' ∨ c = ⟨n, parameters, body, s⟩ ∧ c' = ⟨n', parameters, body, s'⟩
  scope_iff := β.scope_iff
  closure_iff := by
    rintro a a' b b' (ha | ⟨rfl, rfl⟩) (hb | ⟨rfl, rfl⟩)
    · exact β.closure_iff ha hb
    · exact iff_of_false (hNew ha).1 (hNew ha).2
    · exact iff_of_false (hNew hb).1.symm (hNew hb).2.symm
    · exact iff_of_true rfl rfl
  parameters := by
    rintro c c' (h | ⟨rfl, rfl⟩)
    · exact β.parameters h
    · rfl
  body := by
    rintro c c' (h | ⟨rfl, rfl⟩)
    · exact β.body h
    · rfl
  captured := by
    rintro c c' (h | ⟨rfl, rfl⟩)
    · exact β.captured h
    · exact hs

theorem le_addClosure (β : Renaming) {n n' : Nat} (parameters : List String) (body : List Stmt)
    {s s' : ScopeId} (hs : β.scope s s')
    (hNew : ∀ {c c'}, β.closure c c' → c.id ≠ n ∧ c'.id ≠ n') :
    β ≤ β.addClosure parameters body hs hNew :=
  ⟨fun h => h, .inl⟩

/-- The renaming read from right to left. -/
def symm (β : Renaming) : Renaming where
  scope s' s := β.scope s s'
  closure c' c := β.closure c c'
  scope_iff hs ht := (β.scope_iff hs ht).symm
  closure_iff hc hd := (β.closure_iff hc hd).symm
  parameters hc := (β.parameters hc).symm
  body hc := (β.body hc).symm
  captured := β.captured

/-- No closure stands for two. -/
theorem closure_unique (β : Renaming) {c c' c'' : Closure} (h : β.closure c c')
    (h' : β.closure c c'') : c'' = c' := by
  have hId : c'.id = c''.id := (β.closure_iff h h').1 rfl
  have hScope : c'.scope = c''.scope := (β.scope_iff (β.captured h) (β.captured h')).1 rfl
  have hParameters : c''.parameters = c'.parameters :=
    (β.parameters h').trans (β.parameters h).symm
  have hBody : c''.body = c'.body := (β.body h').trans (β.body h).symm
  cases c'
  cases c''
  simp_all

end Renaming

/-! ## Values and scopes -/

/-- Functions correspond if they stand for each other, and all other values if they are the
same. -/
inductive Value.Corresponds (β : Renaming) : Value → Value → Prop
  | integer (n : Int64) : Corresponds β (.integer n) (.integer n)
  | boolean (b : Bool) : Corresponds β (.boolean b) (.boolean b)
  | null : Corresponds β .null .null
  | function {c c' : Closure} (h : β.closure c c') : Corresponds β (.function c) (.function c')

namespace Value.Corresponds

variable {β γ : Renaming} {v v' : Value}

theorem mono (h : v.Corresponds β v') (hle : β ≤ γ) : v.Corresponds γ v' := by
  cases h with
  | integer n => exact .integer n
  | boolean b => exact .boolean b
  | null => exact .null
  | function hc => exact .function (hle.2 hc)

theorem symm (h : v.Corresponds β v') : v'.Corresponds β.symm v := by
  cases h with
  | integer n => exact .integer n
  | boolean b => exact .boolean b
  | null => exact .null
  | function hc => exact .function hc

/-- Functions that stand for each other are shown alike. -/
theorem text_eq (h : v.Corresponds β v') : v'.text = v.text := by
  cases h with
  | integer n => rfl
  | boolean b => rfl
  | null => rfl
  | function hc => simp only [Value.text, β.parameters hc, β.body hc]

theorem truthy_eq (h : v.Corresponds β v') : v'.truthy = v.truthy := by
  cases h <;> rfl

end Value.Corresponds

/-- Scopes of the numbers `s` and `s'` that are enclosed alike and bind the same names, to values
that correspond.  A scope that is not enclosed by one opened before it counts as enclosed by none
when a name is looked up, so this has to hold of both or of neither. -/
structure Scope.Corresponds (β : Renaming) (s s' : ScopeId) (a a' : Scope) : Prop where
  enclosing : Option.Rel (fun o o' => β.scope o o' ∧ (o < s ↔ o' < s')) a.enclosing a'.enclosing
  bindings : ∀ name, Option.Rel (Value.Corresponds β) (a.find? name) (a'.find? name)

theorem optionRel_refl {α : Type} {R : α → α → Prop} {o : Option α}
    (h : ∀ a, o = some a → R a a) : Option.Rel R o o := by
  cases o with
  | none => exact .none
  | some a => exact .some (h a rfl)

theorem optionRel_mono {α : Type} {R Q : α → α → Prop} {o o' : Option α} (h : Option.Rel R o o')
    (hle : ∀ {a a'}, R a a' → Q a a') : Option.Rel Q o o' := by
  cases h with
  | none => exact .none
  | some h => exact .some (hle h)

theorem optionRel_symm {α : Type} {R Q : α → α → Prop} {o o' : Option α} (h : Option.Rel R o o')
    (hSymm : ∀ {a a'}, R a a' → Q a' a) : Option.Rel Q o' o := by
  cases h with
  | none => exact .none
  | some h => exact .some (hSymm h)

theorem Scope.Corresponds.mono {β γ : Renaming} {s s' : ScopeId} {a a' : Scope}
    (h : Scope.Corresponds β s s' a a') (hle : β ≤ γ) : Scope.Corresponds γ s s' a a' where
  enclosing := optionRel_mono h.enclosing fun ho => ⟨hle.1 ho.1, ho.2⟩
  bindings name := optionRel_mono (h.bindings name) fun hv => hv.mono hle

theorem Scope.Corresponds.symm {β : Renaming} {s s' : ScopeId} {a a' : Scope}
    (h : Scope.Corresponds β s s' a a') : Scope.Corresponds β.symm s' s a' a where
  enclosing := optionRel_symm h.enclosing fun ho => ⟨ho.1, ho.2.symm⟩
  bindings name := optionRel_symm (h.bindings name) fun hv => hv.symm

/-! ## Bindings -/

/-- Binding a name to values that correspond, in lists that correspond. -/
theorem lookup_rebind_corresponds {β : Renaming} {bs bs' : List (String × Value)} {v v' : Value}
    (hbs : ∀ name, Option.Rel (Value.Corresponds β) (bs.lookup name) (bs'.lookup name))
    (hv : v.Corresponds β v') (n name : String) :
    Option.Rel (Value.Corresponds β) ((rebind n v bs).lookup name)
      ((rebind n v' bs').lookup name) := by
  by_cases h : name = n
  · rw [h, lookup_rebind_self, lookup_rebind_self]
    exact .some hv
  · rw [lookup_rebind_of_ne v bs h, lookup_rebind_of_ne v' bs' h]
    exact hbs name

/-- The bindings of parameters to arguments that correspond. -/
theorem lookup_rebindAll_corresponds {β : Renaming} {vs vs' : List Value}
    (hvs : List.Forall₂ (Value.Corresponds β) vs vs') (parameters : List String) :
    ∀ bs bs' : List (String × Value),
      (∀ name, Option.Rel (Value.Corresponds β) (bs.lookup name) (bs'.lookup name)) →
      ∀ name, Option.Rel (Value.Corresponds β) ((rebindAll bs (parameters.zip vs)).lookup name)
        ((rebindAll bs' (parameters.zip vs')).lookup name) := by
  induction hvs generalizing parameters with
  | nil =>
      intro bs bs' hbs
      rw [List.zip_nil_right]
      exact hbs
  | cons hv _ ih =>
      intro bs bs' hbs
      cases parameters with
      | nil => exact hbs
      | cons n parameters =>
          exact ih parameters _ _ (lookup_rebind_corresponds hbs hv n)

/-! ## Stores -/

/-- Two stores and a renaming along which they look alike. -/
structure Correspondence extends Renaming where
  left : Store
  right : Store
  scopes : ∀ {s s'}, scope s s' → ∃ a a', left.scopes[s]? = some a ∧ right.scopes[s']? = some a' ∧
    Scope.Corresponds toRenaming s s' a a'
  closures : ∀ {c c'}, closure c c' → c.id < left.closures ∧ c'.id < right.closures

namespace Correspondence

/-- More scopes and closures correspond, all of which are new in both stores. -/
structure Grows (K K' : Correspondence) : Prop where
  le : K.toRenaming ≤ K'.toRenaming
  left_le : K.left.scopes.size ≤ K'.left.scopes.size ∧ K.left.closures ≤ K'.left.closures
  right_le : K.right.scopes.size ≤ K'.right.scopes.size ∧ K.right.closures ≤ K'.right.closures
  scope_new : ∀ {s s'}, K'.scope s s' →
    K.scope s s' ∨ K.left.scopes.size ≤ s ∧ K.right.scopes.size ≤ s'
  closure_new : ∀ {c c'}, K'.closure c c' →
    K.closure c c' ∨ K.left.closures ≤ c.id ∧ K.right.closures ≤ c'.id

theorem Grows.refl (K : Correspondence) : K.Grows K where
  le := Renaming.le_refl _
  left_le := ⟨Nat.le_refl _, Nat.le_refl _⟩
  right_le := ⟨Nat.le_refl _, Nat.le_refl _⟩
  scope_new := .inl
  closure_new := .inl

theorem Grows.trans {K K' K'' : Correspondence} (h : K.Grows K') (h' : K'.Grows K'') :
    K.Grows K'' where
  le := Renaming.le_trans h.le h'.le
  left_le := ⟨Nat.le_trans h.left_le.1 h'.left_le.1, Nat.le_trans h.left_le.2 h'.left_le.2⟩
  right_le := ⟨Nat.le_trans h.right_le.1 h'.right_le.1, Nat.le_trans h.right_le.2 h'.right_le.2⟩
  scope_new hs := by
    -- what is new behind the second growth is new behind the first one too
    rcases h'.scope_new hs with hs | ⟨hLeft, hRight⟩
    · exact h.scope_new hs
    · exact .inr ⟨Nat.le_trans h.left_le.1 hLeft, Nat.le_trans h.right_le.1 hRight⟩
  closure_new hc := by
    rcases h'.closure_new hc with hc | ⟨hLeft, hRight⟩
    · exact h.closure_new hc
    · exact .inr ⟨Nat.le_trans h.left_le.2 hLeft, Nat.le_trans h.right_le.2 hRight⟩

theorem lt_size (K : Correspondence) {s s' : ScopeId} (hs : K.scope s s') :
    s < K.left.scopes.size ∧ s' < K.right.scopes.size := by
  rcases K.scopes hs with ⟨a, a', ha, ha', -⟩
  exact ⟨(Array.getElem?_eq_some_iff.1 ha).1, (Array.getElem?_eq_some_iff.1 ha').1⟩

theorem ne_size (K : Correspondence) {s s' : ScopeId} (hs : K.scope s s') :
    s ≠ K.left.scopes.size ∧ s' ≠ K.right.scopes.size :=
  ⟨Nat.ne_of_lt (K.lt_size hs).1, Nat.ne_of_lt (K.lt_size hs).2⟩

theorem ne_closures (K : Correspondence) {c c' : Closure} (hc : K.closure c c') :
    c.id ≠ K.left.closures ∧ c'.id ≠ K.right.closures :=
  ⟨Nat.ne_of_lt (K.closures hc).1, Nat.ne_of_lt (K.closures hc).2⟩

/-- The stores in the other order. -/
def symm (K : Correspondence) : Correspondence where
  toRenaming := K.toRenaming.symm
  left := K.right
  right := K.left
  scopes hs := by
    rcases K.scopes hs with ⟨a, a', ha, ha', hScope⟩
    exact ⟨a', a, ha', ha, hScope.symm⟩
  closures hc := (K.closures hc).symm

/-! ## Looking names up -/

/-- What a name means in scopes that stand for each other. -/
theorem get?_corresponds (K : Correspondence) (name : String) {s s' : ScopeId}
    (hs : K.scope s s') :
    Option.Rel (Value.Corresponds K.toRenaming) (K.left.get? s name) (K.right.get? s' name) := by
  -- by the way outward, which leads to smaller numbers in both stores
  induction s using Nat.strongRecOn generalizing s' with
  | ind s ih =>
      rcases K.scopes hs with ⟨a, a', ha, ha', hScope⟩
      rw [Store.get?, Store.get?, ha, ha']
      have hFind := hScope.bindings name
      have hOuter := hScope.enclosing
      simp only
      generalize a.find? name = found, a'.find? name = found' at hFind
      generalize a.enclosing = outer, a'.enclosing = outer' at hOuter
      cases hFind with
      | some hv => exact .some hv
      | none =>
          cases hOuter with
          | none => exact .none
          | @some o o' ho =>
              by_cases hlt : o < s
              · simp only [if_pos hlt, if_pos (ho.2.1 hlt)]
                exact ih o hlt ho.1
              · have hlt' : ¬ o' < s' := fun h => hlt (ho.2.2 h)
                simp only [if_neg hlt, if_neg hlt']
                exact .none

/-! ## Changing both stores -/

/-- A name bound in scopes that stand for each other, to values that correspond. -/
def define (K : Correspondence) {s s' : ScopeId} (hs : K.scope s s') (name : String)
    {v v' : Value} (hv : v.Corresponds K.toRenaming v') : Correspondence where
  toRenaming := K.toRenaming
  left := K.left.define s name v
  right := K.right.define s' name v'
  scopes := by
    intro t t' ht
    rcases K.scopes ht with ⟨a, a', ha, ha', hScope⟩
    -- the scope is touched on the left exactly if its counterpart is touched on the right
    by_cases h : s = t
    · have h' : s' = t' := (K.scope_iff hs ht).1 h
      refine ⟨a.insert name v, a'.insert name v', ?_, ?_, hScope.enclosing, ?_⟩
      · simp only [Store.define, Array.getElem?_modify, if_pos h, ha, Option.map_some]
      · simp only [Store.define, Array.getElem?_modify, if_pos h', ha', Option.map_some]
      · exact lookup_rebind_corresponds hScope.bindings hv name
    · have h' : ¬ s' = t' := fun h' => h ((K.scope_iff hs ht).2 h')
      refine ⟨a, a', ?_, ?_, hScope⟩
      · simp only [Store.define, Array.getElem?_modify, if_neg h, ha]
      · simp only [Store.define, Array.getElem?_modify, if_neg h', ha']
  closures := K.closures

theorem grows_define (K : Correspondence) {s s' : ScopeId} (hs : K.scope s s') (name : String)
    {v v' : Value} (hv : v.Corresponds K.toRenaming v') : K.Grows (K.define hs name hv) where
  le := Renaming.le_refl _
  left_le := by simp [define, Store.define]
  right_le := by simp [define, Store.define]
  scope_new := .inl
  closure_new := .inl

/-- A new scope in both stores, enclosed by scopes that stand for each other. -/
def openScope (K : Correspondence) {o o' : ScopeId} (ho : K.scope o o')
    {bs bs' : List (String × Value)}
    (hbs : ∀ name, Option.Rel (Value.Corresponds K.toRenaming) (bs.lookup name)
      (bs'.lookup name)) : Correspondence where
  toRenaming := K.toRenaming.addScope K.ne_size
  left := (K.left.openScope (some o) bs).2
  right := (K.right.openScope (some o') bs').2
  scopes := by
    intro t t' ht
    have hle := K.toRenaming.le_addScope K.ne_size
    rcases ht with ht | ⟨rfl, rfl⟩
    · rcases K.scopes ht with ⟨a, a', ha, ha', hScope⟩
      refine ⟨a, a', ?_, ?_, hScope.mono hle⟩
      · simp only [Store.openScope, Array.getElem?_push, if_neg (K.ne_size ht).1, ha]
      · simp only [Store.openScope, Array.getElem?_push, if_neg (K.ne_size ht).2, ha']
    · -- both new scopes come behind the ones around them
      refine ⟨⟨some o, bs⟩, ⟨some o', bs'⟩, Array.getElem?_push_size, Array.getElem?_push_size, ?_⟩
      have hBefore : o < K.left.scopes.size ↔ o' < K.right.scopes.size :=
        iff_of_true (K.lt_size ho).1 (K.lt_size ho).2
      exact
        { enclosing := .some ⟨hle.1 ho, hBefore⟩
          bindings := fun name => optionRel_mono (hbs name) fun hv => hv.mono hle }
  closures := K.closures

theorem grows_openScope (K : Correspondence) {o o' : ScopeId} (ho : K.scope o o')
    {bs bs' : List (String × Value)}
    (hbs : ∀ name, Option.Rel (Value.Corresponds K.toRenaming) (bs.lookup name)
      (bs'.lookup name)) : K.Grows (K.openScope ho hbs) where
  le := K.toRenaming.le_addScope K.ne_size
  left_le := by simp [openScope, Store.openScope]
  right_le := by simp [openScope, Store.openScope]
  scope_new hs := by
    rcases hs with hs | ⟨rfl, rfl⟩
    · exact .inl hs
    · exact .inr ⟨Nat.le_refl _, Nat.le_refl _⟩
  closure_new := .inl

/-- A new closure in both stores, of the same literal in scopes that stand for each other. -/
def close (K : Correspondence) {s s' : ScopeId} (hs : K.scope s s') (parameters : List String)
    (body : List Stmt) : Correspondence where
  toRenaming := K.toRenaming.addClosure parameters body hs K.ne_closures
  left := (K.left.close s parameters body).2
  right := (K.right.close s' parameters body).2
  scopes := by
    intro t t' ht
    rcases K.scopes ht with ⟨a, a', ha, ha', hScope⟩
    have hle := K.toRenaming.le_addClosure parameters body hs K.ne_closures
    exact ⟨a, a', ha, ha', hScope.mono hle⟩
  closures := by
    rintro c c' (hc | ⟨rfl, rfl⟩)
    · exact ⟨Nat.lt_succ_of_lt (K.closures hc).1, Nat.lt_succ_of_lt (K.closures hc).2⟩
    · exact ⟨Nat.lt_succ_self _, Nat.lt_succ_self _⟩

theorem grows_close (K : Correspondence) {s s' : ScopeId} (hs : K.scope s s')
    (parameters : List String) (body : List Stmt) : K.Grows (K.close hs parameters body) where
  le := K.toRenaming.le_addClosure parameters body hs K.ne_closures
  left_le := ⟨Nat.le_refl _, Nat.le_succ _⟩
  right_le := ⟨Nat.le_refl _, Nat.le_succ _⟩
  scope_new := .inl
  closure_new hc := by
    rcases hc with hc | ⟨rfl, rfl⟩
    · exact .inl hc
    · exact .inr ⟨Nat.le_refl _, Nat.le_refl _⟩

end Correspondence
end MonkeyLang
