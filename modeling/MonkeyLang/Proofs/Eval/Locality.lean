import MonkeyLang.Proofs.Eval.Proper

/-!
# Locality — an evaluation depends on what it can reach

From a scope lead ways to the scopes around it and, through the function values bound in it, to the
scopes that these were made in.  What cannot be reached on such ways has no influence on an
evaluation: in two stores whose reachable parts are the same up to a one-to-one renaming of scopes
and closures (`Renaming.Matches`), a program ends in both or in neither, with the same result up to
renaming, and leaves reachable parts that match again.  A call reaches what its function and its
arguments reach, and nothing of the scope that it is made from: scoping is lexical.

The reachable parts are cut out of the correspondence of all scopes that the two runs keep
(`Correspondence.matches_restrict`).
-/

namespace MonkeyLang

/-! ## What can be reached -/

/-- Where ways begin: scopes, and values that are at hand without being bound anywhere. -/
structure Roots where
  scopes : List ScopeId
  values : List Value

/-- What is at hand together with the value of a result. -/
def Roots.with (roots : Roots) : Except EvalError Value → Roots
  | .ok v => ⟨roots.scopes, v :: roots.values⟩
  | .error _ => roots

namespace Store

/-- The scopes that ways from the roots lead to. -/
inductive Reaches (σ : Store) (roots : Roots) : ScopeId → Prop
  | scope {s : ScopeId} (hs : s ∈ roots.scopes) : Reaches σ roots s
  | value {c : Closure} (hc : .function c ∈ roots.values) : Reaches σ roots c.scope
  | enclosing {s o : ScopeId} {scope : Scope} (hs : Reaches σ roots s)
      (hScope : σ.scopes[s]? = some scope) (ho : scope.enclosing = some o) : Reaches σ roots o
  | captured {s : ScopeId} {scope : Scope} {name : String} {c : Closure} (hs : Reaches σ roots s)
      (hScope : σ.scopes[s]? = some scope) (hc : scope.find? name = some (.function c)) :
      Reaches σ roots c.scope

/-- The closures at hand, and those that are bound in a scope that can be reached. -/
inductive ReachesClosure (σ : Store) (roots : Roots) : Closure → Prop
  | value {c : Closure} (hc : .function c ∈ roots.values) : ReachesClosure σ roots c
  | bound {s : ScopeId} {scope : Scope} {name : String} {c : Closure} (hs : σ.Reaches roots s)
      (hScope : σ.scopes[s]? = some scope) (hc : scope.find? name = some (.function c)) :
      ReachesClosure σ roots c

theorem ReachesClosure.captured {σ : Store} {roots : Roots} {c : Closure}
    (h : σ.ReachesClosure roots c) : σ.Reaches roots c.scope := by
  cases h with
  | value hc => exact .value hc
  | bound hs hScope hc => exact .captured hs hScope hc

theorem Proper.lt_closures {σ : Store} (hσ : σ.Proper) {roots : Roots}
    (hRoots : ∀ v ∈ roots.values, σ.Holds v) {c : Closure} (h : σ.ReachesClosure roots c) :
    c.id < σ.closures := by
  cases h with
  | value hc => exact (hRoots _ hc).1
  | bound _ hScope hc => exact (hσ.bindings hScope hc).1

end Store

/-! ## Reachable parts that are the same -/

/-- Roots that stand for each other. -/
structure Roots.Corresponds (β : Renaming) (roots roots' : Roots) : Prop where
  scopes : List.Forall₂ β.scope roots.scopes roots'.scopes
  values : List.Forall₂ (Value.Corresponds β) roots.values roots'.values

theorem Roots.Corresponds.symm {β : Renaming} {roots roots' : Roots}
    (h : roots.Corresponds β roots') : roots'.Corresponds β.symm roots where
  scopes := h.scopes.flip
  values := h.values.flip.imp fun _ _ hv => hv.symm

theorem Roots.Corresponds.mono {β γ : Renaming} {roots roots' : Roots}
    (h : roots.Corresponds β roots') (hle : β ≤ γ) : roots.Corresponds γ roots' where
  scopes := h.scopes.imp fun _ _ hs => hle.1 hs
  values := h.values.imp fun _ _ hv => hv.mono hle

/-- The renaming is one between exactly the parts of two stores that can be reached, and along it
they are the same: roots stand for roots, and scopes that stand for each other are enclosed by such
scopes and bind the same names to values that correspond. -/
structure Renaming.Matches (β : Renaming) (σ σ' : Store) (roots roots' : Roots) : Prop where
  ends : roots.Corresponds β roots'
  left_scope : ∀ s, (∃ s', β.scope s s') ↔ σ.Reaches roots s
  right_scope : ∀ s', (∃ s, β.scope s s') ↔ σ'.Reaches roots' s'
  left_closure : ∀ c, (∃ c', β.closure c c') ↔ σ.ReachesClosure roots c
  right_closure : ∀ c', (∃ c, β.closure c c') ↔ σ'.ReachesClosure roots' c'
  scopes : ∀ {s s'}, β.scope s s' → ∃ a a', σ.scopes[s]? = some a ∧ σ'.scopes[s']? = some a' ∧
    Option.Rel β.scope a.enclosing a'.enclosing ∧
    ∀ name, Option.Rel (Value.Corresponds β) (a.find? name) (a'.find? name)

/-- Stores whose reachable parts match, as stores that correspond. -/
def Renaming.Matches.correspondence {β : Renaming} {σ σ' : Store} {roots roots' : Roots}
    (h : β.Matches σ σ' roots roots') (hσ : σ.Proper) (hσ' : σ'.Proper)
    (hRoots : ∀ v ∈ roots.values, σ.Holds v) (hRoots' : ∀ v ∈ roots'.values, σ'.Holds v) :
    Correspondence where
  toRenaming := β
  left := σ
  right := σ'
  scopes := by
    intro s s' hs
    rcases h.scopes hs with ⟨a, a', ha, ha', hEnclosing, hBindings⟩
    refine ⟨a, a', ha, ha', ?_, hBindings⟩
    -- both scopes were opened behind the ones around them
    have hNested : ∀ o, a.enclosing = some o → o < s := fun o ho => hσ.nested ha ho
    have hNested' : ∀ o, a'.enclosing = some o → o < s' := fun o ho => hσ'.nested ha' ho
    generalize a.enclosing = outer, a'.enclosing = outer' at hEnclosing hNested hNested'
    cases hEnclosing with
    | none => exact .none
    | some ho => exact .some ⟨ho, iff_of_true (hNested _ rfl) (hNested' _ rfl)⟩
  closures := by
    intro c c' hc
    have hLeft := hσ.lt_closures hRoots ((h.left_closure c).1 ⟨c', hc⟩)
    have hRight := hσ'.lt_closures hRoots' ((h.right_closure c').1 ⟨c, hc⟩)
    exact ⟨hLeft, hRight⟩

theorem exists_mem_of_forall₂ {α : Type} {R : α → α → Prop} {as bs : List α}
    (h : List.Forall₂ R as bs) {a : α} (ha : a ∈ as) : ∃ b ∈ bs, R a b := by
  induction h with
  | nil => cases ha
  | cons hab _ ih =>
      rcases List.mem_cons.1 ha with rfl | ha
      · exact ⟨_, List.mem_cons_self, hab⟩
      · rcases ih ha with ⟨b, hb, hR⟩
        exact ⟨b, List.mem_cons_of_mem _ hb, hR⟩

namespace Correspondence

variable {roots roots' : Roots}

/-- A function at hand on the left stands for one at hand on the right. -/
theorem exists_closure_of_value (K : Correspondence)
    (hRoots : roots.Corresponds K.toRenaming roots') {c : Closure}
    (hc : .function c ∈ roots.values) :
    ∃ c', K.closure c c' ∧ .function c' ∈ roots'.values := by
  rcases exists_mem_of_forall₂ hRoots.values hc with ⟨v', hv', hPair⟩
  cases hPair with
  | function hc' => exact ⟨_, hc', hv'⟩

/-- A function bound in a scope stands for the one that its name means in the scope's
counterpart. -/
theorem exists_closure_of_bound (K : Correspondence) {s s' : ScopeId} (hs : K.scope s s')
    {scope : Scope} (hScope : K.left.scopes[s]? = some scope) {name : String} {c : Closure}
    (hc : scope.find? name = some (.function c)) :
    ∃ scope' c', K.right.scopes[s']? = some scope' ∧ scope'.find? name = some (.function c') ∧
      K.closure c c' := by
  rcases K.scopes hs with ⟨a, a', ha, ha', hLike⟩
  have hBinding := hLike.bindings name
  rw [Option.some.inj (ha.symm.trans hScope), hc] at hBinding
  generalize hFound : a'.find? name = found at hBinding
  cases hBinding with
  | some hv =>
      cases hv with
      | function hc' => exact ⟨a', _, ha', hFound, hc'⟩

/-- A way in the left store is a way in the right one. -/
theorem exists_reaches (K : Correspondence) (hRoots : roots.Corresponds K.toRenaming roots')
    {s : ScopeId} (h : K.left.Reaches roots s) :
    ∃ s', K.scope s s' ∧ K.right.Reaches roots' s' := by
  induction h with
  | scope hs =>
      rcases exists_mem_of_forall₂ hRoots.scopes hs with ⟨s', hs', hPair⟩
      exact ⟨s', hPair, .scope hs'⟩
  | value hc =>
      rcases K.exists_closure_of_value hRoots hc with ⟨c', hPair, hc'⟩
      exact ⟨c'.scope, K.captured hPair, .value hc'⟩
  | enclosing hs hScope ho ih =>
      rcases ih with ⟨s', hPair, hs'⟩
      rcases K.scopes hPair with ⟨a, a', ha, ha', hLike⟩
      have hEnclosing := hLike.enclosing
      rw [Option.some.inj (ha.symm.trans hScope), ho] at hEnclosing
      generalize hOuter : a'.enclosing = outer at hEnclosing
      cases hEnclosing with
      | some ho' => exact ⟨_, ho'.1, .enclosing hs' ha' hOuter⟩
  | captured hs hScope hc ih =>
      rcases ih with ⟨s', hPair, hs'⟩
      rcases K.exists_closure_of_bound hPair hScope hc with ⟨scope', c', hScope', hc', hClosures⟩
      exact ⟨c'.scope, K.captured hClosures, .captured hs' hScope' hc'⟩

theorem exists_reachesClosure (K : Correspondence)
    (hRoots : roots.Corresponds K.toRenaming roots') {c : Closure}
    (h : K.left.ReachesClosure roots c) :
    ∃ c', K.closure c c' ∧ K.right.ReachesClosure roots' c' := by
  cases h with
  | value hc =>
      rcases K.exists_closure_of_value hRoots hc with ⟨c', hPair, hc'⟩
      exact ⟨c', hPair, .value hc'⟩
  | bound hs hScope hc =>
      rcases K.exists_reaches hRoots hs with ⟨s', hPair, hs'⟩
      rcases K.exists_closure_of_bound hPair hScope hc with ⟨scope', c', hScope', hc', hClosures⟩
      exact ⟨c', hClosures, .bound hs' hScope' hc'⟩

/-- The part of a renaming between the scopes and closures that can be reached. -/
def restrict (K : Correspondence) (roots : Roots) : Renaming where
  scope s s' := K.left.Reaches roots s ∧ K.scope s s'
  closure c c' := K.left.ReachesClosure roots c ∧ K.closure c c'
  scope_iff hs ht := K.scope_iff hs.2 ht.2
  closure_iff hc hd := K.closure_iff hc.2 hd.2
  parameters hc := K.parameters hc.2
  body hc := K.body hc.2
  captured hc := ⟨hc.1.captured, K.captured hc.2⟩

theorem restrict_le (K : Correspondence) (roots : Roots) : K.restrict roots ≤ K.toRenaming :=
  ⟨fun hs => hs.2, fun hc => hc.2⟩

theorem restrict_value (K : Correspondence) {v v' : Value}
    (hReached : ∀ c, v = .function c → K.left.ReachesClosure roots c)
    (hv : v.Corresponds K.toRenaming v') : v.Corresponds (K.restrict roots) v' := by
  cases hv with
  | integer n => exact .integer n
  | boolean b => exact .boolean b
  | null => exact .null
  | function hc => exact .function ⟨hReached _ rfl, hc⟩

/-- What can be reached from roots that stand for each other, in stores that correspond, is the
same. -/
theorem matches_restrict (K : Correspondence) (hRoots : roots.Corresponds K.toRenaming roots') :
    (K.restrict roots).Matches K.left K.right roots roots' where
  ends := by
    have hScopes : ∀ s ∈ roots.scopes, K.left.Reaches roots s := fun s hs => .scope hs
    have hValues : ∀ v ∈ roots.values, ∀ c, v = .function c → K.left.ReachesClosure roots c := by
      rintro _ hv c rfl
      exact .value hv
    have hValuePairs := (List.forall₂_and_left _ _).2 ⟨hValues, hRoots.values⟩
    exact
      { scopes := (List.forall₂_and_left _ _).2 ⟨hScopes, hRoots.scopes⟩
        values := hValuePairs.imp fun v v' hv => K.restrict_value hv.1 hv.2 }
  left_scope s := by
    constructor
    · rintro ⟨s', hs, -⟩
      exact hs
    · intro hs
      rcases K.exists_reaches hRoots hs with ⟨s', hPair, -⟩
      exact ⟨s', hs, hPair⟩
  right_scope s' := by
    constructor
    · rintro ⟨s, hs, hPair⟩
      rcases K.exists_reaches hRoots hs with ⟨t', hPair', ht'⟩
      -- no scope stands for two
      rwa [(K.scope_iff hPair hPair').1 rfl]
    · intro hs'
      rcases K.symm.exists_reaches hRoots.symm hs' with ⟨s, hPair, hs⟩
      exact ⟨s, hs, hPair⟩
  left_closure c := by
    constructor
    · rintro ⟨c', hc, -⟩
      exact hc
    · intro hc
      rcases K.exists_reachesClosure hRoots hc with ⟨c', hPair, -⟩
      exact ⟨c', hc, hPair⟩
  right_closure c' := by
    constructor
    · rintro ⟨c, hc, hPair⟩
      rcases K.exists_reachesClosure hRoots hc with ⟨d', hPair', hd'⟩
      rwa [← K.closure_unique hPair hPair']
    · intro hc'
      rcases K.symm.exists_reachesClosure hRoots.symm hc' with ⟨c, hPair, hc⟩
      exact ⟨c, hc, hPair⟩
  scopes := by
    rintro s s' ⟨hs, hPair⟩
    rcases K.scopes hPair with ⟨a, a', ha, ha', hLike⟩
    refine ⟨a, a', ha, ha', ?_, fun name => ?_⟩
    · -- a scope around one that can be reached can be reached too
      have hOuter : ∀ o, a.enclosing = some o → K.left.Reaches roots o := fun o ho =>
        .enclosing hs ha ho
      have hEnclosing := hLike.enclosing
      generalize a.enclosing = outer, a'.enclosing = outer' at hOuter hEnclosing
      cases hEnclosing with
      | none => exact .none
      | some ho => exact .some ⟨hOuter _ rfl, ho.1⟩
    · have hBound : ∀ c, a.find? name = some (.function c) → K.left.ReachesClosure roots c :=
        fun c hc => .bound hs ha hc
      have hBinding := hLike.bindings name
      generalize a.find? name = found, a'.find? name = found' at hBound hBinding
      cases hBinding with
      | none => exact .none
      | some hv => exact .some (K.restrict_value (fun c hc => hBound c (congrArg some hc)) hv)

end Correspondence

/-! ## Ends that are the same -/

/-- Two renamings are parts of one. -/
def Renaming.Agrees (β γ : Renaming) : Prop :=
  ∃ δ : Renaming, β ≤ δ ∧ γ ≤ δ

/-- Values that correspond, which are shown alike, or equal errors. -/
inductive SameResult (β : Renaming) : Except EvalError Value → Except EvalError Value → Prop
  | ok {v v' : Value} (hv : v.Corresponds β v') (hText : v'.text = v.text) :
      SameResult β (.ok v) (.ok v')
  | error (e : EvalError) : SameResult β (.error e) (.error e)

/-- Ends of runs whose roots matched along `β`.  The results are the same, and what can be reached
afterwards, from the roots and the values that came out, is the same: both up to a renaming that
agrees with `β`. -/
def EndsAlike (β : Renaming) (roots roots' : Roots)
    (end_ end_' : Except EvalError Value × Store) : Prop :=
  ∃ γ : Renaming, β.Agrees γ ∧ SameResult γ end_.1 end_'.1 ∧
    γ.Matches end_.2 end_'.2 (roots.with end_.1) (roots'.with end_'.1)

theorem Completion.Corresponds.sameResult {β : Renaming} {c c' : Completion Value}
    (h : c.Corresponds β Value.Corresponds c') : SameResult β c.result c'.result := by
  cases h with
  | value hv => exact .ok hv hv.text_eq
  | returned hv => exact .ok hv hv.text_eq
  | failed e => exact .error e

theorem Roots.Corresponds.with {β : Renaming} {roots roots' : Roots}
    {r r' : Except EvalError Value} (h : roots.Corresponds β roots') (hr : SameResult β r r') :
    (roots.with r).Corresponds β (roots'.with r') := by
  cases hr with
  | ok hv _ => exact ⟨h.scopes, .cons hv h.values⟩
  | error e => exact h

/-- A result corresponds along all of a renaming as soon as it does along the part that can be
reached from it. -/
theorem Correspondence.restrict_result (K : Correspondence) {roots : Roots}
    {r r' : Except EvalError Value} (hr : SameResult K.toRenaming r r') :
    SameResult (K.restrict (roots.with r)) r r' := by
  cases hr with
  | ok hv hText =>
      refine .ok (K.restrict_value ?_ hv) hText
      rintro c rfl
      exact .value List.mem_cons_self
  | error e => exact .error e

namespace Run.Simulates

variable {K : Correspondence} {roots roots' : Roots} {m m' : Run Value}

/-- A run in step with one that ends does so alike. -/
theorem exists_endsAlike (h : Simulates K Value.Corresponds m m')
    (hRoots : roots.Corresponds K.toRenaming roots') {end_ : Except EvalError Value × Store}
    (hEnd : m.outcome K.left = some end_) :
    ∃ end_', m'.outcome K.right = some end_' ∧ EndsAlike K.toRenaming roots roots' end_ end_' := by
  rcases Option.map_eq_some_iff.1 hEnd with ⟨⟨c, τ⟩, hRun, rfl⟩
  rcases h c τ hRun with ⟨K', c', hGrows, rfl, hRun', hCompletion⟩
  refine ⟨(c'.result, K'.right), Option.map_eq_some_iff.2 ⟨_, hRun', rfl⟩, ?_⟩
  have hResult : SameResult K'.toRenaming c.result c'.result := hCompletion.sameResult
  have hReached := K'.matches_restrict ((hRoots.mono hGrows.le).with hResult)
  have hAgrees : K.toRenaming.Agrees (K'.restrict (roots.with c.result)) :=
    ⟨K'.toRenaming, hGrows.le, K'.restrict_le _⟩
  exact ⟨K'.restrict (roots.with c.result), hAgrees, K'.restrict_result hResult, hReached⟩

/-- Runs that are in step in both directions end alike or not at all. -/
theorem outcome_rel (h : Simulates K Value.Corresponds m m')
    (h' : Simulates K.symm Value.Corresponds m' m)
    (hRoots : roots.Corresponds K.toRenaming roots') :
    Option.Rel (EndsAlike K.toRenaming roots roots') (m.outcome K.left) (m'.outcome K.right) := by
  cases hLeft : m.outcome K.left with
  | some end_ =>
      rcases h.exists_endsAlike hRoots hLeft with ⟨end_', hRight, hAlike⟩
      rw [hRight]
      exact .some hAlike
  | none =>
      cases hRight : m'.outcome K.right with
      | none => exact .none
      | some end_' =>
          -- with an end on the right there would be one on the left
          rcases h'.exists_endsAlike hRoots.symm hRight with ⟨end_, hLeft', -⟩
          have hNone : m.outcome K.left = some end_ := hLeft'
          rw [hLeft] at hNone
          cases hNone

end Run.Simulates

/-- Where the reachable parts of two stores match, programs and calls end alike, or in neither of
them, whatever number of nested steps they are granted.  For a program all ways begin in the scope
it runs in, and for a call in the function and the arguments. -/
theorem evaluation_local {β : Renaming} {σ σ' : Store} (hσ : σ.Proper) (hσ' : σ'.Proper)
    (fuel : Nat) :
    (∀ p s s', β.Matches σ σ' ⟨[s], []⟩ ⟨[s'], []⟩ →
      Option.Rel (EndsAlike β ⟨[s], []⟩ ⟨[s'], []⟩) (eval fuel p s σ) (eval fuel p s' σ')) ∧
    (∀ f f' vs vs', (∀ v ∈ f :: vs, σ.Holds v) → (∀ v ∈ f' :: vs', σ'.Holds v) →
      β.Matches σ σ' ⟨[], f :: vs⟩ ⟨[], f' :: vs'⟩ →
      Option.Rel (EndsAlike β ⟨[], f :: vs⟩ ⟨[], f' :: vs'⟩) ((applyValue fuel f vs).outcome σ)
        ((applyValue fuel f' vs').outcome σ')) := by
  constructor
  · intro p s s' hMatches
    let K := hMatches.correspondence hσ hσ' nofun nofun
    have hScope : K.scope s s' := by
      cases hMatches.ends.scopes with
      | cons hs _ => exact hs
    have hRun := (simulatesAt fuel).stmts K s s' .null .null p.statements hScope .null
    have hBack := (simulatesAt fuel).stmts K.symm s' s .null .null p.statements hScope .null
    exact hRun.outcome_rel hBack hMatches.ends
  · intro f f' vs vs' hHeld hHeld' hMatches
    let K := hMatches.correspondence hσ hσ' hHeld hHeld'
    rcases List.forall₂_cons.1 hMatches.ends.values with ⟨hf, hvs⟩
    have hArguments : List.Forall₂ (Value.Corresponds β.symm) vs' vs :=
      hvs.flip.imp fun _ _ hv => hv.symm
    have hRun := (simulatesAt fuel).apply K f f' vs vs' hf hvs
    have hBack := (simulatesAt fuel).apply K.symm f' f vs' vs hf.symm hArguments
    exact hRun.outcome_rel hBack hMatches.ends

/-- A function that calls itself until `x` is used up, and then comes to what `k` means where it
was made. -/
def countdown (id : Nat) (scope : ScopeId) : Closure where
  id := id
  parameters := ["x"]
  body :=
    [.expr (.cond (.infixOp .lt (.ident "x") (.int 1)) [.expr (.ident "k")]
      (some [.expr (.call (.ident "f") [.infixOp .minus (.ident "x") (.int 1)])]))]
  scope := scope

/-- A scope with that function, which was made in it. -/
def countdownScope (id : Nat) (scope : ScopeId) : Scope where
  enclosing := none
  bindings := [("f", .function (countdown id scope)), ("k", .integer 5)]

/-- Only that scope, and the scope between others in which its names mean something else. -/
def countdownStore : Store :=
  ⟨#[countdownScope 0 0], 1⟩

def crowdedStore : Store :=
  ⟨#[⟨none, [("k", .integer 7), ("f", .null)]⟩, countdownScope 3 1,
    ⟨some 1, [("k", .boolean true)]⟩], 4⟩

/-- The scope of the first store and the function in it, in the second store. -/
def countdownRenaming : Renaming where
  scope s s' := s = 0 ∧ s' = 1
  closure c c' := c = countdown 0 0 ∧ c' = countdown 3 1
  scope_iff := by
    rintro _ _ _ _ ⟨rfl, rfl⟩ ⟨rfl, rfl⟩
    exact iff_of_true rfl rfl
  closure_iff := by
    rintro _ _ _ _ ⟨rfl, rfl⟩ ⟨rfl, rfl⟩
    exact iff_of_true rfl rfl
  parameters := by
    rintro _ _ ⟨rfl, rfl⟩
    rfl
  body := by
    rintro _ _ ⟨rfl, rfl⟩
    rfl
  captured := by
    rintro _ _ ⟨rfl, rfl⟩
    exact ⟨rfl, rfl⟩

def countdownPair : Correspondence where
  toRenaming := countdownRenaming
  left := countdownStore
  right := crowdedStore
  scopes := by
    rintro _ _ ⟨rfl, rfl⟩
    have hValues : List.Forall₂ (Value.Corresponds countdownRenaming)
        [.function (countdown 0 0), .integer 5] [.function (countdown 3 1), .integer 5] :=
      .cons (.function ⟨rfl, rfl⟩) (.cons (.integer 5) .nil)
    -- the same names are bound to them, one after the other
    have hBindings := lookup_rebindAll_corresponds hValues ["f", "k"] [] [] fun _ => .none
    exact ⟨countdownScope 0 0, countdownScope 3 1, rfl, rfl, ⟨.none, hBindings⟩⟩
  closures := by
    rintro _ _ ⟨rfl, rfl⟩
    exact ⟨by decide, by decide⟩

/-- The program `f(2)` in both stores, which comes to what `k` means around the function, and the
same call with the function at hand. -/
theorem evaluation_local_sample :
    (∃ β, (eval 40 ⟨[.expr (.call (.ident "f") [.int 2])]⟩ 0 countdownStore).map Prod.fst =
        some (.ok (.integer 5)) ∧
      Option.Rel (EndsAlike β ⟨[0], []⟩ ⟨[1], []⟩)
        (eval 40 ⟨[.expr (.call (.ident "f") [.int 2])]⟩ 0 countdownStore)
        (eval 40 ⟨[.expr (.call (.ident "f") [.int 2])]⟩ 1 crowdedStore)) ∧
    (∃ β, Option.Rel
      (EndsAlike β ⟨[], [.function (countdown 0 0), .integer 2]⟩
        ⟨[], [.function (countdown 3 1), .integer 2]⟩)
      ((applyValue 40 (.function (countdown 0 0)) [.integer 2]).outcome countdownStore)
      ((applyValue 40 (.function (countdown 3 1)) [.integer 2]).outcome crowdedStore)) := by
  have hLeft : countdownStore.Proper := .of_scopes (by decide) (by decide)
  have hRight : crowdedStore.Proper := .of_scopes (by decide) (by decide)
  have hScope : (⟨[0], []⟩ : Roots).Corresponds countdownRenaming ⟨[1], []⟩ :=
    ⟨.cons ⟨rfl, rfl⟩ .nil, .nil⟩
  have hCall : (⟨[], [.function (countdown 0 0), .integer 2]⟩ : Roots).Corresponds
      countdownRenaming ⟨[], [.function (countdown 3 1), .integer 2]⟩ :=
    ⟨.nil, .cons (.function ⟨rfl, rfl⟩) (.cons (.integer 2) .nil)⟩
  constructor
  · have hRun := (evaluation_local hLeft hRight 40).1 ⟨[.expr (.call (.ident "f") [.int 2])]⟩ 0 1
      (countdownPair.matches_restrict hScope)
    exact ⟨_, by with_unfolding_all rfl, hRun⟩
  · have hRun := (evaluation_local hLeft hRight 40).2 (.function (countdown 0 0))
      (.function (countdown 3 1)) [.integer 2] [.integer 2] (by decide) (by decide)
      (countdownPair.matches_restrict hCall)
    exact ⟨_, hRun⟩

end MonkeyLang
