import MonkeyLang.Proofs.Session.Sound

/-!
# Ledger — bindings told from what was done

What a name means in a scope can be told without a store.  A ledger keeps the scopes that were
opened and the writes that were made, and nothing is ever taken back in it.  The meaning of a name
is the value of the last write to it at the nearest scope, on the way outward, that has any write
to it.

A store describes its scopes as they are now.  `Ledger.Describes` says that this is what the
ledger comes to, and is kept by every command that opens a scope or defines or copies a binding.
-/

namespace MonkeyLang
namespace Session

/-- A binding that was made: where, of which name, and to what. -/
structure Write where
  scope : ScopeId
  name : String
  value : Value

/-- The scopes that were opened, each by what it was opened in, and the writes, the last ones
first. -/
structure Ledger where
  opened : List (Option ScopeId)
  writes : List Write

namespace Ledger

variable {L : Ledger} {σ : Store} {s t : ScopeId} {name : String} {v : Value}

/-! ## The nearest scope and the last write -/

/-- The way outward from `s`, among scopes that were opened, the last ones first.  The first scope
of all has the number 0, so a scope has for its number how many were opened before it. -/
def outward : List (Option ScopeId) → ScopeId → List ScopeId
  | [], _ => []
  | enclosing :: before, s =>
      if s = before.length then
        match enclosing with
        | none => [s]
        | some o => s :: outward before o
      else outward before s

def chain (L : Ledger) (s : ScopeId) : List ScopeId :=
  outward L.opened s

def Binds (L : Ledger) (t : ScopeId) (name : String) : Prop :=
  ∃ w ∈ L.writes, w.scope = t ∧ w.name = name

/-- No write to the name at that scope is later than one of `v`. -/
def Latest (L : Ledger) (t : ScopeId) (name : String) (v : Value) : Prop :=
  ∃ later earlier, L.writes = later ++ ⟨t, name, v⟩ :: earlier ∧
    ∀ w ∈ later, w.scope = t → w.name ≠ name

/-- The scope `t` is on the way outward from `s`, and no nearer scope binds the name. -/
def Reaches (L : Ledger) (s : ScopeId) (name : String) (t : ScopeId) : Prop :=
  ∃ nearer farther, L.chain s = nearer ++ t :: farther ∧ ∀ u ∈ nearer, ¬ L.Binds u name

def latest? (L : Ledger) (t : ScopeId) (name : String) : Option Value :=
  (L.writes.find? fun w => w.scope = t ∧ w.name = name).map Write.value

def lookup (L : Ledger) (s : ScopeId) (name : String) : Option Value :=
  (L.chain s).findSome? fun t => L.latest? t name

theorem latest?_eq_some_iff : L.latest? t name = some v ↔ L.Latest t name v := by
  simp only [latest?, Option.map_eq_some_iff, List.find?_eq_some_iff_append]
  constructor
  · rintro ⟨w, ⟨hFits, later, earlier, hWrites, hLater⟩, rfl⟩
    obtain ⟨rfl, rfl⟩ := of_decide_eq_true hFits
    refine ⟨later, earlier, hWrites, fun u hu hScope hName => ?_⟩
    simpa [hScope, hName] using hLater u hu
  · rintro ⟨later, earlier, hWrites, hLater⟩
    refine ⟨⟨t, name, v⟩, ⟨by simp, later, earlier, hWrites, fun w hw => ?_⟩, rfl⟩
    simpa [imp_iff_not_or] using hLater w hw

theorem latest?_eq_none_iff : L.latest? t name = none ↔ ¬ L.Binds t name := by
  simp [latest?, Binds]

theorem lookup_eq_none_iff : L.lookup s name = none ↔ ∀ t ∈ L.chain s, ¬ L.Binds t name := by
  simp only [lookup, List.findSome?_eq_none_iff, latest?_eq_none_iff]

theorem lookup_eq_some_iff :
    L.lookup s name = some v ↔ ∃ t, L.Reaches s name t ∧ L.Latest t name v := by
  simp only [lookup, List.findSome?_eq_some_iff, latest?_eq_none_iff, latest?_eq_some_iff]
  constructor
  · rintro ⟨nearer, t, farther, hChain, hLatest, hNearer⟩
    exact ⟨t, ⟨nearer, farther, hChain, hNearer⟩, hLatest⟩
  · rintro ⟨t, ⟨nearer, farther, hChain, hNearer⟩, hLatest⟩
    exact ⟨nearer, t, farther, hChain, hLatest, hNearer⟩

/-! ## Recording commands -/

/-- The ledger behind a command.  A copy writes what its source means at the time, and nothing if
that name is not bound. -/
def record (L : Ledger) : Command → Ledger
  | .openScope enclosing => { L with opened := enclosing :: L.opened }
  | .define t name v => { L with writes := ⟨t, name, v⟩ :: L.writes }
  | .copy source sourceName target targetName =>
      match L.lookup source sourceName with
      | some v => { L with writes := ⟨target, targetName, v⟩ :: L.writes }
      | none => L
  | .get .. | .same .. | .run .. => L

def ofCommands (cs : List Command) : Ledger :=
  cs.foldl record ⟨[], []⟩

/-! ## Stores that a ledger describes -/

/-- Every scope of the store is enclosed by what the ledger says, and binds in itself what was
last written there. -/
structure Describes (L : Ledger) (σ : Store) : Prop where
  size : σ.scopes.size = L.opened.length
  written : ∀ w ∈ L.writes, w.scope < L.opened.length
  nested : ∀ {s o : ScopeId} {scope : Scope}, σ.scopes[s]? = some scope →
    scope.enclosing = some o → o < s
  way : ∀ {s : ScopeId} {scope : Scope}, σ.scopes[s]? = some scope →
    L.chain s = s :: scope.enclosing.elim [] L.chain
  own : ∀ {s : ScopeId} {scope : Scope} (name : String), σ.scopes[s]? = some scope →
    scope.find? name = L.latest? s name

/-- The ledger describes a store without scopes at the beginning. -/
theorem describes_empty : Describes ⟨[], []⟩ .empty where
  size := rfl
  written := nofun
  nested := nofun
  way := nofun
  own := nofun

theorem latest?_write (L : Ledger) (w : Write) (t : ScopeId) (name : String) :
    latest? { L with writes := w :: L.writes } t name =
      if w.scope = t ∧ w.name = name then some w.value else L.latest? t name := by
  by_cases h : w.scope = t ∧ w.name = name <;> simp [latest?, h]

namespace Describes

/-- A scope that is opened is the first on its own way outward, and on no other one. -/
theorem openScope (h : L.Describes σ) {enclosing : Option ScopeId}
    (hEnclosing : ∀ o ∈ enclosing, o < σ.scopes.size) :
    (L.record (.openScope enclosing)).Describes (σ.openScope enclosing []).2 := by
  have hChain : ∀ {s}, s < σ.scopes.size → (L.record (.openScope enclosing)).chain s = L.chain s :=
    fun hs => if_neg (Nat.ne_of_lt (h.size ▸ hs))
  have hWay : ∀ {o? : Option ScopeId}, (∀ o ∈ o?, o < σ.scopes.size) →
      o?.elim [] (L.record (.openScope enclosing)).chain = o?.elim [] L.chain := by
    intro o? ho
    cases o? with
    | none => rfl
    | some o => exact hChain (ho o rfl)
  refine ⟨?_, ?_, ?_, ?_, ?_⟩
  · simp [Store.openScope, record, h.size]
  · exact fun w hw => Nat.lt_succ_of_lt (h.written w hw)
  · intro s o scope hScope ho
    rcases Store.scope_of_openScope hScope with hOld | ⟨rfl, rfl⟩
    · exact h.nested hOld ho
    · exact hEnclosing o ho
  · intro s scope hScope
    rcases Store.scope_of_openScope hScope with hOld | ⟨rfl, rfl⟩
    · have hs : s < σ.scopes.size := (Array.getElem?_eq_some_iff.1 hOld).1
      rw [hChain hs, hWay fun o ho => Nat.lt_trans (h.nested hOld ho) hs]
      exact h.way hOld
    · rw [hWay hEnclosing]
      cases enclosing <;> exact if_pos h.size
  · intro s scope name hScope
    rcases Store.scope_of_openScope hScope with hOld | ⟨rfl, rfl⟩
    · exact h.own name hOld
    · have hMissing : ¬ L.Binds σ.scopes.size name := by
        rintro ⟨w, hw, hScope, -⟩
        exact Nat.ne_of_lt (h.size ▸ h.written w hw) hScope
      exact (latest?_eq_none_iff.2 hMissing).symm

/-- A binding is written at one scope, over earlier ones of the same name. -/
theorem define (h : L.Describes σ) (ht : t < σ.scopes.size) (name : String) (v : Value) :
    (L.record (.define t name v)).Describes (σ.define t name v) := by
  refine ⟨?_, ?_, ?_, ?_, ?_⟩
  · simpa [Store.define, record] using h.size
  · intro w hw
    rcases List.mem_cons.1 hw with rfl | hOld
    · exact h.size ▸ ht
    · exact h.written w hOld
  · intro s o scope hScope ho
    obtain ⟨old, hOld, hEnclosing, -⟩ := Store.bindings_of_define hScope
    exact h.nested hOld (hEnclosing.symm.trans ho)
  · intro s scope hScope
    obtain ⟨old, hOld, hEnclosing, -⟩ := Store.bindings_of_define hScope
    rw [hEnclosing]
    exact h.way hOld
  · intro s scope other hScope
    obtain ⟨old, hOld, rfl⟩ := Store.scope_of_define hScope
    rw [record, latest?_write, ← h.own other hOld]
    by_cases hs : t = s
    · by_cases hName : name = other
      · simp [hs, hName]
      · simp [hs, hName, Scope.find?_insert_of_ne old v (Ne.symm hName)]
    · simp [hs]

/-- A name means what the ledger says. -/
theorem get?_eq (h : L.Describes σ) (hs : s < σ.scopes.size) (name : String) :
    σ.get? s name = L.lookup s name := by
  -- by the way outward
  induction s using Nat.strongRecOn with
  | ind s ih =>
      have hScope : σ.scopes[s]? = some σ.scopes[s] := Array.getElem?_eq_getElem hs
      have hOwn := h.own name hScope
      rw [lookup, h.way hScope, List.findSome?_cons, ← hOwn]
      cases hFound : σ.scopes[s].find? name with
      | some v => exact Store.get?_of_found hScope hFound
      | none =>
          cases hOuter : σ.scopes[s].enclosing with
          | none => exact Store.get?_of_outermost hScope hFound hOuter
          | some o =>
              have ho : o < s := h.nested hScope hOuter
              rw [Store.get?_of_outward hScope hFound hOuter ho]
              exact ih o ho (Nat.lt_trans ho hs)

/-- The way outward in the store is that of the ledger. -/
theorem chain (h : L.Describes σ) (hs : s < σ.scopes.size) : σ.Chain s (L.chain s) := by
  induction s using Nat.strongRecOn with
  | ind s ih =>
      have hScope : σ.scopes[s]? = some σ.scopes[s] := Array.getElem?_eq_getElem hs
      rw [h.way hScope]
      cases hOuter : σ.scopes[s].enclosing with
      | none => exact .outermost hScope hOuter
      | some o =>
          have ho : o < s := h.nested hScope hOuter
          exact .outward hScope hOuter (ih o ho (Nat.lt_trans ho hs))

end Describes

/-! ## What a write changes -/

theorem findSome?_congr_of_reached {α β : Type} {f g : α → Option β} {xs : List α}
    (h : ∀ nearer x farther, xs = nearer ++ x :: farther → (∀ y ∈ nearer, f y = none) → g x = f x) :
    xs.findSome? g = xs.findSome? f := by
  induction xs with
  | nil => rfl
  | cons x xs ih =>
      rw [List.findSome?_cons, List.findSome?_cons, h [] x xs rfl nofun]
      cases hFound : f x with
      | some b => rfl
      | none =>
          refine ih fun nearer y farther hSplit hNearer => ?_
          refine h (x :: nearer) y farther (congrArg (x :: ·) hSplit) ?_
          exact List.forall_mem_cons.2 ⟨hFound, hNearer⟩

/-- A name means what was written last, if it is written where a lookup comes to. -/
theorem lookup_define_of_reaches (h : L.Reaches s name t) (v : Value) :
    (L.record (.define t name v)).lookup s name = some v := by
  obtain ⟨nearer, farther, hChain, hNearer⟩ := h
  have hWritten : ∀ u, (L.record (.define t name v)).latest? u name =
      if t = u then some v else L.latest? u name := fun u => by simp [record, latest?_write]
  change (L.chain s).findSome? _ = some v
  simp only [hChain, hWritten, List.findSome?_append, List.findSome?_cons, if_true]
  -- the written scope may be met before, but nothing else is found there
  cases hFirst : nearer.findSome? fun u => if t = u then some v else L.latest? u name with
  | none => rfl
  | some w =>
      obtain ⟨u, hu, hw⟩ := List.exists_of_findSome?_eq_some hFirst
      rw [latest?_eq_none_iff.2 (hNearer u hu)] at hw
      split at hw
      · exact hw.symm
      · cases hw

/-- No write is seen anywhere else. -/
theorem lookup_define_of_not_reaches {other : String} (v : Value)
    (h : ¬ (other = name ∧ L.Reaches s name t)) :
    (L.record (.define t name v)).lookup s other = L.lookup s other := by
  refine findSome?_congr_of_reached fun nearer u farther hChain hNearer => ?_
  have hReaches : L.Reaches s other u :=
    ⟨nearer, farther, hChain, fun x hx => latest?_eq_none_iff.1 (hNearer x hx)⟩
  rw [record, latest?_write, if_neg]
  rintro ⟨rfl, rfl⟩
  exact h ⟨rfl, hReaches⟩

end Ledger

/-! ## Sessions on bindings -/

/-- Commands that open scopes and define and copy bindings, of which each names scopes that are
open at its turn.  There are `n` at the beginning. -/
inductive Feasible : Nat → List Command → Prop
  | done {n : Nat} : Feasible n []
  | openScope {n : Nat} {enclosing : Option ScopeId} {cs : List Command}
      (hEnclosing : ∀ o ∈ enclosing, o < n) (h : Feasible (n + 1) cs) :
      Feasible n (.openScope enclosing :: cs)
  | define {n : Nat} {t : ScopeId} {name : String} {v : Value} {cs : List Command} (ht : t < n)
      (h : Feasible n cs) : Feasible n (.define t name v :: cs)
  | copy {n : Nat} {source target : ScopeId} {sourceName targetName : String} {cs : List Command}
      (hSource : source < n) (hTarget : target < n) (h : Feasible n cs) :
      Feasible n (.copy source sourceName target targetName :: cs)

namespace Ledger

variable {L : Ledger} {σ : Store}

/-- Commands on bindings are carried out, and leave a store that their ledger describes. -/
theorem Describes.execAll (h : L.Describes σ) {n : Nat} {cs : List Command}
    (hcs : Feasible n cs) (hn : n = σ.scopes.size) (fuel : Nat) :
    ∃ replies τ, execAll fuel cs σ = some (replies, τ) ∧ (cs.foldl record L).Describes τ := by
  induction hcs generalizing L σ with
  | done => exact ⟨[], σ, rfl, h⟩
  | @openScope n enclosing cs hEnclosing _ ih =>
      subst hn
      rcases ih (h.openScope hEnclosing) (by simp [Store.openScope]) with
        ⟨replies, τ, hRest, hDescribes⟩
      refine ⟨.opened σ.scopes.size :: replies, τ, ?_, hDescribes⟩
      simp only [Session.execAll, exec, hRest, Option.map_some]
      rfl
  | @define n t name v cs ht _ ih =>
      subst hn
      rcases ih (h.define ht name v) (by simp [Store.define]) with ⟨replies, τ, hRest, hDescribes⟩
      refine ⟨.defined :: replies, τ, ?_, hDescribes⟩
      simp only [Session.execAll, exec, hRest, Option.map_some]
  | @copy n source target sourceName targetName cs hSource hTarget _ ih =>
      subst hn
      have hGet := h.get?_eq hSource sourceName
      cases hFound : L.lookup source sourceName with
      | some v =>
          rw [hFound] at hGet
          have hRecord : L.record (.copy source sourceName target targetName) =
              L.record (.define target targetName v) := by simp only [record, hFound]
          rcases ih (h.define hTarget targetName v) (by simp [Store.define]) with
            ⟨replies, τ, hRest, hDescribes⟩
          refine ⟨.defined :: replies, τ, ?_, ?_⟩
          · simp only [Session.execAll, exec, hGet, hRest, Option.map_some]
          · rwa [List.foldl_cons, hRecord]
      | none =>
          rw [hFound] at hGet
          have hRecord : L.record (.copy source sourceName target targetName) = L := by
            simp only [record, hFound]
          rcases ih h rfl with ⟨replies, τ, hRest, hDescribes⟩
          refine ⟨.found none :: replies, τ, ?_, ?_⟩
          · simp only [Session.execAll, exec, hGet, hRest, Option.map_some]
          · rwa [List.foldl_cons, hRecord]

/-- The ledger of what was done explains what every name means in every scope of the store, and
what the next binding will change. -/
structure Explains (L : Ledger) (σ : Store) : Prop where
  /-- The way outward is by the scopes that were opened. -/
  chain : ∀ s < σ.scopes.size, σ.Chain s (L.chain s)
  /-- A name means what was written last at the nearest scope that binds it. -/
  found : ∀ s < σ.scopes.size, ∀ name v,
    σ.get? s name = some v ↔ ∃ t, L.Reaches s name t ∧ L.Latest t name v
  /-- It means nothing if no scope on the way outward binds it. -/
  missing : ∀ s < σ.scopes.size, ∀ name,
    σ.get? s name = none ↔ ∀ t ∈ L.chain s, ¬ L.Binds t name
  /-- A definition changes what its own name means, where the way outward comes to its scope
  before the name is bound, and nothing else. -/
  defined : ∀ t < σ.scopes.size, ∀ name v, ∃ τ,
    (∀ fuel, exec fuel (.define t name v) σ = some (.defined, τ)) ∧
      ∀ s < σ.scopes.size, (L.Reaches s name t → τ.get? s name = some v) ∧
        ∀ other, ¬ (other = name ∧ L.Reaches s name t) → τ.get? s other = σ.get? s other
  /-- A function that is copied is the same function in both places, with its scope. -/
  copied : ∀ source < σ.scopes.size, ∀ target < σ.scopes.size, ∀ sourceName targetName c,
    σ.get? source sourceName = some (.function c) → ∃ τ,
      (∀ fuel, exec fuel (.copy source sourceName target targetName) σ = some (.defined, τ)) ∧
      τ.get? source sourceName = some (.function c) ∧
      τ.get? target targetName = some (.function c) ∧
      ∀ fuel, exec fuel (.same source sourceName target targetName) τ = some (.compared true, τ)

namespace Describes

theorem reaches_self (h : L.Describes σ) {t : ScopeId} (ht : t < σ.scopes.size) (name : String) :
    L.Reaches t name t :=
  ⟨[], _, h.way (Array.getElem?_eq_getElem ht), nofun⟩

theorem get?_define_of_reaches (h : L.Describes σ) {s t : ScopeId} (hs : s < σ.scopes.size)
    (ht : t < σ.scopes.size) {name : String} (v : Value) (hReaches : L.Reaches s name t) :
    (σ.define t name v).get? s name = some v := by
  rw [(h.define ht name v).get?_eq (by simpa [Store.define] using hs)]
  exact lookup_define_of_reaches hReaches v

theorem get?_define_of_not_reaches (h : L.Describes σ) {s t : ScopeId} (hs : s < σ.scopes.size)
    (ht : t < σ.scopes.size) {name other : String} (v : Value)
    (hOther : ¬ (other = name ∧ L.Reaches s name t)) :
    (σ.define t name v).get? s other = σ.get? s other := by
  rw [(h.define ht name v).get?_eq (by simpa [Store.define] using hs), h.get?_eq hs]
  exact lookup_define_of_not_reaches v hOther

theorem explains (h : L.Describes σ) : L.Explains σ := by
  refine ⟨fun s hs => h.chain hs, ?_, ?_, ?_, ?_⟩
  · intro s hs name v
    rw [h.get?_eq hs, lookup_eq_some_iff]
  · intro s hs name
    rw [h.get?_eq hs, lookup_eq_none_iff]
  · intro t ht name v
    refine ⟨σ.define t name v, fun fuel => rfl, fun s hs => ⟨?_, fun other hOther => ?_⟩⟩
    · exact h.get?_define_of_reaches hs ht v
    · exact h.get?_define_of_not_reaches hs ht v hOther
  · intro source hSource target hTarget sourceName targetName c hGet
    have hTargetGet : (σ.define target targetName (.function c)).get? target targetName =
        some (.function c) :=
      h.get?_define_of_reaches hTarget hTarget _ (h.reaches_self hTarget targetName)
    -- the copy may be bound nearer than the original, under the same name
    have hSourceGet : (σ.define target targetName (.function c)).get? source sourceName =
        some (.function c) := by
      by_cases hSeen : sourceName = targetName ∧ L.Reaches source targetName target
      · obtain ⟨rfl, hReaches⟩ := hSeen
        exact h.get?_define_of_reaches hSource hTarget _ hReaches
      · rw [h.get?_define_of_not_reaches hSource hTarget _ hSeen, hGet]
    refine ⟨σ.define target targetName (.function c), fun fuel => ?_, hSourceGet, hTargetGet,
      fun fuel => ?_⟩
    · simp only [exec, hGet]
    · simp only [exec, hSourceGet, hTargetGet, sameFound, Value.same_refl]

end Describes

/-- Whatever scopes are opened and bindings are defined and copied, in any order, the store that
is left is explained by the ledger of these commands. -/
theorem explains_of_feasible {cs : List Command} (h : Feasible 0 cs) (fuel : Nat) :
    ∃ replies σ, Session.execAll fuel cs .empty = some (replies, σ) ∧
      σ.scopes.size = (ofCommands cs).opened.length ∧ (ofCommands cs).Explains σ := by
  rcases describes_empty.execAll h rfl fuel with ⟨replies, σ, hExec, hDescribes⟩
  exact ⟨replies, σ, hExec, hDescribes.size, hDescribes.explains⟩

/-- A function is bound outside, shadowed in one of two scopes there, and copied into the other
one under a name that is bound outside as well, and again later. -/
def shadowing : List Command :=
  [.openScope none,
    .define 0 "f" (.function ⟨0, ["x"], [.expr (.ident "x")], 0⟩),
    .openScope (some 0),
    .openScope (some 0),
    .define 1 "f" .null,
    .copy 0 "f" 2 "g",
    .define 0 "g" (.boolean true),
    .copy 1 "h" 2 "f"]

theorem explains_of_feasible_shadowing : Feasible 0 shadowing ∧
    ∃ replies σ, Session.execAll 0 shadowing .empty = some (replies, σ) ∧
      σ.scopes.size = (ofCommands shadowing).opened.length ∧ (ofCommands shadowing).Explains σ := by
  have hFeasible : Feasible 0 shadowing :=
    .openScope (by decide) (.define (by decide) (.openScope (by decide) (.openScope (by decide)
      (.define (by decide) (.copy (by decide) (by decide) (.define (by decide)
        (.copy (by decide) (by decide) .done)))))))
  exact ⟨hFeasible, explains_of_feasible hFeasible 0⟩

end Ledger
end Session
end MonkeyLang
