import Mathlib.Logic.Relation
import MonkeyLang.Proofs.Eval.Frame
import MonkeyLang.Proofs.Eval.Kept
import MonkeyLang.Proofs.Eval.Proper
import MonkeyLang.Session.Basic

/-!
# Sound — the store of a session at any time

A session starts with a store without scopes and carries out commands on it, in any order and
number.  Closures refer to scopes and scopes to closures, so the store soon has cycles.  The way
outward from a scope has none: every scope was opened behind the one around it, and which one that
is never changes.  A lookup therefore ends, at the latest with the last scope on that way, and is
at no scope twice.

The order is part of `Store.Proper`, which every command keeps.  That a scope stays enclosed by
the same scope is `Store.Linked`, which holds of a store and any later one.
-/

namespace MonkeyLang
namespace Store

variable {σ τ υ : Store}

/-! ## The way outward -/

/-- The scopes on the way outward: a scope, the one around it, and so on, to one that no scope
encloses. -/
inductive Chain (σ : Store) : ScopeId → List ScopeId → Prop
  | outermost {s : ScopeId} {scope : Scope} (hScope : σ.scopes[s]? = some scope)
      (hOuter : scope.enclosing = none) : Chain σ s [s]
  | outward {s o : ScopeId} {scope : Scope} {chain : List ScopeId}
      (hScope : σ.scopes[s]? = some scope) (hOuter : scope.enclosing = some o)
      (h : Chain σ o chain) : Chain σ s (s :: chain)

theorem Proper.le_of_mem_chain (hσ : σ.Proper) {s t : ScopeId} {chain : List ScopeId}
    (h : σ.Chain s chain) (ht : t ∈ chain) : t ≤ s := by
  induction h with
  | outermost => exact Nat.le_of_eq (List.mem_singleton.1 ht)
  | outward hScope hOuter _ ih =>
      rcases List.mem_cons.1 ht with rfl | hRest
      · exact Nat.le_refl _
      · exact Nat.le_trans (ih hRest) (Nat.le_of_lt (hσ.nested hScope hOuter))

/-- No scope is met twice on the way outward. -/
theorem Proper.nodup_chain (hσ : σ.Proper) {s : ScopeId} {chain : List ScopeId}
    (h : σ.Chain s chain) : chain.Nodup := by
  induction h with
  | @outermost s => exact List.pairwise_singleton _ s
  | outward hScope hOuter hRest ih =>
      refine List.nodup_cons.2 ⟨fun hMem => ?_, ih⟩
      have hle := hσ.le_of_mem_chain hRest hMem
      exact Nat.not_le_of_lt (hσ.nested hScope hOuter) hle

/-- The way outward comes to an end. -/
theorem Proper.exists_chain (hσ : σ.Proper) {s : ScopeId} (hs : s < σ.scopes.size) :
    ∃ chain, σ.Chain s chain := by
  induction s using Nat.strongRecOn with
  | ind s ih =>
      have hScope : σ.scopes[s]? = some σ.scopes[s] := Array.getElem?_eq_getElem hs
      cases hOuter : σ.scopes[s].enclosing with
      | none => exact ⟨_, .outermost hScope hOuter⟩
      | some o =>
          rcases ih o (hσ.nested hScope hOuter) (hσ.enclosing hScope hOuter) with ⟨chain, h⟩
          exact ⟨_, .outward hScope hOuter h⟩

/-! ## Lookup -/

/-- Looking a name up from a scope: the scopes that are visited, and what is found.  The scope
around another one is visited whatever its number is. -/
inductive Visits (σ : Store) (name : String) : ScopeId → List ScopeId → Option Value → Prop
  | found {s : ScopeId} {scope : Scope} {v : Value} (hScope : σ.scopes[s]? = some scope)
      (hFound : scope.find? name = some v) : Visits σ name s [s] (some v)
  | missing {s : ScopeId} {scope : Scope} (hScope : σ.scopes[s]? = some scope)
      (hMissing : scope.find? name = none) (hOuter : scope.enclosing = none) :
      Visits σ name s [s] none
  | outward {s o : ScopeId} {scope : Scope} {visited : List ScopeId} {v? : Option Value}
      (hScope : σ.scopes[s]? = some scope) (hMissing : scope.find? name = none)
      (hOuter : scope.enclosing = some o) (h : Visits σ name o visited v?) :
      Visits σ name s (s :: visited) v?

/-- A lookup takes one course only. -/
theorem Visits.unique {name : String} {s : ScopeId} {visited visited' : List ScopeId}
    {v? w? : Option Value} (h : σ.Visits name s visited v?) (h' : σ.Visits name s visited' w?) :
    visited' = visited ∧ w? = v? := by
  induction h generalizing visited' w? with
  | found hScope hFound =>
      cases h' with
      | found hScope' hFound' => simp_all
      | missing hScope' hMissing' => simp_all
      | outward hScope' hMissing' => simp_all
  | missing hScope hMissing hOuter =>
      cases h' with
      | found hScope' hFound' => simp_all
      | missing => exact ⟨rfl, rfl⟩
      | outward hScope' _ hOuter' => simp_all
  | outward hScope hMissing hOuter _ ih =>
      cases h' with
      | found hScope' hFound' => simp_all
      | missing hScope' _ hOuter' => simp_all
      | outward hScope' _ hOuter' hRest' =>
          cases hScope.symm.trans hScope'
          cases hOuter.symm.trans hOuter'
          rcases ih hRest' with ⟨rfl, rfl⟩
          exact ⟨rfl, rfl⟩

/-- Along the way outward a lookup visits the first scopes and finds what the store says. -/
theorem Proper.exists_visits (hσ : σ.Proper) {s : ScopeId} {chain : List ScopeId}
    (h : σ.Chain s chain) (name : String) :
    ∃ visited, visited <+: chain ∧ σ.Visits name s visited (σ.get? s name) := by
  induction h with
  | @outermost s scope hScope hOuter =>
      refine ⟨[s], List.prefix_refl _, ?_⟩
      cases hFound : scope.find? name with
      | some v =>
          rw [get?_of_found hScope hFound]
          exact .found hScope hFound
      | none =>
          rw [get?_of_outermost hScope hFound hOuter]
          exact .missing hScope hFound hOuter
  | @outward s o scope chain hScope hOuter _ ih =>
      cases hFound : scope.find? name with
      | some v =>
          refine ⟨[s], List.cons_prefix_cons.2 ⟨rfl, List.nil_prefix⟩, ?_⟩
          rw [get?_of_found hScope hFound]
          exact .found hScope hFound
      | none =>
          rcases ih with ⟨visited, hPrefix, hVisits⟩
          refine ⟨s :: visited, List.cons_prefix_cons.2 ⟨rfl, hPrefix⟩, ?_⟩
          rw [get?_of_outward hScope hFound hOuter (hσ.nested hScope hOuter)]
          exact .outward hScope hFound hOuter hVisits

/-! ## Links that stay -/

/-- Every scope of `σ` is still there in `τ`, and enclosed by the same scope, if by any. -/
def Linked (σ τ : Store) : Prop :=
  ∀ (s : ScopeId) (scope : Scope), σ.scopes[s]? = some scope →
    ∃ scope', τ.scopes[s]? = some scope' ∧ scope'.enclosing = scope.enclosing

theorem Linked.refl (σ : Store) : σ.Linked σ :=
  fun _ scope hScope => ⟨scope, hScope, rfl⟩

theorem Linked.trans (h : σ.Linked τ) (h' : τ.Linked υ) : σ.Linked υ := by
  intro s scope hScope
  rcases h s scope hScope with ⟨scope', hScope', hSame⟩
  rcases h' s scope' hScope' with ⟨scope'', hScope'', hSame'⟩
  exact ⟨scope'', hScope'', hSame'.trans hSame⟩

theorem Framed.linked {t : ScopeId} {names : List String} (h : Framed t names σ τ) :
    σ.Linked τ := by
  intro s scope hScope
  have hs : s < σ.scopes.size := (Array.getElem?_eq_some_iff.1 hScope).1
  by_cases ht : s = t
  · subst ht
    rcases h.own scope hScope with ⟨scope', hScope', hRebound⟩
    exact ⟨scope', hScope', hRebound.enclosing⟩
  · exact ⟨scope, (h.same s hs ht).trans hScope, rfl⟩

theorem Extends.linked (h : σ.Extends τ) : σ.Linked τ :=
  (h.framed 0 []).linked

end Store

/-! ## Commands -/

namespace Session

/-- The scopes that a command names are scopes of the store, and a value that it brings along is a
value of the store. -/
def Command.Admissible (σ : Store) : Command → Prop
  | .openScope enclosing => ∀ o ∈ enclosing, o < σ.scopes.size
  | .define s _ v => s < σ.scopes.size ∧ σ.Holds v
  | .copy source _ target _ => source < σ.scopes.size ∧ target < σ.scopes.size
  | .get s _ => s < σ.scopes.size
  | .same left _ right _ => left < σ.scopes.size ∧ right < σ.scopes.size
  | .run _ s _ => s < σ.scopes.size

instance (σ : Store) (c : Command) : Decidable (c.Admissible σ) :=
  match c with
  | .openScope enclosing => inferInstanceAs (Decidable (∀ o ∈ enclosing, o < σ.scopes.size))
  | .define s _ v => inferInstanceAs (Decidable (s < σ.scopes.size ∧ σ.Holds v))
  | .copy source _ target _ =>
      inferInstanceAs (Decidable (source < σ.scopes.size ∧ target < σ.scopes.size))
  | .get s _ => inferInstanceAs (Decidable (s < σ.scopes.size))
  | .same left _ right _ =>
      inferInstanceAs (Decidable (left < σ.scopes.size ∧ right < σ.scopes.size))
  | .run _ s _ => inferInstanceAs (Decidable (s < σ.scopes.size))

/-- The value that a reply carries. -/
def Reply.value? : Reply → Option Value
  | .found v? => v?
  | .result (.ok v) => some v
  | _ => none

/-- What holds behind a command: the store is proper, all scopes are enclosed by what they were,
and the value that the reply carries is one of the store. -/
structure Keeps (σ τ : Store) (reply : Reply) : Prop where
  proper : τ.Proper
  linked : σ.Linked τ
  holds : ∀ v ∈ reply.value?, τ.Holds v

namespace Keeps

variable {σ τ : Store} {reply : Reply}

/-- The store stays as it was. -/
theorem same (hσ : σ.Proper) (hReply : ∀ v ∈ reply.value?, σ.Holds v) : Keeps σ σ reply :=
  ⟨hσ, .refl σ, hReply⟩

theorem define (hσ : σ.Proper) (s : ScopeId) (name : String) {v : Value} (hv : σ.Holds v) :
    Keeps σ (σ.define s name v) .defined where
  proper := (hσ.define s name hv).1
  linked := (Store.Framed.define (List.mem_singleton_self name) s σ v).linked
  holds := nofun

/-- The end of a run, to a value, by a `return` or in a failure. -/
theorem of_outcome {m : Run Value} {s : ScopeId} {names : List String}
    {r : Except EvalError Value} (hKeeps : Run.Keeps Store.Holds m σ) (hFramed : m.Framed s names)
    (h : m.outcome σ = some (r, τ)) : Keeps σ τ (.result r) := by
  rcases hKeeps.of_outcome h with ⟨hτ, -, hHolds⟩
  refine ⟨hτ, (hFramed.of_outcome h).linked, fun v hv => ?_⟩
  cases r with
  | ok w => exact hHolds v (congrArg Except.ok (Option.some.inj hv))
  | error e => cases hv

theorem of_eval {fuel : Nat} {p : Program} {s : ScopeId} {r : Except EvalError Value}
    (hσ : σ.Proper) (hs : s < σ.scopes.size) (h : eval fuel p s σ = some (r, τ)) :
    Keeps σ τ (.result r) :=
  of_outcome ((keepsAt fuel).stmts σ s .null p.statements hσ hs trivial)
    ((framedAt fuel).stmts s .null p.statements) h

theorem of_evaluate {fuel : Nat} {e : Expr} {s : ScopeId} {r : Except EvalError Value}
    (hσ : σ.Proper) (hs : s < σ.scopes.size)
    (h : (Interpreter.mk s).evaluate fuel e σ = some (r, τ)) : Keeps σ τ (.result r) :=
  of_outcome ((keepsAt fuel).expr σ s e hσ hs) ((framedAt fuel).expr s e) h

/-- A program, in whichever of the ways it is run. -/
theorem of_runProgram {fuel : Nat} {mode : Mode} {s : ScopeId} {p : Program} (hσ : σ.Proper)
    (hs : s < σ.scopes.size) (h : runProgram fuel mode s p σ = some (reply, τ)) :
    Keeps σ τ reply := by
  cases mode with
  | eval =>
      rcases Option.map_eq_some_iff.1 h with ⟨⟨r, υ⟩, hEval, hEnd⟩
      cases hEnd
      exact of_eval hσ hs hEval
  | interpret =>
      simp only [runProgram, Machine.interpret_eq, Option.map_map] at h
      rcases Option.map_eq_some_iff.1 h with ⟨⟨r, υ⟩, hEval, hEnd⟩
      cases hEnd
      exact of_eval hσ hs hEval
  | evaluate =>
      simp only [runProgram, Machine.evaluate_eq, Option.map_map] at h
      split at h
      · rcases Option.map_eq_some_iff.1 h with ⟨⟨r, υ⟩, hEvaluate, hEnd⟩
        cases hEnd
        exact of_evaluate hσ hs hEvaluate
      · cases h
        exact same hσ nofun

/-- One command. -/
theorem of_exec {fuel : Nat} {c : Command} (hσ : σ.Proper) (hc : c.Admissible σ)
    (h : exec fuel c σ = some (reply, τ)) : Keeps σ τ reply := by
  cases c with
  | openScope enclosing =>
      cases h
      exact ⟨(hσ.openScope hc (by simp)).1, (Store.Extends.openScope σ enclosing []).linked, nofun⟩
  | define s name v =>
      cases h
      exact define hσ s name hc.2
  | copy source sourceName target targetName =>
      cases hGet : σ.get? source sourceName with
      | some v =>
          simp only [exec, hGet] at h
          cases h
          exact define hσ target targetName (hσ.holds_of_get? hGet)
      | none =>
          simp only [exec, hGet] at h
          cases h
          exact same hσ nofun
  | get s name =>
      cases h
      exact same hσ fun v hv => hσ.holds_of_get? hv
  | same left leftName right rightName =>
      cases h
      exact same hσ nofun
  | run mode s p => exact of_runProgram hσ hc h

end Keeps

/-! ## Sessions -/

/-- One step of a session: a command, or a function that its host makes itself, with any
parameters and body, in a scope of the store. -/
inductive Step (σ τ : Store) : Prop
  | command {c : Command} {reply : Reply} (fuel : Nat) (hc : c.Admissible σ)
      (h : exec fuel c σ = some (reply, τ)) : Step σ τ
  | closure {s : ScopeId} {parameters : List String} {body : List Stmt} (hs : s < σ.scopes.size)
      (h : (σ.close s parameters body).2 = τ) : Step σ τ

/-- A session leads from one store to another one. -/
def Leads : Store → Store → Prop :=
  Relation.ReflTransGen Step

/-- Every command is admissible at its turn. -/
def AdmissibleAll (fuel : Nat) : List Command → Store → Prop
  | [], _ => True
  | c :: cs, σ =>
      c.Admissible σ ∧ ∀ end_ ∈ exec fuel c σ, AdmissibleAll fuel cs end_.2

instance AdmissibleAll.decidable (fuel : Nat) :
    ∀ (cs : List Command) (σ : Store), Decidable (AdmissibleAll fuel cs σ)
  | [], _ => .isTrue trivial
  | c :: cs, σ =>
      have : ∀ τ, Decidable (AdmissibleAll fuel cs τ) := decidable fuel cs
      inferInstanceAs
        (Decidable (c.Admissible σ ∧ ∀ end_ ∈ exec fuel c σ, AdmissibleAll fuel cs end_.2))

/-- Commands that are carried out in order are steps of a session. -/
theorem leads_of_execAll {fuel : Nat} {cs : List Command} {σ τ : Store} {replies : List Reply}
    (hcs : AdmissibleAll fuel cs σ) (h : execAll fuel cs σ = some (replies, τ)) : Leads σ τ := by
  induction cs generalizing σ replies with
  | nil =>
      cases h
      exact .refl
  | cons c cs ih =>
      rw [execAll] at h
      cases hFirst : exec fuel c σ with
      | none => simp [hFirst] at h
      | some end_ =>
          obtain ⟨reply, υ⟩ := end_
          rw [hFirst] at h
          rcases Option.map_eq_some_iff.1 h with ⟨⟨rest, τ'⟩, hRest, hEnd⟩
          cases hEnd
          exact .head (.command fuel hcs.1 hFirst) (ih (hcs.2 (reply, υ) hFirst) hRest)

theorem Step.keeps {σ τ : Store} (h : Step σ τ) (hσ : σ.Proper) : τ.Proper ∧ σ.Linked τ := by
  cases h with
  | command fuel hc h =>
      have hKeeps := Keeps.of_exec hσ hc h
      exact ⟨hKeeps.proper, hKeeps.linked⟩
  | @closure s parameters body hs h =>
      subst h
      exact ⟨(hσ.close s parameters body).1, (Store.Extends.close σ s parameters body).linked⟩

theorem Leads.keeps {σ τ : Store} (h : Leads σ τ) (hσ : σ.Proper) : τ.Proper ∧ σ.Linked τ := by
  induction h with
  | refl => exact ⟨hσ, .refl σ⟩
  | tail _ hStep ih =>
      rcases hStep.keeps ih.1 with ⟨hProper, hLinked⟩
      exact ⟨hProper, ih.2.trans hLinked⟩

/-- The store of a session, at any time. -/
structure Sound (σ : Store) : Prop where
  /-- The scope around another one was opened before it. -/
  nested : ∀ (s : ScopeId) (scope : Scope) (o : ScopeId), σ.scopes[s]? = some scope →
    scope.enclosing = some o → o < s
  /-- Whatever is done, a scope stays, and is enclosed by the scope that it was opened in. -/
  linked : ∀ τ, Leads σ τ → ∀ (s : ScopeId) (scope : Scope), σ.scopes[s]? = some scope →
    ∃ scope', τ.scopes[s]? = some scope' ∧ scope'.enclosing = scope.enclosing
  /-- A function that is bound captures a scope of the store. -/
  bound : ∀ (s : ScopeId) (scope : Scope) (name : String) (c : Closure),
    σ.scopes[s]? = some scope → scope.find? name = some (.function c) → c.scope < σ.scopes.size
  /-- So does a function that a command comes to. -/
  replied : ∀ fuel c reply τ, Command.Admissible σ c → exec fuel c σ = some (reply, τ) →
    ∀ f, reply.value? = some (.function f) → f.scope < τ.scopes.size
  /-- There is an end to the way outward, on which no scope is met twice, and a lookup visits
  scopes from its beginning only. -/
  lookup : ∀ s < σ.scopes.size, ∃ chain, σ.Chain s chain ∧ chain.Nodup ∧
    ∀ name, ∃ visited, visited <+: chain ∧
      ∀ path v?, σ.Visits name s path v? ↔ path = visited ∧ v? = σ.get? s name

/-- Whatever a session did, its store is sound. -/
theorem sound_of_leads {σ : Store} (h : Leads .empty σ) : Sound σ := by
  have hσ : σ.Proper := (h.keeps Store.proper_empty).1
  refine ⟨?_, ?_, ?_, ?_, ?_⟩
  · intro s scope o hScope hOuter
    exact hσ.nested hScope hOuter
  · intro τ hLeads s scope hScope
    exact (hLeads.keeps hσ).2 s scope hScope
  · intro s scope name c hScope hFound
    exact (hσ.bindings hScope hFound).2
  · intro fuel c reply τ hc hExec f hf
    exact ((Keeps.of_exec hσ hc hExec).holds _ hf).2
  · intro s hs
    rcases hσ.exists_chain hs with ⟨chain, hChain⟩
    refine ⟨chain, hChain, hσ.nodup_chain hChain, fun name => ?_⟩
    rcases hσ.exists_visits hChain name with ⟨visited, hPrefix, hVisits⟩
    refine ⟨visited, hPrefix, fun path v? => ⟨hVisits.unique, ?_⟩⟩
    rintro ⟨rfl, rfl⟩
    exact hVisits

/-- A function made in the scope `s` that comes to what `name` means there. -/
def naming (id : Nat) (name : String) (s : ScopeId) : Value :=
  .function ⟨id, [], [.expr (.ident name)], s⟩

/-- Two functions that come to themselves, one of them bound in two scopes, and the scope of a
call. -/
def cyclicStore : Store :=
  ⟨#[⟨none, [("f", naming 0 "f" 0), ("g", naming 1 "g" 1)]⟩, ⟨some 0, [("g", naming 1 "g" 1)]⟩,
    ⟨some 1, []⟩], 2⟩

/-- A session with a program that fails behind a call. -/
def cyclicSession : List Command :=
  [.openScope none,
    .run .eval 0 ⟨[.bind "f" (.fn [] [.expr (.ident "f")])]⟩,
    .openScope (some 0),
    .run .interpret 1 ⟨[.bind "g" (.fn [] [.expr (.ident "g")]), .expr (.call (.ident "g") []),
      .expr (.ident "h")]⟩,
    .copy 1 "g" 0 "g"]

theorem sound_of_leads_cyclic : Leads .empty cyclicStore ∧ Sound cyclicStore := by
  have hExec : execAll 9 cyclicSession .empty =
      some ([.opened 0, .result (.ok (naming 0 "f" 0)), .opened 1,
        .result (.error (.identifierNotFound "h")), .defined], cyclicStore) := by
    with_unfolding_all rfl
  have hAdmissible : AdmissibleAll 9 cyclicSession .empty := by decide +kernel
  have hLeads : Leads .empty cyclicStore := leads_of_execAll hAdmissible hExec
  exact ⟨hLeads, sound_of_leads hLeads⟩

end Session
end MonkeyLang
