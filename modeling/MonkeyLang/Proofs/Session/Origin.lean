import MonkeyLang.Proofs.Eval.Makings
import MonkeyLang.Proofs.Session.Sound

/-!
# Origin — which evaluation a function comes from

Two function values are the same only if they are the very same closure.  Here this is told from
what a session did: its history keeps, beside the store and the values that were replied, a log of
all function literals that were evaluated, by any of its programs and also by those that failed.
However a function was passed on, by bindings, arguments, results, early returns or copies, it comes
from exactly one entry of the log, and two functions are the same exactly if they come from the
same one.
-/

namespace MonkeyLang

/-- The value is bound in some scope. -/
def Store.Bound (σ : Store) (v : Value) : Prop :=
  ∃ (s : ScopeId) (scope : Scope) (name : String),
    σ.scopes[s]? = some scope ∧ scope.find? name = some v

namespace Session

/-! ## Histories -/

/-- The function literals that a program evaluates, in order, whether or not it ends. -/
def programMakings (fuel : Nat) (mode : Mode) (s : ScopeId) (p : Program) (σ : Store) :
    List Making :=
  match mode with
  | .eval | .interpret => (Logged.evalStmts fuel s .null p.statements σ).2
  | .evaluate =>
      match p.statements with
      | .expr e :: _ => (Logged.evalExpr fuel s e σ).2
      | _ => []

/-- No other command evaluates any. -/
def Command.makings (fuel : Nat) (σ : Store) : Command → List Making
  | .run mode s p => programMakings fuel mode s p σ
  | .openScope .. | .define .. | .copy .. | .get .. | .same .. => []

/-- What a session has come to: its store, the function literals that were evaluated, the first one
first, and the values that were replied. -/
structure History where
  store : Store
  made : List Making
  seen : List Value

namespace History

def Knows (H : History) (c : Closure) : Prop :=
  .function c ∈ H.seen ∨ H.store.Bound (.function c)

/-- The closure comes from the entry at place `i` of the log. -/
def MadeAt (H : History) (i : Nat) (c : Closure) : Prop :=
  ∃ m, H.made[i]? = some m ∧ m.closure = c

/-- A function that the command brings along is known. -/
def Permits (H : History) : Command → Prop
  | .define _ _ (.function c) => H.Knows c
  | _ => True

/-- What a command makes of the history, if it ends. -/
def after (fuel : Nat) (c : Command) (H : History) : Option History :=
  (exec fuel c H.store).map fun (reply, τ) =>
    ⟨τ, H.made ++ c.makings fuel H.store, reply.value?.toList ++ H.seen⟩

/-- The histories of sessions. -/
inductive Reached : History → Prop
  | start : Reached ⟨.empty, [], []⟩
  | command {H H' : History} {c : Command} (fuel : Nat) (h : Reached H) (hc : H.Permits c)
      (hAfter : H.after fuel c = some H') : Reached H'

end History

/-! ## Logs of commands -/

section

variable {made : List Making} {σ τ : Store} {fuel : Nat}

theorem accounts_of_outcome {m : Logged Value} {r : Except EvalError Value}
    (hm : Logged.Keeps Value.MadeIn m made σ) (h : m.erased.outcome σ = some (r, τ)) :
    Accounts (made ++ (m σ).2) τ ∧ ∀ v, r = .ok v → v.MadeIn (made ++ (m σ).2) := by
  rcases Option.map_eq_some_iff.1 h with ⟨⟨c, υ⟩, hRun, hEnd⟩
  cases hEnd
  obtain ⟨hAccounts, hc⟩ := hm.2 c τ hRun
  refine ⟨hAccounts, fun v hv => ?_⟩
  cases c with
  | value w =>
      cases hv
      exact hc
  | returned w =>
      cases hv
      exact hc
  | failed e => cases hv

theorem accounts_of_eval {s : ScopeId} {p : Program} {r : Except EvalError Value}
    (h : Accounts made σ) (hEval : MonkeyLang.eval fuel p s σ = some (r, τ)) :
    Accounts (made ++ (Logged.evalStmts fuel s .null p.statements σ).2) τ ∧
      ∀ v, r = .ok v → v.MadeIn (made ++ (Logged.evalStmts fuel s .null p.statements σ).2) := by
  refine accounts_of_outcome ((Logged.keepsAt fuel).stmts made σ s .null p.statements h trivial) ?_
  rw [(Logged.erasesAt fuel).stmts]
  exact hEval

theorem accounts_of_evaluate {s : ScopeId} {e : Expr} {r : Except EvalError Value}
    (h : Accounts made σ) (hEval : (Interpreter.mk s).evaluate fuel e σ = some (r, τ)) :
    Accounts (made ++ (Logged.evalExpr fuel s e σ).2) τ ∧
      ∀ v, r = .ok v → v.MadeIn (made ++ (Logged.evalExpr fuel s e σ).2) := by
  refine accounts_of_outcome ((Logged.keepsAt fuel).expr made σ s e h) ?_
  rw [(Logged.erasesAt fuel).expr]
  exact hEval

/-- The log of a command goes on faithfully, also if the command does not end. -/
theorem faithful_makings (h : Accounts made σ) (c : Command) :
    Faithful (made ++ c.makings fuel σ) := by
  have hNone : Faithful (made ++ []) := by
    rw [List.append_nil]
    exact h.past
  cases c with
  | run mode s p =>
      have hProgram := (Logged.keepsAt fuel).stmts made σ s .null p.statements h trivial
      cases mode with
      | eval => exact hProgram.1
      | interpret => exact hProgram.1
      | evaluate =>
          simp only [Command.makings, programMakings]
          split
          · exact ((Logged.keepsAt fuel).expr made σ s _ h).1
          · exact hNone
  | _ => exact hNone

/-- Behind a program that ends, the log accounts for the store and for the result. -/
theorem accounts_of_runProgram {mode : Mode} {s : ScopeId} {p : Program} {reply : Reply}
    (h : Accounts made σ) (hRun : runProgram fuel mode s p σ = some (reply, τ)) :
    Accounts (made ++ programMakings fuel mode s p σ) τ ∧
      ∀ v ∈ reply.value?, v.MadeIn (made ++ programMakings fuel mode s p σ) := by
  have hResult : ∀ {log : List Making} {r : Except EvalError Value},
      (∀ v, r = .ok v → v.MadeIn log) → ∀ v ∈ (Reply.result r).value?, v.MadeIn log := by
    intro log r hr v hv
    cases r with
    | ok w => exact hr v (congrArg Except.ok (Option.some.inj hv))
    | error e => cases hv
  cases mode with
  | eval =>
      rcases Option.map_eq_some_iff.1 hRun with ⟨⟨r, υ⟩, hEval, hEnd⟩
      cases hEnd
      exact ⟨(accounts_of_eval h hEval).1, hResult (accounts_of_eval h hEval).2⟩
  | interpret =>
      simp only [runProgram, Machine.interpret_eq, Option.map_map] at hRun
      rcases Option.map_eq_some_iff.1 hRun with ⟨⟨r, υ⟩, hEval, hEnd⟩
      cases hEnd
      exact ⟨(accounts_of_eval h hEval).1, hResult (accounts_of_eval h hEval).2⟩
  | evaluate =>
      simp only [runProgram, Machine.evaluate_eq, Option.map_map] at hRun
      split at hRun
      · next e rest hStatements =>
          rcases Option.map_eq_some_iff.1 hRun with ⟨⟨r, υ⟩, hEval, hEnd⟩
          cases hEnd
          simp only [programMakings, hStatements]
          exact ⟨(accounts_of_evaluate h hEval).1, hResult (accounts_of_evaluate h hEval).2⟩
      · next hOther =>
          cases hRun
          have hNone : programMakings fuel .evaluate s p σ = [] := by simp only [programMakings]
          rw [hNone, List.append_nil]
          refine ⟨h, fun v hv => ?_⟩
          cases hv

/-- So it does behind every command that ends, if a function that is defined comes from the log. -/
theorem accounts_of_exec {c : Command} {reply : Reply} (h : Accounts made σ)
    (hc : ∀ s name v, c = .define s name v → v.MadeIn made)
    (hExec : exec fuel c σ = some (reply, τ)) :
    Accounts (made ++ c.makings fuel σ) τ ∧
      ∀ v ∈ reply.value?, v.MadeIn (made ++ c.makings fuel σ) := by
  have hSilent : ∀ v ∈ (none : Option Value), v.MadeIn made := by
    intro v hv
    cases hv
  cases c with
  | openScope enclosing =>
      cases hExec
      rw [Command.makings, List.append_nil]
      have hBindings : ∀ name v, ([] : List (String × Value)).lookup name = some v →
          v.MadeIn made := by
        intro name v hv
        cases hv
      exact ⟨h.openScope enclosing hBindings, hSilent⟩
  | define s name v =>
      cases hExec
      rw [Command.makings, List.append_nil]
      exact ⟨h.define s name (hc s name v rfl), hSilent⟩
  | copy source sourceName target targetName =>
      rw [Command.makings, List.append_nil]
      cases hGet : σ.get? source sourceName with
      | some v =>
          simp only [exec, hGet] at hExec
          cases hExec
          exact ⟨h.define target targetName (h.bound.of_get? trivial hGet), hSilent⟩
      | none =>
          simp only [exec, hGet] at hExec
          cases hExec
          exact ⟨h, hSilent⟩
  | get s name =>
      cases hExec
      rw [Command.makings, List.append_nil]
      exact ⟨h, fun v hv => h.bound.of_get? trivial hv⟩
  | same left leftName right rightName =>
      cases hExec
      rw [Command.makings, List.append_nil]
      exact ⟨h, hSilent⟩
  | run mode s p => exact accounts_of_runProgram h hExec

end

/-! ## Histories account for themselves -/

namespace History

variable {H : History} {c d : Closure}

/-- The log accounts for the store, and for every value that was replied. -/
structure Accounted (H : History) : Prop where
  accounts : Accounts H.made H.store
  seen : ∀ v ∈ H.seen, v.MadeIn H.made

theorem Accounted.made (h : H.Accounted) (hc : H.Knows c) : Made H.made c := by
  rcases hc with hSeen | ⟨s, scope, name, hScope, hFound⟩
  · exact (h.seen _ hSeen).1
  · exact (h.accounts.bound.bindings trivial hScope hFound).1

theorem Reached.accounted (h : H.Reached) : H.Accounted := by
  induction h with
  | start => exact ⟨.empty, nofun⟩
  | @command H H' c fuel _ hc hAfter ih =>
      rcases Option.map_eq_some_iff.1 hAfter with ⟨⟨reply, τ⟩, hExec, hEnd⟩
      cases hEnd
      have hDefine : ∀ s name v, c = .define s name v → v.MadeIn H.made := by
        rintro s name v rfl
        cases v with
        | function c => exact ⟨ih.made hc, trivial⟩
        | _ => trivial
      obtain ⟨hAccounts, hReply⟩ := accounts_of_exec ih.accounts hDefine hExec
      refine ⟨hAccounts, fun v hv => ?_⟩
      rcases List.mem_append.1 hv with hNew | hOld
      · exact hReply v (Option.mem_toList.1 hNew)
      · exact (ih.seen v hOld).mono (List.subset_append_left _ _)

/-! ## Identity -/

/-- The log and the numbers of closures tell the same. -/
theorem Accounted.madeAt_iff (h : H.Accounted) (hc : H.Knows c) (i : Nat) :
    H.MadeAt i c ↔ c.id = i := by
  constructor
  · rintro ⟨m, hm, rfl⟩
    exact h.accounts.past.id_eq hm
  · rintro rfl
    rcases h.made hc with ⟨m, hm, rfl⟩
    rcases List.getElem?_of_mem hm with ⟨i, hi⟩
    rw [h.accounts.past.id_eq hi]
    exact ⟨m, hi, rfl⟩

/-- What identity means for the functions that a session has come to. -/
structure Identified (H : History) : Prop where
  /-- The log has an entry for each closure that the store counts. -/
  count : H.store.closures = H.made.length
  /-- Every function comes from one entry of the log. -/
  origin : ∀ c, H.Knows c → ∃ i, H.MadeAt i c ∧ ∀ j, H.MadeAt j c → j = i
  /-- Two functions are the same exactly if they come from the same one. -/
  same_iff : ∀ c d, H.Knows c → H.Knows d →
    ((Value.function c).same (.function d) = true ↔ ∃ i, H.MadeAt i c ∧ H.MadeAt i d)
  /-- Then they are equal in everything. -/
  alike : ∀ c d, H.Knows c → H.Knows d → (Value.function c).same (.function d) = true →
    c.parameters = d.parameters ∧ c.body = d.body ∧ c.scope = d.scope
  /-- When a literal was evaluated, no function was bound that its value is the same as. -/
  past : ∀ (i : Nat) (m : Making), H.made[i]? = some m → ∀ d, m.store.Bound (.function d) →
    (Value.function m.closure).same (.function d) = false
  /-- When any other literal will be evaluated, in the middle of whatever is done next, its value
  will be the same as no function that is bound then, was known before, or was made meanwhile. -/
  fresh : ∀ (fuel : Nat) (command : Command) (before after : List Making) (m : Making),
    command.makings fuel H.store = before ++ m :: after → ∀ d,
      H.Knows d ∨ m.store.Bound (.function d) ∨ Made before d →
        (Value.function m.closure).same (.function d) = false

theorem same_eq_false (h : c.id ≠ d.id) : (Value.function c).same (.function d) = false :=
  beq_eq_false_iff_ne.2 h

theorem same_eq_true_iff : (Value.function c).same (.function d) = true ↔ c.id = d.id :=
  beq_iff_eq

/-- A function that comes from an earlier entry of the log has a smaller number. -/
theorem id_lt_of_made {log : List Making} (h : Faithful log) {n : Nat} (hd : Made (log.take n) d) :
    d.id < n := by
  rcases hd with ⟨m, hm, rfl⟩
  rcases List.getElem?_of_mem hm with ⟨i, hi⟩
  rw [List.getElem?_take] at hi
  split at hi
  · next hLt => rwa [h.id_eq hi]
  · cases hi

/-- The value of an entry is none of the functions bound in the store of the entry, or made
before. -/
theorem same_eq_false_of_entry {log : List Making} (h : Faithful log) {i : Nat} {m : Making}
    (hm : log[i]? = some m) (hd : m.store.Bound (.function d) ∨ Made (log.take i) d) :
    (Value.function m.closure).same (.function d) = false := by
  have hMade : Made (log.take i) d := by
    rcases hd with ⟨s, scope, name, hScope, hFound⟩ | hMade
    · exact ((h i m hm).bound.bindings trivial hScope hFound).1
    · exact hMade
  refine same_eq_false ?_
  rw [h.id_eq hm]
  exact Nat.ne_of_gt (id_lt_of_made h hMade)

theorem Accounted.identified (h : H.Accounted) : H.Identified where
  count := h.accounts.count
  origin c hc := by
    simp only [h.madeAt_iff hc]
    exact ⟨c.id, rfl, fun j hj => hj.symm⟩
  same_iff c d hc hd := by
    simp only [h.madeAt_iff hc, h.madeAt_iff hd, same_eq_true_iff]
    constructor
    · intro hSame
      exact ⟨d.id, hSame, rfl⟩
    · rintro ⟨i, hi, hi'⟩
      exact hi.trans hi'.symm
  alike c d hc hd hSame := by
    rw [same_eq_true_iff] at hSame
    obtain ⟨m, hm, rfl⟩ := (h.madeAt_iff hc d.id).2 hSame
    obtain ⟨m', hm', rfl⟩ := (h.madeAt_iff hd _).2 rfl
    cases hm.symm.trans hm'
    exact ⟨rfl, rfl, rfl⟩
  past i m hm d hd := same_eq_false_of_entry h.accounts.past hm (.inl hd)
  fresh fuel command before after m hLog d hd := by
    have hFaithful : Faithful (H.made ++ command.makings fuel H.store) :=
      faithful_makings h.accounts command
    rw [hLog, ← List.append_assoc] at hFaithful
    have hEntry : ((H.made ++ before) ++ m :: after)[(H.made ++ before).length]? = some m := by
      simp
    refine same_eq_false_of_entry hFaithful hEntry ?_
    rw [List.take_left]
    rcases hd with hKnown | hBound | hBefore
    · exact .inr ((h.made hKnown).mono (List.subset_append_left _ _))
    · exact .inl hBound
    · exact .inr (hBefore.mono (List.subset_append_right _ _))

/-- In every history of a session functions are identified by the evaluations that they come from,
and sameness of values is an equivalence. -/
theorem identified_of_reached {H : History} (h : H.Reached) :
    H.Identified ∧ Equivalence fun v w : Value => v.same w = true :=
  ⟨h.accounted.identified, ⟨Value.same_refl, Value.same_symm, Value.same_trans⟩⟩

/-- A function literal, and the closure of number `k` that it comes to in the scope 0. -/
def identityLiteral : Expr :=
  .fn ["x"] [.expr (.ident "x")]

def identityClosure (k : Nat) : Closure :=
  ⟨k, ["x"], [.expr (.ident "x")], 0⟩

/-- The literal is evaluated twice in one scope, and the first of the two functions is copied. -/
theorem identified_of_reached_twice :
    ∃ H : History, H.Reached ∧ H.Identified ∧
      H.store.get? 1 "g" = some (.function (identityClosure 0)) ∧
      H.Knows (identityClosure 0) ∧ H.Knows (identityClosure 1) ∧
      ¬ ∃ i, H.MadeAt i (identityClosure 0) ∧ H.MadeAt i (identityClosure 1) := by
  have hOpened : Reached ⟨⟨#[⟨none, []⟩], 0⟩, _, []⟩ :=
    .command 0 (c := .openScope none) .start trivial rfl
  have hBound : Reached ⟨⟨#[⟨none, [("f", .function (identityClosure 0))]⟩], 1⟩, _,
      [.function (identityClosure 0)]⟩ :=
    .command 4 (c := .run .eval 0 ⟨[.bind "f" identityLiteral]⟩) hOpened trivial
      (by with_unfolding_all rfl)
  have hAgain : Reached ⟨⟨#[⟨none, [("f", .function (identityClosure 0))]⟩], 2⟩, _,
      [.function (identityClosure 1), .function (identityClosure 0)]⟩ :=
    .command 4 (c := .run .evaluate 0 ⟨[.expr identityLiteral]⟩) hBound trivial
      (by with_unfolding_all rfl)
  have hInner : Reached ⟨⟨#[⟨none, [("f", .function (identityClosure 0))]⟩, ⟨some 0, []⟩], 2⟩, _,
      [.function (identityClosure 1), .function (identityClosure 0)]⟩ :=
    .command 0 (c := .openScope (some 0)) hAgain trivial rfl
  have hCopied : Reached ⟨⟨#[⟨none, [("f", .function (identityClosure 0))]⟩,
      ⟨some 0, [("g", .function (identityClosure 0))]⟩], 2⟩, _,
      [.function (identityClosure 1), .function (identityClosure 0)]⟩ :=
    .command 0 (c := .copy 0 "f" 1 "g") hInner trivial (by with_unfolding_all rfl)
  have hIdentified := (identified_of_reached hCopied).1
  have hBoth := hIdentified.same_iff (identityClosure 0) (identityClosure 1)
    (.inl (List.mem_cons_of_mem _ List.mem_cons_self)) (.inl List.mem_cons_self)
  refine ⟨_, hCopied, hIdentified, ?_, ?_, .inl List.mem_cons_self, fun hOne => ?_⟩
  · with_unfolding_all rfl
  · exact .inl (List.mem_cons_of_mem _ List.mem_cons_self)
  · exact absurd (hBoth.2 hOne) (by decide)

end History
end Session
end MonkeyLang
