import MonkeyLang.Proofs.Grammar.Derivation

/-!
# Additive — what holds of every move of the reader

Whatever is read, the reader makes moves of a few kinds: it takes a token that it can use, it
misses a token that it expects and takes nothing, or it tries to start an operand with a token that
cannot start one.  A statement about the tokens in front of a reading, the defects it notices and
the number of tokens it uses is additive if it holds of the single moves, and of two readings one
behind the other if it holds of both.  An additive statement holds of everything that is read
(`Additive.reads`), so the recursion of the reader is gone through once for all of them.

That no reading uses more tokens than there are is such a statement (`additive_used_le`), and
reading a program uses every token (`used_program`).
-/

namespace MonkeyLang

/-- The kinds of tokens that nothing is written with. -/
def Kind.unusable : List Kind :=
  [.illegal, .backslash, .ltEq, .gtEq]

namespace Grammar

open Reading

/-! ## Single moves -/

/-- A token that can be used somewhere without being a defect itself. -/
def Usable (t : Token) : Prop :=
  t.kind ∉ Kind.unusable ∧ (t.kind = .int → (intOf? t.literal).isSome)

theorem usable_of_kind {t : Token} {k : Kind} (ht : t.kind = k) (hk : k ∉ .int :: Kind.unusable) :
    Usable t := by
  subst ht
  rw [List.mem_cons, not_or] at hk
  exact ⟨hk.2, fun hInt => absurd hInt hk.1⟩

/-- A statement about tokens, the defects noticed when they are read, and the number of them that
is used, which may be put together from single moves. -/
structure Additive (P : List Token → List Diagnostic → Nat → Prop) : Prop where
  done : ∀ ts, P ts [] 0
  append : ∀ {ts es es' n n'}, P ts es n → P (ts.drop n) es' n' → P ts (es ++ es') (n + n')
  take : ∀ {t ts}, Usable t → P (t :: ts) [] 1
  unexpected : ∀ {k ts}, lookahead ts ≠ k → P ts [⟨.unexpected k (lookahead ts), ts.length⟩] 0
  noOperand : ∀ {t ts}, startsOperand t.kind = false →
    P (t :: ts) [⟨.noOperand t.kind, ts.length + 1⟩] 1
  noOperand_end : P [] [⟨.noOperand .eof, 0⟩] 0
  invalidInteger : ∀ {t ts}, t.kind = .int → intOf? t.literal = none →
    P (t :: ts) [⟨.invalidInteger t.literal, ts.length + 1⟩] 1

namespace Additive

variable {α β : Type} {P : List Token → List Diagnostic → Nat → Prop} {ts : List Token}

/-! ## Combined readings -/

/-- The statement holds of a reading of `ts`. -/
def Holds (P : List Token → List Diagnostic → Nat → Prop) (r : Reading α) (ts : List Token) :
    Prop :=
  P ts r.errors r.used

/-- The statement holds of a reading behind the token `t`, if `t` is counted with it. -/
def HoldsBehind (P : List Token → List Diagnostic → Nat → Prop) (t : Token) (r : Reading α)
    (ts : List Token) : Prop :=
  P (t :: ts) r.errors (r.used + 1)

theorem HoldsBehind.shift {t : Token} {r : Reading α} (h : HoldsBehind P t r ts) :
    Holds P r.shift (t :: ts) :=
  h

theorem bind (hP : Additive P) {r : Reading α} {f : α → Nat → Reading β} (hr : Holds P r ts)
    (hf : Holds P (f r.value r.used) (ts.drop r.used)) : Holds P (r.bind f) ts :=
  hP.append hr hf

theorem map {r : Reading α} (f : α → β) (hr : Holds P r ts) : Holds P (r.map f) ts :=
  hr

theorem andThen (hP : Additive P) {r : Attempt α} {f : α → Nat → Attempt β} (hr : Holds P r ts)
    (hf : ∀ a, Holds P (f a r.used) (ts.drop r.used)) : Holds P (r.andThen f) ts := by
  refine hP.bind hr ?_
  cases r.value with
  | none => exact hP.done _
  | some a => exact hf a

/-- A reading with one more token in front of it that can be used. -/
theorem behind (hP : Additive P) {t : Token} {r : Reading α} (ht : Usable t) (hr : Holds P r ts) :
    HoldsBehind P t r ts := by
  have hBoth := hP.append (hP.take ht) hr
  rwa [List.nil_append, Nat.add_comm] at hBoth

/-- What follows a reading behind a token. -/
theorem behind_bind (hP : Additive P) {t : Token} {r : Reading α} {f : α → Nat → Reading β}
    (hr : HoldsBehind P t r ts) (hf : Holds P (f r.value r.used) (ts.drop r.used)) :
    HoldsBehind P t (r.bind f) ts := by
  have hBoth := hP.append hr hf
  rwa [Nat.add_right_comm] at hBoth

theorem behind_andThen (hP : Additive P) {t : Token} {r : Attempt α} {f : α → Nat → Attempt β}
    (hr : HoldsBehind P t r ts) (hf : ∀ a, Holds P (f a r.used) (ts.drop r.used)) :
    HoldsBehind P t (r.andThen f) ts := by
  refine hP.behind_bind hr ?_
  cases r.value with
  | none => exact hP.done _
  | some a => exact hf a

theorem shift (hP : Additive P) {t : Token} {r : Reading α} (ht : Usable t) (hr : Holds P r ts) :
    Holds P r.shift (t :: ts) :=
  (hP.behind ht hr).shift

/-- Behind a token that is expected, whether or not it is found. -/
theorem expect_andThen (hP : Additive P) {k : Kind} {f : Token → Nat → Attempt β}
    (hk : k ∉ .int :: Kind.unusable) (hEof : k ≠ .eof)
    (hf : ∀ t, Holds P (f t 1) (ts.drop 1)) : Holds P ((expect k ts).andThen f) ts := by
  cases ts with
  | nil =>
      have hMissed : lookahead [] ≠ k := fun h => hEof h.symm
      exact hP.unexpected hMissed
  | cons t ts =>
      by_cases ht : t.kind = k
      · rw [expect_of_eq ht]
        exact hP.andThen (hP.take (usable_of_kind ht hk)) hf
      · rw [expect_of_ne ht]
        exact hP.unexpected ht

/-- A token that stands in front, as the lookahead says. -/
theorem take_of_lookahead (hP : Additive P) {k : Kind} (h : lookahead ts = k)
    (hk : k ∉ .int :: Kind.unusable) (hEof : k ≠ .eof) : P ts [] 1 := by
  cases ts with
  | nil => exact absurd h.symm hEof
  | cons t ts => exact hP.take (usable_of_kind h hk)

theorem ended (hP : Additive P) (s : Stmt) (ts : List Token) : Holds P (ended s ts) ts := by
  unfold Holds Grammar.ended
  by_cases h : lookahead ts = .semicolon
  · simp only [h, if_true]
    exact hP.take_of_lookahead h (by decide) (by decide)
  · simp only [h, if_false]
    exact hP.done ts

/-! ## Parameters -/

theorem moreParameters (hP : Additive P) (ts : List Token) : Holds P (moreParameters ts) ts := by
  induction ts using moreParameters.induct with
  | case1 =>
      rw [Grammar.moreParameters]
      exact hP.expect_andThen (by decide) (by decide) fun _ => hP.done _
  | case2 t rest ht ih =>
      rw [Grammar.moreParameters, if_pos ht]
      refine hP.shift (usable_of_kind ht (by decide)) ?_
      refine hP.expect_andThen (by decide) (by decide) fun name => ?_
      exact hP.andThen ih fun names => hP.done _
  | case3 t rest ht =>
      rw [Grammar.moreParameters, if_neg ht]
      exact hP.expect_andThen (by decide) (by decide) fun _ => hP.done _

theorem parameters (hP : Additive P) (ts : List Token) : Holds P (parameters ts) ts := by
  unfold Grammar.parameters
  split
  · next h => exact hP.take_of_lookahead h (by decide) (by decide)
  · refine hP.expect_andThen (by decide) (by decide) fun name => ?_
    exact hP.andThen (hP.moreParameters _) fun names => hP.done _

/-! ## Conditionals and function literals -/

theorem conditional (hP : Additive P) (hExpr : Holds P (expr .lowest (ts.drop 1)) (ts.drop 1))
    (hConsequence : ∀ n, Holds P (block (ts.drop (3 + n))) (ts.drop (3 + n)))
    (hAlternative : ∀ n m, Holds P (block (ts.drop (5 + n + m))) (ts.drop (5 + n + m))) :
    Holds P (conditional ts) ts := by
  rw [Grammar.conditional]
  refine hP.expect_andThen (by decide) (by decide) fun _ => ?_
  refine hP.andThen hExpr fun condition => ?_
  rw [List.drop_drop]
  generalize (expr .lowest (ts.drop 1)).used = n
  refine hP.expect_andThen (by decide) (by decide) fun _ => ?_
  rw [drop_succ_add]
  refine hP.expect_andThen (by decide) (by decide) fun _ => ?_
  rw [drop_succ_add]
  refine hP.bind (hConsequence n) ?_
  rw [List.drop_drop]
  generalize (block (ts.drop (3 + n))).used = m
  split
  · next hElse =>
      rcases exists_drop_eq_else_cons hElse with ⟨t, ht, hRest, hBody⟩
      rw [hRest]
      refine hP.shift (usable_of_kind ht (by decide)) ?_
      refine hP.expect_andThen (by decide) (by decide) fun _ => ?_
      rw [hBody]
      exact map _ (hAlternative n m)
  · exact hP.done _

theorem function (hP : Additive P)
    (hBody : ∀ n, Holds P (block (ts.drop (2 + n))) (ts.drop (2 + n))) :
    Holds P (function ts) ts := by
  rw [Grammar.function]
  refine hP.expect_andThen (by decide) (by decide) fun _ => ?_
  refine hP.andThen (hP.parameters _) fun names => ?_
  rw [List.drop_drop]
  generalize (Grammar.parameters (ts.drop 1)).used = n
  refine hP.expect_andThen (by decide) (by decide) fun _ => ?_
  rw [drop_succ_add]
  exact map _ (hBody n)

/-! ## Everything that is read -/

/-- An additive statement holds of everything that is read, by the recursion of the reader. -/
theorem reads (hP : Additive P) :
    (∀ min ts, Holds P (expr min ts) ts) ∧
    (∀ min t ts, HoldsBehind P t (exprFrom min t ts) ts) ∧
    (∀ min left ts, Holds P (climb min left ts) ts) ∧
    (∀ ts, Holds P (arguments ts) ts) ∧
    (∀ ts, Holds P (moreArguments ts) ts) ∧
    (∀ t ts, HoldsBehind P t (operand t ts) ts) ∧
    (∀ ts, Holds P (Grammar.function ts) ts) ∧
    (∀ ts, Holds P (block ts) ts) ∧
    (∀ t ts, HoldsBehind P t (stmt t ts) ts) ∧
    (∀ ts, Holds P (Grammar.conditional ts) ts) := by
  apply expr.mutual_induct
  -- expressions
  · intro min
    rw [expr]
    exact hP.noOperand_end
  · intro min t rest ih
    rw [expr]
    exact ih.shift
  · intro min t ts hOperand hClimb
    rw [exprFrom]
    exact hP.behind_andThen hOperand fun left => hClimb left _
  · intro min left
    rw [climb]
    exact hP.done _
  · intro min left t rest hlt op hop hExpr hClimb
    have ht : Usable t :=
      usable_of_kind (InfixOp.kind_of_ofKind? hop) (by cases op <;> decide)
    rw [climb, if_pos hlt, hop]
    exact hP.shift ht (hP.andThen hExpr fun right => hClimb right _)
  · intro min left t rest hlt hop hArguments hClimb
    have ht : Usable t := usable_of_kind (Precedence.eq_lparen_of_lt hlt hop) (by decide)
    rw [climb, if_pos hlt, hop]
    exact hP.shift ht (hP.andThen hArguments fun es => hClimb es _)
  · intro min left t rest hlt
    rw [climb, if_neg hlt]
    exact hP.done _
  -- arguments
  · intro ts h
    rw [arguments, if_pos h]
    exact hP.take_of_lookahead h (by decide) (by decide)
  · intro ts h hExpr hMore
    rw [arguments, if_neg h]
    refine hP.andThen hExpr fun e => ?_
    exact hP.andThen (hMore _) fun es => hP.done _
  · rw [moreArguments]
    exact hP.expect_andThen (by decide) (by decide) fun _ => hP.done _
  · intro t rest ht hExpr hMore
    rw [moreArguments, if_pos ht]
    refine hP.shift (usable_of_kind ht (by decide)) ?_
    refine hP.andThen hExpr fun e => ?_
    exact hP.andThen (hMore _) fun es => hP.done _
  · intro t rest ht
    rw [moreArguments, if_neg ht]
    exact hP.expect_andThen (by decide) (by decide) fun _ => hP.done _
  -- operands
  · intro t ts h
    rw [operand, h]
    exact hP.behind (usable_of_kind h (by decide)) (hP.done _)
  · intro t ts h n hn
    have ht : Usable t := by
      refine ⟨by rw [h]; decide, fun _ => ?_⟩
      rw [hn]
      rfl
    rw [operand, h, hn]
    exact hP.behind ht (hP.done _)
  · intro t ts h hn
    rw [operand, h, hn]
    exact hP.invalidInteger h hn
  · intro t ts h
    rw [operand, h]
    exact hP.behind (usable_of_kind h (by decide)) (hP.done _)
  · intro t ts h
    rw [operand, h]
    exact hP.behind (usable_of_kind h (by decide)) (hP.done _)
  · intro t ts h hExpr
    rw [operand, h]
    exact hP.behind (usable_of_kind h (by decide)) (hP.andThen hExpr fun e => hP.done _)
  · intro t ts h hExpr
    rw [operand, h]
    exact hP.behind (usable_of_kind h (by decide)) (hP.andThen hExpr fun e => hP.done _)
  · intro t ts h hExpr
    rw [operand, h]
    refine hP.behind (usable_of_kind h (by decide)) (hP.andThen hExpr fun e => ?_)
    exact hP.expect_andThen (by decide) (by decide) fun _ => hP.done _
  · intro t ts h hConditional
    rw [operand, h]
    exact hP.behind (usable_of_kind h (by decide)) hConditional
  · intro t ts h hFunction
    rw [operand, h]
    exact hP.behind (usable_of_kind h (by decide)) hFunction
  · intro t ts hIdent hInt hTrue hFalse hBang hMinus hLparen hIf hFn
    have hStarts : startsOperand t.kind = false := by
      unfold startsOperand
      split <;> first | rfl | contradiction
    rw [operand]
    split
    all_goals try contradiction
    exact hP.noOperand hStarts
  -- function literals and blocks
  · intro ts hBlock
    exact hP.function hBlock
  · rw [block]
    exact hP.done _
  · intro t rest h
    rw [block, if_pos h]
    exact hP.take (usable_of_kind h (by decide))
  · intro t rest h hStmt hBlock
    rw [block, if_neg h]
    refine HoldsBehind.shift (hP.behind_bind hStmt ?_)
    exact map _ (hBlock _)
  -- statements
  · intro t ts h hExpr
    rw [stmt, h]
    refine hP.behind (usable_of_kind h (by decide)) ?_
    refine hP.expect_andThen (by decide) (by decide) fun name => ?_
    refine hP.expect_andThen (by decide) (by decide) fun _ => ?_
    rw [List.drop_drop]
    refine hP.andThen hExpr fun value => ?_
    rw [List.drop_drop]
    exact hP.ended _ _
  · intro t ts h hEnds
    rw [stmt, h]
    simp only [hEnds, if_true]
    exact hP.behind (usable_of_kind h (by decide)) (hP.ended _ _)
  · intro t ts h hEnds hExpr
    rw [stmt, h]
    simp only [hEnds, Bool.false_eq_true, if_false]
    refine hP.behind (usable_of_kind h (by decide)) ?_
    exact hP.andThen hExpr fun value => hP.ended _ _
  · intro t ts hLet hReturn hExpr
    rw [stmt]
    split
    · contradiction
    · contradiction
    · exact hP.behind_andThen hExpr fun value => hP.ended _ _
  -- conditionals
  · intro ts hExpr hConsequence hAlternative
    exact hP.conditional hExpr hConsequence hAlternative

/-- An additive statement holds of a program, which is its statements in order. -/
theorem program (hP : Additive P) (ts : List Token) : Holds P (program ts) ts := by
  induction ts using program.induct with
  | case1 =>
      rw [Grammar.program]
      exact hP.done _
  | case2 t rest ih =>
      rw [Grammar.program]
      have hStmt := hP.reads.2.2.2.2.2.2.2.2.1 t rest
      refine HoldsBehind.shift (hP.behind_bind hStmt ?_)
      exact map _ (ih _)

end Additive

/-! ## How many tokens are used -/

/-- No reading uses more tokens than there are. -/
theorem additive_used_le : Additive fun ts _ n => n ≤ ts.length where
  done _ := Nat.zero_le _
  append hn hn' := by
    rw [List.length_drop] at hn'
    omega
  take _ := Nat.succ_le_succ (Nat.zero_le _)
  unexpected _ := Nat.zero_le _
  noOperand _ := Nat.succ_le_succ (Nat.zero_le _)
  noOperand_end := Nat.le_refl _
  invalidInteger _ _ := Nat.succ_le_succ (Nat.zero_le _)

theorem used_stmt_le (t : Token) (ts : List Token) : (stmt t ts).used ≤ ts.length :=
  Nat.le_of_succ_le_succ (additive_used_le.reads.2.2.2.2.2.2.2.2.1 t ts)

/-- Reading a program uses every token. -/
theorem used_program (ts : List Token) : (program ts).used = ts.length := by
  induction ts using program.induct with
  | case1 =>
      rw [program]
      rfl
  | case2 t rest ih =>
      rw [program, used_shift, used_bind, used_map, ih, List.length_drop, List.length_cons]
      have := used_stmt_le t rest
      omega

end Grammar
end MonkeyLang
