import MonkeyLang.Proofs.Grammar.Soundness
import MonkeyLang.Proofs.Token.Juncture

/-!
# Concatenation — one program behind another

A reading that comes to its end before the last token, without a defect, has looked at no token
behind the place it came to.  So it is the same reading if more tokens follow (`Settled`).  The last
statement of a program comes to its end at the semicolon that is the last token, unless a block is
still open there.  So behind a program whose braces match and whose last token is a semicolon any
other tokens are read as a program of their own (`program_append`).
-/

namespace MonkeyLang
namespace Grammar

open Reading

/-! ## Readings that more tokens do not change -/

section

variable {α β : Type} {ts us : List Token}

/-- If the first reading noticed no defect and left a token of `ts`, the second one is the same. -/
def Settled (ts : List Token) (r r' : Reading α) : Prop :=
  r.errors = [] → r.used < ts.length → r' = r

theorem Settled.refl (ts : List Token) (r : Reading α) : Settled ts r r :=
  fun _ _ => rfl

/-- Where there is no token, none is left. -/
theorem Settled.of_ne_nil {r r' : Reading α} (h : ts ≠ [] → Settled ts r r') :
    Settled ts r r' := by
  intro hErrors hUsed
  refine h ?_ hErrors hUsed
  rintro rfl
  exact absurd hUsed (Nat.not_lt_zero _)

theorem Settled.shift {r r' : Reading α} {t : Token} (h : Settled ts r r') :
    Settled (t :: ts) r.shift r'.shift := by
  intro hErrors hUsed
  rw [h hErrors (Nat.lt_of_succ_lt_succ hUsed)]

theorem Settled.bind {r r' : Reading α} {f f' : α → Nat → Reading β} (hr : Settled ts r r')
    (hf : r.used ≤ ts.length →
      Settled (ts.drop r.used) (f r.value r.used) (f' r.value r.used)) :
    Settled ts (r.bind f) (r'.bind f') := by
  intro hErrors hUsed
  rw [errors_bind, List.append_eq_nil_iff] at hErrors
  rw [used_bind] at hUsed
  have hFirst : r' = r := hr hErrors.1 (by omega)
  have hNext : f' r.value r.used = f r.value r.used := by
    refine hf (by omega) hErrors.2 ?_
    rw [List.length_drop]
    omega
  rw [hFirst, Reading.bind, Reading.bind, hNext]

theorem Settled.map {r r' : Reading α} (f : α → β) (h : Settled ts r r') :
    Settled ts (r.map f) (r'.map f) := by
  intro hErrors hUsed
  rw [h hErrors hUsed]

theorem Settled.andThen {r r' : Attempt α} {f f' : α → Nat → Attempt β} (hr : Settled ts r r')
    (hf : ∀ a, r.used ≤ ts.length → Settled (ts.drop r.used) (f a r.used) (f' a r.used)) :
    Settled ts (r.andThen f) (r'.andThen f') := by
  refine hr.bind fun hUsed => ?_
  cases r.value with
  | none => exact .refl _ _
  | some a => exact hf a hUsed

theorem Settled.expect_andThen {k : Kind} {f f' : Token → Nat → Attempt β}
    (hf : ∀ t, 1 ≤ ts.length → Settled (ts.drop 1) (f t 1) (f' t 1)) :
    Settled ts ((expect k ts).andThen f) ((expect k (ts ++ us)).andThen f') := by
  cases ts with
  | nil => exact .of_ne_nil fun h => absurd rfl h
  | cons t ts =>
      by_cases ht : t.kind = k
      · rw [List.cons_append, expect_of_eq ht, expect_of_eq ht]
        exact (Settled.refl _ _).andThen fun a hUsed => hf a hUsed
      · -- a defect is noticed, so there is nothing to show
        rw [expect_of_ne ht]
        intro hErrors
        cases hErrors

theorem lookahead_append (h : ts ≠ []) (us : List Token) : lookahead (ts ++ us) = lookahead ts := by
  cases ts with
  | nil => exact absurd rfl h
  | cons t ts => rfl

theorem Settled.ended (s : Stmt) (ts us : List Token) :
    Settled ts (ended s ts) (ended s (ts ++ us)) := by
  refine .of_ne_nil fun h => ?_
  rw [Grammar.ended, Grammar.ended, lookahead_append h]
  exact .refl _ _

end

/-! ## Parameters -/

theorem Settled.moreParameters (ts us : List Token) :
    Settled ts (moreParameters ts) (moreParameters (ts ++ us)) := by
  induction ts using moreParameters.induct with
  | case1 => exact .of_ne_nil fun h => absurd rfl h
  | case2 t rest ht ih =>
      rw [List.cons_append, Grammar.moreParameters, Grammar.moreParameters, if_pos ht, if_pos ht]
      refine Settled.shift (.expect_andThen fun name hOne => ?_)
      rw [List.drop_append_of_le_length hOne]
      exact ih.andThen fun names _ => .refl _ _
  | case3 t rest ht =>
      rw [List.cons_append, Grammar.moreParameters, Grammar.moreParameters, if_neg ht, if_neg ht,
        ← List.cons_append]
      exact .expect_andThen fun _ _ => .refl _ _

theorem Settled.parameters (ts us : List Token) :
    Settled ts (parameters ts) (parameters (ts ++ us)) := by
  refine .of_ne_nil fun h => ?_
  rw [Grammar.parameters, Grammar.parameters, lookahead_append h]
  split
  · exact .refl _ _
  · refine .expect_andThen fun name hOne => ?_
    rw [List.drop_append_of_le_length hOne]
    exact (Settled.moreParameters _ us).andThen fun names _ => .refl _ _

/-! ## Conditionals and function literals -/

theorem Settled.conditional {ts us : List Token}
    (hExpr : Settled (ts.drop 1) (expr .lowest (ts.drop 1)) (expr .lowest (ts.drop 1 ++ us)))
    (hConsequence : ∀ n, Settled (ts.drop (3 + n)) (block (ts.drop (3 + n)))
      (block (ts.drop (3 + n) ++ us)))
    (hAlternative : ∀ n m, Settled (ts.drop (5 + n + m)) (block (ts.drop (5 + n + m)))
      (block (ts.drop (5 + n + m) ++ us))) :
    Settled ts (conditional ts) (conditional (ts ++ us)) := by
  rw [Grammar.conditional, Grammar.conditional]
  refine .expect_andThen fun _ hOne => ?_
  rw [List.drop_append_of_le_length hOne]
  refine hExpr.andThen fun condition hUsed => ?_
  rw [List.length_drop] at hUsed
  rw [List.drop_drop]
  generalize (expr .lowest (ts.drop 1)).used = n at hUsed ⊢
  rw [List.drop_append_of_le_length (by omega)]
  refine .expect_andThen fun _ hTwo => ?_
  rw [List.length_drop] at hTwo
  rw [drop_succ_add, List.drop_append_of_le_length (by omega)]
  refine .expect_andThen fun _ hThree => ?_
  rw [List.length_drop] at hThree
  rw [drop_succ_add, List.drop_append_of_le_length (by omega)]
  refine (hConsequence n).bind fun hBody => ?_
  rw [List.length_drop] at hBody
  rw [List.drop_drop]
  generalize (block (ts.drop (3 + n))).value = consequence
  generalize (block (ts.drop (3 + n))).used = m at hBody ⊢
  refine .of_ne_nil fun hMore => ?_
  rw [List.drop_append_of_le_length (by omega), lookahead_append hMore]
  split
  · next hElse =>
      rcases exists_drop_eq_else_cons hElse with ⟨t, ht, hRest, hBody'⟩
      have hLength := congrArg List.length hRest
      rw [List.length_drop, List.length_cons, List.length_drop] at hLength
      rw [hRest, List.drop_append_of_le_length (by omega)]
      refine Settled.shift (.expect_andThen fun _ hFour => ?_)
      rw [List.length_drop] at hFour
      rw [hBody', List.drop_append_of_le_length (by omega)]
      exact (hAlternative n m).map _
  · exact .refl _ _

theorem Settled.function {ts us : List Token}
    (hBody : ∀ n, Settled (ts.drop (2 + n)) (block (ts.drop (2 + n)))
      (block (ts.drop (2 + n) ++ us))) :
    Settled ts (function ts) (function (ts ++ us)) := by
  rw [Grammar.function, Grammar.function]
  refine .expect_andThen fun _ hOne => ?_
  rw [List.drop_append_of_le_length hOne]
  refine (Settled.parameters _ us).andThen fun names hUsed => ?_
  rw [List.length_drop] at hUsed
  rw [List.drop_drop]
  generalize (Grammar.parameters (ts.drop 1)).used = n at hUsed ⊢
  rw [List.drop_append_of_le_length (by omega)]
  refine .expect_andThen fun _ hTwo => ?_
  rw [List.length_drop] at hTwo
  rw [drop_succ_add, List.drop_append_of_le_length (by omega)]
  exact (hBody n).map _

/-! ## Statements -/

theorem Settled.stmt {t : Token} {ts us : List Token}
    (h : Settled ts (sentence t ts) (sentence t (ts ++ us))) :
    Settled ts (stmt t ts) (stmt t (ts ++ us)) := by
  rw [stmt_eq, stmt_eq]
  refine h.andThen fun s hUsed => ?_
  rw [List.drop_append_of_le_length hUsed]
  exact .ended s _ us

/-! ## Everything that is read -/

/-- What is read before the last token is the same if more tokens follow, by the recursion of the
reader. -/
theorem settled (us : List Token) :
    (∀ min ts, Settled ts (expr min ts) (expr min (ts ++ us))) ∧
    (∀ min t ts, Settled ts (exprFrom min t ts) (exprFrom min t (ts ++ us))) ∧
    (∀ min left ts, Settled ts (climb min left ts) (climb min left (ts ++ us))) ∧
    (∀ ts, Settled ts (arguments ts) (arguments (ts ++ us))) ∧
    (∀ ts, Settled ts (moreArguments ts) (moreArguments (ts ++ us))) ∧
    (∀ t ts, Settled ts (operand t ts) (operand t (ts ++ us))) ∧
    (∀ ts, Settled ts (function ts) (function (ts ++ us))) ∧
    (∀ ts, Settled ts (block ts) (block (ts ++ us))) ∧
    (∀ t ts, Settled ts (sentence t ts) (sentence t (ts ++ us))) ∧
    (∀ ts, Settled ts (conditional ts) (conditional (ts ++ us))) := by
  apply expr.mutual_induct
  -- expressions
  · intro min
    exact .of_ne_nil fun h => absurd rfl h
  · intro min t rest ih
    rw [List.cons_append, expr, expr]
    exact ih.shift
  · intro min t ts hOperand hClimb
    rw [exprFrom, exprFrom]
    refine hOperand.andThen fun left hUsed => ?_
    rw [List.drop_append_of_le_length hUsed]
    exact hClimb left _
  · intro min left
    exact .of_ne_nil fun h => absurd rfl h
  · intro min left t rest hlt op hop hExpr hClimb
    rw [List.cons_append, climb, climb, if_pos hlt, if_pos hlt, hop]
    refine Settled.shift (hExpr.andThen fun right hUsed => ?_)
    rw [List.drop_append_of_le_length hUsed]
    exact hClimb right _
  · intro min left t rest hlt hop hArguments hClimb
    rw [List.cons_append, climb, climb, if_pos hlt, if_pos hlt, hop]
    refine Settled.shift (hArguments.andThen fun es hUsed => ?_)
    rw [List.drop_append_of_le_length hUsed]
    exact hClimb es _
  · intro min left t rest hlt
    rw [List.cons_append, climb, climb, if_neg hlt, if_neg hlt]
    exact .refl _ _
  -- arguments
  · intro ts h
    refine .of_ne_nil fun hMore => ?_
    rw [arguments, arguments, lookahead_append hMore, if_pos h, if_pos h]
    exact .refl _ _
  · intro ts h hExpr hMoreArguments
    refine .of_ne_nil fun hMore => ?_
    rw [arguments, arguments, lookahead_append hMore, if_neg h, if_neg h]
    refine hExpr.andThen fun e hUsed => ?_
    rw [List.drop_append_of_le_length hUsed]
    exact (hMoreArguments _).andThen fun es _ => .refl _ _
  · exact .of_ne_nil fun h => absurd rfl h
  · intro t rest ht hExpr hMoreArguments
    rw [List.cons_append, moreArguments, moreArguments, if_pos ht, if_pos ht]
    refine Settled.shift (hExpr.andThen fun e hUsed => ?_)
    rw [List.drop_append_of_le_length hUsed]
    exact (hMoreArguments _).andThen fun es _ => .refl _ _
  · intro t rest ht
    rw [List.cons_append, moreArguments, moreArguments, if_neg ht, if_neg ht, ← List.cons_append]
    exact .expect_andThen fun _ _ => .refl _ _
  -- operands
  · intro t ts h
    rw [operand, operand, h]
    exact .refl _ _
  · intro t ts h n hn
    rw [operand, operand, h, hn]
    exact .refl _ _
  · intro t ts h hn
    rw [operand, operand, h, hn]
    intro hErrors
    cases hErrors
  · intro t ts h
    rw [operand, operand, h]
    exact .refl _ _
  · intro t ts h
    rw [operand, operand, h]
    exact .refl _ _
  · intro t ts h hExpr
    rw [operand, operand, h]
    exact hExpr.andThen fun e _ => .refl _ _
  · intro t ts h hExpr
    rw [operand, operand, h]
    exact hExpr.andThen fun e _ => .refl _ _
  · intro t ts h hExpr
    rw [operand, operand, h]
    refine hExpr.andThen fun e hUsed => ?_
    rw [List.drop_append_of_le_length hUsed]
    exact .expect_andThen fun _ _ => .refl _ _
  · intro t ts h hConditional
    rw [operand, operand, h]
    exact hConditional
  · intro t ts h hFunction
    rw [operand, operand, h]
    exact hFunction
  · intro t ts hIdent hInt hTrue hFalse hBang hMinus hLparen hIf hFn hErrors
    rw [operand] at hErrors
    split at hErrors
    all_goals contradiction
  -- function literals and blocks
  · intro ts hBlock
    exact .function hBlock
  · exact .of_ne_nil fun h => absurd rfl h
  · intro t rest h
    rw [List.cons_append, block, block, if_pos h, if_pos h]
    exact .refl _ _
  · intro t rest h hSentence hBlock
    rw [List.cons_append, block, block, if_neg h, if_neg h]
    refine Settled.shift (hSentence.stmt.bind fun hUsed => ?_)
    rw [List.drop_append_of_le_length hUsed]
    exact (hBlock _).map _
  -- statements
  · intro t ts h hExpr
    rw [sentence, sentence, h]
    refine .expect_andThen fun name hOne => ?_
    rw [List.drop_append_of_le_length hOne]
    refine .expect_andThen fun _ hTwo => ?_
    rw [List.length_drop] at hTwo
    rw [List.drop_drop, List.drop_append_of_le_length (by omega)]
    exact hExpr.andThen fun value _ => .refl _ _
  · intro t ts h hEnds
    refine .of_ne_nil fun hMore => ?_
    rw [sentence, sentence, h, lookahead_append hMore]
    simp only [hEnds, if_true]
    exact .refl _ _
  · intro t ts h hEnds hExpr
    refine .of_ne_nil fun hMore => ?_
    rw [sentence, sentence, h, lookahead_append hMore]
    simp only [hEnds, Bool.false_eq_true, if_false]
    exact hExpr.andThen fun value _ => .refl _ _
  · intro t ts hLet hReturn hExpr
    rw [sentence_of_ne hLet hReturn, sentence_of_ne hLet hReturn]
    exact hExpr.andThen fun value _ => .refl _ _
  -- conditionals
  · intro ts hExpr hConsequence hAlternative
    exact .conditional hExpr hConsequence hAlternative

theorem settledSentence (t : Token) (ts us : List Token) :
    Settled ts (sentence t ts) (sentence t (ts ++ us)) :=
  (settled us).2.2.2.2.2.2.2.2.1 t ts

/-! ## The last token of a statement -/

namespace Derives

variable {sep : Separation}

/-- No expression ends with a semicolon. -/
theorem exists_concat {p : Precedence} {e : Expr} {ts : List Token}
    (h : Derives sep (.expr p e) ts) : ∃ us t, ts = us ++ [t] ∧ t.kind ≠ .semicolon := by
  generalize hx : Phrase.expr p e = x at h
  -- only the operand of an operator stands at the end
  induction h generalizing p e with
  | ident ht => exact ⟨[], _, rfl, by rw [ht]; decide⟩
  | int ht _ => exact ⟨[], _, rfl, by rw [ht]; decide⟩
  | trueWord ht => exact ⟨[], _, rfl, by rw [ht]; decide⟩
  | falseWord ht => exact ⟨[], _, rfl, by rw [ht]; decide⟩
  | @group p e o c ts ho he hc => exact ⟨o :: ts, c, rfl, by rw [hc]; decide⟩
  | @prefixOp p op e t ts hp ht he ih =>
      rcases ih rfl with ⟨us, u, rfl, hu⟩
      exact ⟨t :: us, u, rfl, hu⟩
  | @infixOp p q op l r t ts us hp hl ht hq hr ihl ihr =>
      rcases ihr rfl with ⟨vs, v, rfl, hv⟩
      exact ⟨ts ++ t :: vs, v, by simp, hv⟩
  | @call p f es o c ts us hf ho hes hc =>
      exact ⟨ts ++ o :: us, c, by simp, by rw [hc]; decide⟩
  | @cond p e ss k o c b d ts us hk ho he hc hb hss hd =>
      exact ⟨k :: o :: (ts ++ c :: b :: us), d, by simp, by rw [hd]; decide⟩
  | @condElse p e ss ss' k o c b d l b' d' ts us us' hk ho he hc hb hss hd hl hb' hss' hd' =>
      exact ⟨k :: o :: (ts ++ c :: b :: (us ++ d :: l :: b' :: us')), d', by simp,
        by rw [hd']; decide⟩
  | @fn p names ss k o c b d ts us hk ho hn hc hb hss hd =>
      exact ⟨k :: o :: (ts ++ c :: b :: us), d, by simp, by rw [hd]; decide⟩
  | _ => cases hx

theorem exists_concat_stmt {s : Stmt} {ts : List Token} (h : Derives sep (.stmt s) ts) :
    ∃ us t, ts = us ++ [t] ∧ t.kind ≠ .semicolon := by
  cases h with
  | bind hk hn ha he =>
      rcases he.exists_concat with ⟨us, t, rfl, ht⟩
      exact ⟨_ :: _ :: _ :: us, t, rfl, ht⟩
  | ret hk => exact ⟨[], _, rfl, by rw [hk]; decide⟩
  | retValue hk he =>
      rcases he.exists_concat with ⟨us, t, rfl, ht⟩
      exact ⟨_ :: us, t, rfl, ht⟩
  | value he => exact he.exists_concat

end Derives

/-! ## Programs -/

/-- Closing braces that make the braces match are as many as are missing. -/
theorem Balanced.count_eq {ts : List Token} {k : Nat}
    (h : Balanced (ts ++ List.replicate k .closing)) :
    (ts.map Token.kind).count .lbrace = (ts.map Token.kind).count .rbrace + k := by
  unfold Balanced at h
  have hOpening : (List.replicate k Token.closing.kind).count .lbrace = 0 :=
    List.count_eq_zero_of_not_mem fun hMem => nomatch List.eq_of_mem_replicate hMem
  have hClosing : (List.replicate k Token.closing.kind).count .rbrace = k :=
    List.count_replicate_self
  rwa [List.map_append, List.count_append, List.count_append, List.map_replicate, hOpening,
    hClosing] at h

/-- The last token of a program, if there is one, is a semicolon. -/
def EndsStatement (ts : List Token) : Prop :=
  ∀ t, ts.getLast? = some t → t.kind = .semicolon

theorem EndsStatement.drop {ts : List Token} (h : EndsStatement ts) (n : Nat) :
    EndsStatement (ts.drop n) := by
  intro t ht
  rw [List.getLast?_drop] at ht
  split at ht
  · cases ht
  · exact h t ht

/-- A statement in front of a semicolon does not use it. -/
theorem used_sentence_lt {t : Token} {ts : List Token} (hErrors : (sentence t ts).errors = [])
    (hBalanced : Balanced (t :: ts)) (hEnds : EndsStatement (t :: ts)) :
    (sentence t ts).used < ts.length := by
  rcases soundSentence t ts hErrors with ⟨hUsed, vs, ⟨k, -, rfl⟩, hRead⟩
  refine Nat.lt_of_le_of_ne hUsed fun hAll => ?_
  cases hValue : (sentence t ts).value with
  | none =>
      rw [hValue] at hRead
      exact hRead
  | some s =>
      rw [hValue, hAll, List.take_length] at hRead
      have hDerives : Derives .optional (.stmt s) (t :: ts ++ List.replicate k .closing) := hRead.1
      -- no brace is missing, so all tokens are those of the statement
      have hMissing : k = 0 := by
        have hCount := hDerives.balanced.count_eq
        unfold Balanced at hBalanced
        omega
      rw [hMissing, List.replicate_zero, List.append_nil] at hDerives
      rcases hDerives.exists_concat_stmt with ⟨us, u, hLast, hu⟩
      refine hu (hEnds u ?_)
      rw [hLast, List.getLast?_concat]

theorem stmt_append {t : Token} {ts : List Token} (hErrors : (stmt t ts).errors = [])
    (hBalanced : Balanced (t :: ts)) (hEnds : EndsStatement (t :: ts)) (us : List Token) :
    stmt t (ts ++ us) = stmt t ts := by
  have hSentence : (sentence t ts).errors = [] := by
    rw [stmt_eq, andThen, errors_bind, List.append_eq_nil_iff] at hErrors
    exact hErrors.1
  have hUsed := used_sentence_lt hSentence hBalanced hEnds
  have hMore : ts.drop (sentence t ts).used ≠ [] := by
    intro hNil
    rw [List.drop_eq_nil_iff] at hNil
    omega
  rw [stmt_eq, stmt_eq, settledSentence t ts us hSentence hUsed]
  cases hValue : (sentence t ts).value with
  | none => rw [andThen_of_none _ hValue, andThen_of_none _ hValue]
  | some s =>
      rw [andThen_of_some _ hValue, andThen_of_some _ hValue,
        List.drop_append_of_le_length (Nat.le_of_lt hUsed), ended, ended, lookahead_append hMore]

theorem StmtRead.balanced {s : Stmt} {vs rest : List Token} (h : StmtRead s vs rest) :
    Balanced vs := by
  rcases h with ⟨us, hDerives, ⟨u, hu, rfl⟩ | ⟨rfl, -⟩⟩
  · exact hDerives.balanced.append (.cons hu ⟨nofun, nofun⟩ .nil)
  · exact hDerives.balanced

/-- The braces of a statement match if anything stands behind it. -/
theorem balanced_take_stmt {t : Token} {ts : List Token} (hErrors : (stmt t ts).errors = [])
    (hMore : ts.drop (stmt t ts).used ≠ []) : Balanced (t :: ts.take (stmt t ts).used) := by
  rcases soundStmt t ts hErrors with ⟨hUsed, vs, ⟨k, hk, rfl⟩, hRead⟩
  have hMissing : k = 0 := hk.resolve_right hMore
  cases hValue : (stmt t ts).value with
  | none =>
      rw [hValue] at hRead
      exact hRead.elim
  | some s =>
      rw [hValue, hMissing, List.replicate_zero, List.append_nil] at hRead
      exact hRead.balanced

/-- Behind a statement of a program the braces match again, unless it is the last. -/
theorem balanced_drop_stmt {t : Token} {ts : List Token} (hErrors : (stmt t ts).errors = [])
    (hBalanced : Balanced (t :: ts)) : Balanced (ts.drop (stmt t ts).used) := by
  by_cases hNil : ts.drop (stmt t ts).used = []
  · rw [hNil]
    exact .nil
  · refine Balanced.of_append ?_ (balanced_take_stmt hErrors hNil)
    rw [List.cons_append, List.take_append_drop]
    exact hBalanced

/-- Behind a program that ends with a semicolon, with no block open, other tokens are read as if
they stood alone. -/
theorem program_append {ts : List Token} (hErrors : (program ts).errors = [])
    (hBalanced : Balanced ts) (hEnds : EndsStatement ts) (us : List Token) :
    program (ts ++ us) =
      ⟨(program ts).value ++ (program us).value, (program us).errors,
        ts.length + (program us).used⟩ := by
  induction ts using program.induct with
  | case1 =>
      rw [List.nil_append]
      simp [program, Reading.pure]
  | case2 t rest ih =>
      rw [program, errors_shift, errors_bind, errors_map, List.append_eq_nil_iff] at hErrors
      have hUsed := used_stmt_le t rest
      have hStmt := stmt_append hErrors.1 hBalanced hEnds us
      have hTail : EndsStatement (rest.drop (stmt t rest).used) :=
        hEnds.drop ((stmt t rest).used + 1)
      have hRest := ih _ hErrors.2 (balanced_drop_stmt hErrors.1 hBalanced) hTail
      have hLeft : (rest ++ us).drop (stmt t rest).used = rest.drop (stmt t rest).used ++ us :=
        List.drop_append_of_le_length hUsed
      have hLength := List.length_drop (i := (stmt t rest).used) (l := rest)
      rw [List.cons_append, program, program, hStmt]
      simp only [Reading.bind, Reading.map, Reading.shift, hLeft, hRest, hErrors.1, hErrors.2,
        List.nil_append, List.append_assoc, List.length_cons, hLength]
      congr 1
      omega

/-- Tokens without a defect are those of a statement at least. -/
theorem program_ne_nil {ts : List Token} (hErrors : (program ts).errors = []) (h : ts ≠ []) :
    (program ts).value ≠ [] := by
  intro hNil
  rcases soundProgram ts hErrors with ⟨-, vs, ⟨k, -, rfl⟩, hDerives, -⟩
  rw [hNil, used_program, List.take_length] at hDerives
  generalize hTokens : ts ++ List.replicate k Token.closing = vs at hDerives
  cases hDerives
  exact h (List.append_eq_nil_iff.1 hTokens).1

end Grammar

/-! ## Source texts -/

/-- A source text of whole statements, the last of them ended by a semicolon, with no block open. -/
structure Whole (source : String) : Prop where
  parses : (parse source).errors = []
  balanced : Grammar.Balanced (Token.lexemes source.toList)
  ends : (Token.lexemes source.toList).getLast?.map Token.kind = some .semicolon

namespace Whole

variable {a : String}

theorem endsStatement (h : Whole a) : Grammar.EndsStatement (Token.lexemes a.toList) := by
  intro t ht
  have hEnds := h.ends
  rw [ht] at hEnds
  exact Option.some.inj hEnds

theorem lexemes_ne_nil (h : Whole a) : Token.lexemes a.toList ≠ [] := by
  intro hNil
  have hEnds := h.ends
  rw [hNil] at hEnds
  cases hEnds

theorem program_errors (h : Whole a) : (Grammar.program (Token.lexemes a.toList)).errors = [] :=
  List.map_eq_nil_iff.1 h.parses

theorem statements_ne_nil (h : Whole a) : (parse a).program.statements ≠ [] :=
  Grammar.program_ne_nil h.program_errors h.lexemes_ne_nil

/-- Behind whole statements any text is read as if it stood alone. -/
theorem parse_append (h : Whole a) (b : String) :
    parse (a ++ b) =
      ⟨⟨(parse a).program.statements ++ (parse b).program.statements⟩,
        (parse b).diagnostics⟩ := by
  simp only [parse, Parsed.ofTokens, String.toList_append,
    Token.lexemes_append_of_semicolon h.endsStatement,
    Grammar.program_append h.program_errors h.balanced h.endsStatement]

end Whole

theorem parse_join {ls : List String} (h : ∀ l ∈ ls, Whole l) :
    parse (String.join ls) =
      ⟨⟨(ls.map fun l => (parse l).program).flatMap Program.statements⟩, []⟩ := by
  induction ls with
  | nil =>
      have hEmpty : parse "" = ⟨⟨[]⟩, []⟩ := by with_unfolding_all rfl
      exact hEmpty
  | cons l ls ih =>
      rw [List.forall_mem_cons] at h
      rw [String.join_cons, h.1.parse_append, ih h.2, List.map_cons, List.flatMap_cons]

theorem parse?_of_errors_eq_nil {source : String} (h : (parse source).errors = []) :
    parse? source = .ok (parse source).program := by
  simp only [parse?, h, List.isEmpty_nil, if_true]

end MonkeyLang
