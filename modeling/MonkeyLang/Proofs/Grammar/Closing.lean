import MonkeyLang.Proofs.Grammar.Concatenation

/-!
# Closing — the end of the input as a closing brace

A block that is open at the end of the input ends there, as it would at a closing brace.  Whatever
looks for more, an operator, a keyword, a semicolon or the value of a `return`, finds none in either
of them.  So a brace behind all tokens is taken by the innermost block that is open and changes
nothing else (`Closes`), and a brace behind all other tokens may be left out.

Only where no block is open a closing brace starts a statement, and that is a defect.
-/

namespace MonkeyLang
namespace Grammar

open Reading

/-! ## Readings in front of a closing brace -/

section

variable {α β : Type} {ts : List Token} {c : Token}

/-- If one of two readings of `ts`, the second one in front of a closing brace, noticed no defect,
they are the same, unless the first one came to the end.  There the second one may have used the
brace as well. -/
def Closes (ts : List Token) (r r' : Reading α) : Prop :=
  r.errors = [] ∨ r'.errors = [] → r' = r ∨ (ts.length ≤ r.used ∧ r' = r.shift)

theorem Closes.refl (ts : List Token) (r : Reading α) : Closes ts r r :=
  fun _ => .inl rfl

/-- If both readings notice a defect there is nothing to show. -/
theorem Closes.of_errors_ne_nil {r r' : Reading α} (h : r.errors ≠ []) (h' : r'.errors ≠ []) :
    Closes ts r r' := by
  rintro (hErrors | hErrors)
  · exact absurd hErrors h
  · exact absurd hErrors h'

theorem Closes.shift {r r' : Reading α} (h : Closes ts r r') (t : Token) :
    Closes (t :: ts) r.shift r'.shift := by
  intro hErrors
  rcases h hErrors with hSame | ⟨hAll, hMore⟩
  · exact .inl (congrArg Reading.shift hSame)
  · exact .inr ⟨Nat.succ_le_succ hAll, congrArg Reading.shift hMore⟩

theorem Closes.map {r r' : Reading α} (h : Closes ts r r') (f : α → β) :
    Closes ts (r.map f) (r'.map f) := by
  intro hErrors
  rcases h hErrors with rfl | ⟨hAll, rfl⟩
  · exact .inl rfl
  · exact .inr ⟨hAll, rfl⟩

/-- Behind all tokens, and the brace in the second reading, nothing is left to tell what follows
apart (`hEnd`). -/
theorem Closes.bind {r r' : Reading α} {f f' : α → Nat → Reading β} (hr : Closes ts r r')
    (hf : r.used ≤ ts.length → Closes (ts.drop r.used) (f r.value r.used) (f' r.value r.used))
    (hEnd : ∀ {n m}, ts.length ≤ n → ts.length < m → f' r.value m = f r.value n) :
    Closes ts (r.bind f) (r'.bind f') := by
  intro hErrors
  simp only [errors_bind, List.append_eq_nil_iff] at hErrors
  rcases hr (hErrors.imp And.left And.left) with rfl | ⟨hAll, rfl⟩
  · have hNext := hErrors.imp And.right And.right
    by_cases hUsed : r'.used ≤ ts.length
    · rcases hf hUsed hNext with hSame | ⟨hAll, hMore⟩
      · left
        rw [Reading.bind, Reading.bind, hSame]
      · right
        rw [List.length_drop] at hAll
        refine ⟨by rw [used_bind]; omega, ?_⟩
        rw [Reading.bind, Reading.bind, hMore]
        rfl
    · have hPast : ts.length < r'.used := Nat.lt_of_not_le hUsed
      left
      rw [Reading.bind, Reading.bind, hEnd (Nat.le_of_lt hPast) hPast]
  · -- the brace has been used
    right
    refine ⟨Nat.le_trans hAll (Nat.le_add_right _ _), ?_⟩
    have hNext := hEnd hAll (Nat.lt_succ_of_le hAll)
    simp only [Reading.bind, Reading.shift, hNext, Nat.add_right_comm]

theorem Closes.andThen {r r' : Attempt α} {f f' : α → Nat → Attempt β} (hr : Closes ts r r')
    (hf : ∀ a, r.used ≤ ts.length → Closes (ts.drop r.used) (f a r.used) (f' a r.used))
    (hEnd : ∀ {n m} a, ts.length ≤ n → ts.length < m → f' a m = f a n) :
    Closes ts (r.andThen f) (r'.andThen f') := by
  refine hr.bind (fun hUsed => ?_) fun hn hm => ?_
  · cases r.value with
    | none => exact .refl _ _
    | some a => exact hf a hUsed
  · cases r.value with
    | none => rfl
    | some a => exact hEnd a hn hm

/-- What an attempt comes to does not matter to what stands behind it. -/
theorem Closes.andThen_done {r r' : Attempt α} (hr : Closes ts r r') (f : α → β) :
    Closes ts (r.andThen fun a _ => done (f a)) (r'.andThen fun a _ => done (f a)) :=
  hr.andThen (fun _ _ => .refl _ _) fun _ _ _ => rfl

/-! ### The end of the tokens -/

theorem drop_closed {n m : Nat} (hn : ts.length ≤ n) (hm : ts.length < m) :
    (ts ++ [c]).drop m = ts.drop n := by
  rw [List.drop_eq_nil_of_le hn, List.drop_eq_nil_of_le]
  rw [List.length_append, List.length_singleton]
  omega

theorem drop_add_closed {k n m : Nat} (hn : (ts.drop k).length ≤ n) (hm : (ts.drop k).length < m) :
    (ts ++ [c]).drop (k + m) = ts.drop (k + n) := by
  rw [List.length_drop] at hn hm
  exact drop_closed (by omega) (by omega)

/-- What stands behind an attempt is read from the tokens that it leaves. -/
theorem Closes.andThen_drop {r r' : Attempt α} (hr : Closes ts r r')
    (g : α → List Token → Attempt β)
    (hg : ∀ a, Closes (ts.drop r.used) (g a (ts.drop r.used)) (g a (ts.drop r.used ++ [c]))) :
    Closes ts (r.andThen fun a n => g a (ts.drop n))
      (r'.andThen fun a n => g a ((ts ++ [c]).drop n)) := by
  refine hr.andThen (fun a hUsed => ?_) fun a hn hm => ?_
  · rw [List.drop_append_of_le_length hUsed]
    exact hg a
  · rw [drop_closed hn hm]

/-- At the end of the input no token is found. -/
theorem expect_andThen_end {k : Kind} {i n m : Nat} (f g : Token → Nat → Attempt α)
    (hn : (ts.drop i).length ≤ n) (hm : (ts.drop i).length < m) :
    (expect k ((ts ++ [c]).drop (i + m))).andThen f = (expect k (ts.drop (i + n))).andThen g := by
  have hEnd : ts.drop (i + n) = [] := by
    rw [← List.drop_drop]
    exact List.drop_eq_nil_of_le hn
  rw [drop_add_closed hn hm, hEnd]
  rfl

variable (hc : c.kind = .rbrace)

include hc

theorem lookahead_concat_iff {k : Kind} (hBrace : k ≠ .rbrace) (hEof : k ≠ .eof)
    (ts : List Token) : lookahead (ts ++ [c]) = k ↔ lookahead ts = k := by
  cases ts with
  | nil => exact ⟨fun h => absurd (h.symm.trans hc) hBrace, fun h => absurd h.symm hEof⟩
  | cons t ts => rfl

theorem endsReturn_concat (ts : List Token) :
    endsReturn (lookahead (ts ++ [c])) = endsReturn (lookahead ts) := by
  cases ts with
  | nil =>
      have hLookahead : lookahead ([] ++ [c]) = .rbrace := hc
      rw [hLookahead]
      rfl
  | cons t ts => rfl

theorem Closes.expect_andThen {k : Kind} {f f' : Token → Nat → Attempt β} (hk : k ≠ .rbrace)
    (hf : ∀ t, 1 ≤ ts.length → Closes (ts.drop 1) (f t 1) (f' t 1)) :
    Closes ts ((expect k ts).andThen f) ((expect k (ts ++ [c])).andThen f') := by
  have hMissed : ∀ {t : Token} {rest : List Token} (g : Token → Nat → Attempt β), t.kind ≠ k →
      ((expect k (t :: rest)).andThen g).errors ≠ [] := by
    intro t rest g ht
    rw [expect_of_ne ht]
    exact List.cons_ne_nil _ _
  cases ts with
  | nil => exact .of_errors_ne_nil (List.cons_ne_nil _ _) (hMissed _ (hc ▸ hk.symm))
  | cons t ts =>
      by_cases ht : t.kind = k
      · have hNext := (hf t (Nat.succ_pos _)).shift t
        rw [List.cons_append, expect_of_eq ht, expect_of_eq ht, andThen_of_some f rfl,
          andThen_of_some f' rfl, List.nil_append, List.nil_append, Nat.add_comm, Nat.add_comm 1]
        exact hNext
      · exact .of_errors_ne_nil (hMissed _ ht) (hMissed _ ht)

theorem Closes.ended (s : Stmt) (ts : List Token) :
    Closes ts (ended s ts) (ended s (ts ++ [c])) := by
  rw [Grammar.ended, Grammar.ended]
  simp only [lookahead_concat_iff hc (by decide : Kind.semicolon ≠ .rbrace) (by decide)]
  exact .refl _ _

/-! ## Parameters -/

theorem Closes.moreParameters (ts : List Token) :
    Closes ts (moreParameters ts) (moreParameters (ts ++ [c])) := by
  induction ts using moreParameters.induct with
  | case1 =>
      have hComma : ¬ c.kind = .comma := by
        rw [hc]
        decide
      rw [List.nil_append, Grammar.moreParameters, Grammar.moreParameters, if_neg hComma]
      exact Closes.expect_andThen hc (by decide) fun _ h => absurd h (Nat.not_succ_le_zero 0)
  | case2 t rest ht ih =>
      rw [List.cons_append, Grammar.moreParameters, Grammar.moreParameters, if_pos ht, if_pos ht]
      refine Closes.shift (.expect_andThen hc (by decide) fun name hOne => ?_) t
      rw [List.drop_append_of_le_length hOne]
      exact ih.andThen_done _
  | case3 t rest ht =>
      rw [List.cons_append, Grammar.moreParameters, Grammar.moreParameters, if_neg ht, if_neg ht,
        ← List.cons_append]
      exact .expect_andThen hc (by decide) fun _ _ => .refl _ _

theorem Closes.parameters (ts : List Token) :
    Closes ts (parameters ts) (parameters (ts ++ [c])) := by
  rw [Grammar.parameters, Grammar.parameters]
  simp only [lookahead_concat_iff hc (by decide : Kind.rparen ≠ .rbrace) (by decide)]
  split
  · exact .refl _ _
  · refine .expect_andThen hc (by decide) fun name hOne => ?_
    rw [List.drop_append_of_le_length hOne]
    exact (Closes.moreParameters hc _).andThen_done _

/-! ## Conditionals and function literals -/

theorem Closes.conditional
    (hExpr : Closes (ts.drop 1) (expr .lowest (ts.drop 1)) (expr .lowest (ts.drop 1 ++ [c])))
    (hConsequence : ∀ n, Closes (ts.drop (3 + n)) (block (ts.drop (3 + n)))
      (block (ts.drop (3 + n) ++ [c])))
    (hAlternative : ∀ n m, Closes (ts.drop (5 + n + m)) (block (ts.drop (5 + n + m)))
      (block (ts.drop (5 + n + m) ++ [c]))) :
    Closes ts (conditional ts) (conditional (ts ++ [c])) := by
  rw [Grammar.conditional, Grammar.conditional]
  refine .expect_andThen hc (by decide) fun _ hOne => ?_
  rw [List.drop_append_of_le_length hOne]
  refine hExpr.andThen (fun condition hUsed => ?_) fun {n m} condition hn hm => ?_
  · rw [List.length_drop] at hUsed
    rw [List.drop_drop]
    generalize (expr .lowest (ts.drop 1)).used = n at hUsed ⊢
    rw [List.drop_append_of_le_length (by omega)]
    refine .expect_andThen hc (by decide) fun _ hTwo => ?_
    rw [List.length_drop] at hTwo
    rw [drop_succ_add, List.drop_append_of_le_length (by omega)]
    refine .expect_andThen hc (by decide) fun _ hThree => ?_
    rw [List.length_drop] at hThree
    rw [drop_succ_add, List.drop_append_of_le_length (by omega)]
    refine (hConsequence n).bind (fun hBody => ?_) fun {i j} hi hj => ?_
    · rw [List.length_drop] at hBody
      rw [List.drop_drop]
      generalize (block (ts.drop (3 + n))).value = consequence
      generalize (block (ts.drop (3 + n))).used = m at hBody ⊢
      rw [List.drop_append_of_le_length (by omega)]
      simp only [lookahead_concat_iff hc (by decide : Kind.elseWord ≠ .rbrace) (by decide)]
      split
      · next hElse =>
          rcases exists_drop_eq_else_cons hElse with ⟨t, ht, hRest, hBody'⟩
          have hLength := congrArg List.length hRest
          rw [List.length_drop, List.length_cons, List.length_drop] at hLength
          rw [hRest, List.drop_append_of_le_length (by omega)]
          refine Closes.shift (.expect_andThen hc (by decide) fun _ hFour => ?_) t
          rw [List.length_drop] at hFour
          rw [hBody', List.drop_append_of_le_length (by omega)]
          exact (hAlternative n m).map _
      · exact .refl _ _
    · -- no second block at the end of the input
      have hEnd : ts.drop (3 + n + i) = [] := by
        rw [← List.drop_drop]
        exact List.drop_eq_nil_of_le hi
      rw [drop_add_closed hi hj, hEnd]
      rfl
  · exact expect_andThen_end _ _ hn hm

theorem Closes.function
    (hBody : ∀ n, Closes (ts.drop (2 + n)) (block (ts.drop (2 + n)))
      (block (ts.drop (2 + n) ++ [c]))) :
    Closes ts (function ts) (function (ts ++ [c])) := by
  rw [Grammar.function, Grammar.function]
  refine .expect_andThen hc (by decide) fun _ hOne => ?_
  rw [List.drop_append_of_le_length hOne]
  refine (Closes.parameters hc _).andThen (fun names hUsed => ?_) fun {n m} names hn hm => ?_
  · rw [List.length_drop] at hUsed
    rw [List.drop_drop]
    generalize (Grammar.parameters (ts.drop 1)).used = n at hUsed ⊢
    rw [List.drop_append_of_le_length (by omega)]
    refine .expect_andThen hc (by decide) fun _ hTwo => ?_
    rw [List.length_drop] at hTwo
    rw [drop_succ_add, List.drop_append_of_le_length (by omega)]
    exact (hBody n).map _
  · exact expect_andThen_end _ _ hn hm

/-! ## Everything that is read -/

theorem errors_operand_of_rbrace (ts : List Token) : (operand c ts).errors ≠ [] := by
  rw [operand, hc]
  exact List.cons_ne_nil _ _

/-- Whatever is read, a closing brace behind all tokens ends what the end of the input ends, by the
recursion of the reader. -/
theorem closes :
    (∀ min ts, Closes ts (expr min ts) (expr min (ts ++ [c]))) ∧
    (∀ min t ts, Closes ts (exprFrom min t ts) (exprFrom min t (ts ++ [c]))) ∧
    (∀ min left ts, Closes ts (climb min left ts) (climb min left (ts ++ [c]))) ∧
    (∀ ts, Closes ts (arguments ts) (arguments (ts ++ [c]))) ∧
    (∀ ts, Closes ts (moreArguments ts) (moreArguments (ts ++ [c]))) ∧
    (∀ t ts, Closes ts (operand t ts) (operand t (ts ++ [c]))) ∧
    (∀ ts, Closes ts (function ts) (function (ts ++ [c]))) ∧
    (∀ ts, Closes ts (block ts) (block (ts ++ [c]))) ∧
    (∀ t ts, Closes ts (stmt t ts) (stmt t (ts ++ [c]))) ∧
    (∀ ts, Closes ts (conditional ts) (conditional (ts ++ [c]))) := by
  apply expr.mutual_induct
  -- expressions
  · intro min
    rw [List.nil_append, expr, expr, exprFrom]
    refine .of_errors_ne_nil (List.cons_ne_nil _ _) ?_
    rw [errors_shift, andThen, errors_bind]
    exact List.append_ne_nil_of_left_ne_nil (errors_operand_of_rbrace hc []) _
  · intro min t rest ih
    rw [List.cons_append, expr, expr]
    exact ih.shift t
  · intro min t ts hOperand hClimb
    rw [exprFrom, exprFrom]
    exact hOperand.andThen_drop (climb min) fun left => hClimb left _
  · intro min left
    have hLevel : ¬ min < Precedence.ofKind c.kind := by
      rw [hc]
      exact Nat.not_lt_zero _
    rw [List.nil_append, climb, climb, if_neg hLevel]
    exact .refl _ _
  · intro min left t rest hlt op hop hExpr hClimb
    rw [List.cons_append, climb, climb, if_pos hlt, if_pos hlt, hop]
    refine Closes.shift ?_ t
    exact hExpr.andThen_drop (fun right => climb min (.infixOp op left right)) fun right =>
      hClimb right _
  · intro min left t rest hlt hop hArguments hClimb
    rw [List.cons_append, climb, climb, if_pos hlt, if_pos hlt, hop]
    refine Closes.shift ?_ t
    exact hArguments.andThen_drop (fun es => climb min (.call left es)) fun es => hClimb es _
  · intro min left t rest hlt
    rw [List.cons_append, climb, climb, if_neg hlt, if_neg hlt]
    exact .refl _ _
  -- arguments
  · intro ts h
    have hClosed := (lookahead_concat_iff hc (by decide) (by decide) ts).2 h
    rw [arguments, arguments, if_pos h, if_pos hClosed]
    exact .refl _ _
  · intro ts h hExpr hMore
    have hOpen := mt (lookahead_concat_iff hc (by decide) (by decide) ts).1 h
    rw [arguments, arguments, if_neg h, if_neg hOpen]
    exact hExpr.andThen_drop
      (fun e rest => (moreArguments rest).andThen fun es _ => done (e :: es)) fun e =>
        (hMore _).andThen_done _
  · have hComma : ¬ c.kind = .comma := by
      rw [hc]
      decide
    rw [List.nil_append, moreArguments, moreArguments, if_neg hComma]
    exact Closes.expect_andThen hc (by decide) fun _ h => absurd h (Nat.not_succ_le_zero 0)
  · intro t rest ht hExpr hMore
    rw [List.cons_append, moreArguments, moreArguments, if_pos ht, if_pos ht]
    refine Closes.shift ?_ t
    exact hExpr.andThen_drop
      (fun e rest => (moreArguments rest).andThen fun es _ => done (e :: es)) fun e =>
        (hMore _).andThen_done _
  · intro t rest ht
    rw [List.cons_append, moreArguments, moreArguments, if_neg ht, if_neg ht, ← List.cons_append]
    exact .expect_andThen hc (by decide) fun _ _ => .refl _ _
  -- operands
  · intro t ts h
    rw [operand, operand, h]
    exact .refl _ _
  · intro t ts h n hn
    rw [operand, operand, h, hn]
    exact .refl _ _
  · intro t ts h hn
    rw [operand, operand, h, hn]
    exact .of_errors_ne_nil (List.cons_ne_nil _ _) (List.cons_ne_nil _ _)
  · intro t ts h
    rw [operand, operand, h]
    exact .refl _ _
  · intro t ts h
    rw [operand, operand, h]
    exact .refl _ _
  · intro t ts h hExpr
    rw [operand, operand, h]
    exact hExpr.andThen_done _
  · intro t ts h hExpr
    rw [operand, operand, h]
    exact hExpr.andThen_done _
  · intro t ts h hExpr
    rw [operand, operand, h]
    exact hExpr.andThen_drop
      (fun e rest => (expect .rparen rest).andThen fun _ _ => done e) fun e =>
        .expect_andThen hc (by decide) fun _ _ => .refl _ _
  · intro t ts h hConditional
    rw [operand, operand, h]
    exact hConditional
  · intro t ts h hFunction
    rw [operand, operand, h]
    exact hFunction
  · intro t ts hIdent hInt hTrue hFalse hBang hMinus hLparen hIf hFn
    rw [operand, operand]
    split
    all_goals try contradiction
    exact .of_errors_ne_nil (List.cons_ne_nil _ _) (List.cons_ne_nil _ _)
  -- function literals and blocks
  · intro ts hBlock
    exact .function hc hBlock
  · -- the brace is taken by a block that is open at the end of the input
    rw [List.nil_append, block, block, if_pos hc]
    exact fun _ => .inr ⟨Nat.le_refl _, rfl⟩
  · intro t rest h
    rw [List.cons_append, block, block, if_pos h, if_pos h]
    exact .refl _ _
  · intro t rest h hStmt hBlock
    rw [List.cons_append, block, block, if_neg h, if_neg h]
    refine Closes.shift (hStmt.bind (fun hUsed => ?_) fun hn hm => ?_) t
    · rw [List.drop_append_of_le_length hUsed]
      exact (hBlock _).map _
    · rw [drop_closed hn hm]
  -- statements
  · intro t ts h hExpr
    rw [stmt, stmt, h]
    refine .expect_andThen hc (by decide) fun name hOne => ?_
    rw [List.drop_append_of_le_length hOne]
    refine .expect_andThen hc (by decide) fun _ hTwo => ?_
    rw [List.length_drop] at hTwo
    rw [List.drop_drop, List.drop_append_of_le_length (by omega)]
    refine hExpr.andThen (fun value hUsed => ?_) fun value hn hm => ?_
    · rw [List.length_drop] at hUsed
      rw [List.drop_drop, List.drop_append_of_le_length (by omega)]
      exact .ended hc _ _
    · rw [drop_add_closed hn hm]
  · intro t ts h hEnds
    rw [stmt, stmt, h]
    simp only [endsReturn_concat hc, hEnds, if_true]
    exact .ended hc _ _
  · intro t ts h hEnds hExpr
    rw [stmt, stmt, h]
    simp only [endsReturn_concat hc, hEnds, Bool.false_eq_true, if_false]
    exact hExpr.andThen_drop (fun value => ended (.ret (some value))) fun value => .ended hc _ _
  · intro t ts hLet hReturn hExpr
    rw [stmt_of_ne hLet hReturn, stmt_of_ne hLet hReturn]
    exact hExpr.andThen_drop (fun value => ended (.expr value)) fun value => .ended hc _ _
  -- conditionals
  · intro ts hExpr hConsequence hAlternative
    exact .conditional hc hExpr hConsequence hAlternative

theorem closesStmt (t : Token) (ts : List Token) : Closes ts (stmt t ts) (stmt t (ts ++ [c])) :=
  (closes hc).2.2.2.2.2.2.2.2.1 t ts

end

/-! ## Programs -/

section

variable {ts : List Token} {c : Token}

/-- The statements behind a statement that has used the brace are none; so the program is the same
if the ones behind a statement that has not used it are. -/
theorem program_concat_of_stmt {t : Token}
    (hStmt : stmt t (ts ++ [c]) = stmt t ts ∨
      (ts.length ≤ (stmt t ts).used ∧ stmt t (ts ++ [c]) = (stmt t ts).shift))
    (hRest : stmt t (ts ++ [c]) = stmt t ts →
      program (ts.drop (stmt t ts).used ++ [c]) = (program (ts.drop (stmt t ts).used)).shift) :
    program (t :: ts ++ [c]) = (program (t :: ts)).shift := by
  rw [List.cons_append, program, program]
  rcases hStmt with hSame | ⟨hAll, hMore⟩
  · rw [hSame]
    simp only [Reading.bind, List.drop_append_of_le_length (used_stmt_le t ts), hRest hSame]
    rfl
  · rw [hMore]
    simp only [Reading.bind, value_shift, used_shift, errors_shift,
      drop_closed hAll (Nat.lt_succ_of_le hAll)]
    simp only [Reading.shift, Nat.add_right_comm]

/-- A closing brace behind a program is no defect only if it closes a block, and then it changes
nothing. -/
theorem program_concat_of_errors (hc : c.kind = .rbrace)
    (hErrors : (program (ts ++ [c])).errors = []) :
    program (ts ++ [c]) = (program ts).shift := by
  induction ts using program.induct with
  | case1 =>
      rw [List.nil_append, program, errors_shift, errors_bind, List.append_eq_nil_iff] at hErrors
      have hEnds : endsList c.kind = true := by
        rw [hc]
        rfl
      exact absurd hErrors.1 (errors_stmt_ne_nil [] hEnds)
  | case2 t rest ih =>
      have hParts := hErrors
      rw [List.cons_append, program, errors_shift, errors_bind, errors_map,
        List.append_eq_nil_iff] at hParts
      refine program_concat_of_stmt (closesStmt hc t rest (.inr hParts.1)) fun hSame => ih _ ?_
      rw [hSame, List.drop_append_of_le_length (used_stmt_le t rest)] at hParts
      exact hParts.2

/-- `k` of the opening braces are not closed. -/
def Unclosed (k : Nat) (ts : List Token) : Prop :=
  (ts.map Token.kind).count .lbrace = (ts.map Token.kind).count .rbrace + k

theorem Unclosed.of_append {k : Nat} {us : List Token} (h : Unclosed k (ts ++ us))
    (hts : Balanced ts) : Unclosed k us := by
  unfold Unclosed Balanced at *
  simp only [List.map_append, List.count_append] at h
  omega

theorem Unclosed.concat {k : Nat} (h : Unclosed (k + 1) ts) (hc : c.kind = .rbrace) :
    Unclosed k (ts ++ [c]) := by
  have hOpening : [Kind.rbrace].count .lbrace = 0 := by decide
  have hClosing : [Kind.rbrace].count .rbrace = 1 := by decide
  unfold Unclosed at *
  simp only [List.map_append, List.count_append, List.map_cons, List.map_nil, hc, hOpening,
    hClosing]
  omega

/-- A brace behind a program with an open block closes it. -/
theorem program_concat {k : Nat} (hc : c.kind = .rbrace) (hErrors : (program ts).errors = [])
    (hOpen : Unclosed (k + 1) ts) : program (ts ++ [c]) = (program ts).shift := by
  induction ts using program.induct with
  | case1 => exact absurd hOpen (by simp [Unclosed])
  | case2 t rest ih =>
      rw [program, errors_shift, errors_bind, errors_map, List.append_eq_nil_iff] at hErrors
      refine program_concat_of_stmt (closesStmt hc t rest (.inl hErrors.1)) fun hSame => ?_
      -- the brace stands behind the statement, so the open block is behind it too
      refine ih _ hErrors.2 ?_
      have hUsed := used_stmt_le t rest
      have hTaken : (stmt t (rest ++ [c])).errors = [] →
          (rest ++ [c]).drop (stmt t (rest ++ [c])).used ≠ [] →
          Balanced (t :: (rest ++ [c]).take (stmt t (rest ++ [c])).used) := balanced_take_stmt
      rw [hSame, List.drop_append_of_le_length hUsed, List.take_append_of_le_length hUsed] at hTaken
      have hBalanced : Balanced (t :: rest.take (stmt t rest).used) :=
        hTaken hErrors.1 (List.append_ne_nil_of_right_ne_nil _ (List.cons_ne_nil _ _))
      refine Unclosed.of_append ?_ hBalanced
      rw [List.cons_append, List.take_append_drop]
      exact hOpen

/-- Any number of braces may stand behind a program that has as many open blocks. -/
theorem program_append_replicate {k j : Nat} (hc : c.kind = .rbrace)
    (hErrors : (program ts).errors = []) (hOpen : Unclosed k ts) (hj : j ≤ k) :
    (program (ts ++ List.replicate j c)).value = (program ts).value ∧
      (program (ts ++ List.replicate j c)).errors = [] := by
  induction j generalizing ts k with
  | zero =>
      rw [List.replicate_zero, List.append_nil]
      exact ⟨rfl, hErrors⟩
  | succ j ih =>
      cases k with
      | zero => exact absurd hj (Nat.not_succ_le_zero j)
      | succ k =>
          have hOne := program_concat hc hErrors hOpen
          have hNext : (program (ts ++ [c])).errors = [] := by
            rw [hOne]
            exact hErrors
          have hRest := ih hNext (hOpen.concat hc) (Nat.le_of_succ_le_succ hj)
          rw [hOne] at hRest
          rw [List.replicate_succ, List.append_cons]
          exact hRest

end
end Grammar

/-! ## Texts in front of a closing brace -/

namespace Token

theorem goesOn_brace (k : Kind) : goesOn k '}' = false := by
  cases k <;> decide

/-- A closing brace is a token wherever it stands. -/
theorem lexemes_append_brace (a b : List Char) :
    lexemes (a ++ '}' :: b) = lexemes a ++ closing :: lexemes b := by
  have hBrace : lexemes ('}' :: b) = closing :: lexemes b := lexemes_of_next? rfl
  rw [← hBrace, lexemes_append_iff]
  rintro ⟨t, c, -, hc, hGoes⟩
  cases hc
  rw [goesOn_brace] at hGoes
  cases hGoes

theorem lexemes_append_braces (a : List Char) (j : Nat) :
    lexemes (a ++ List.replicate j '}') = lexemes a ++ List.replicate j closing := by
  induction j generalizing a with
  | zero => rw [List.replicate_zero, List.replicate_zero, List.append_nil, List.append_nil]
  | succ j ih =>
      have hOne : lexemes (a ++ ['}']) = lexemes a ++ [closing] := by
        rw [lexemes_append_brace, lexemes_nil]
      rw [List.replicate_succ, List.append_cons, ih, hOne, List.replicate_succ, ← List.append_cons]

/-- The last token of a text, with only blanks behind it. -/
theorem Segmented.exists_last {cs : List Char} {ts : List Token} {t : Token} (h : Segmented cs ts)
    (hLast : ts.getLast? = some t) :
    ∃ a gap, cs = a ++ (t.literal.toList ++ gap) ∧ (∀ c ∈ gap, isBlank c = true) ∧
      Demanded t gap := by
  induction h with
  | nil => cases hLast
  | @cons gap rest u us hGap hu hRest ih =>
      cases hRest with
      | nil hBlanks =>
          cases hLast
          exact ⟨gap, rest, rfl, hBlanks, hu⟩
      | cons =>
          rw [List.getLast?_cons_cons] at hLast
          rcases ih hLast with ⟨a, gap', hText, hBlanks, ht⟩
          refine ⟨gap ++ u.literal.toList ++ a, gap', ?_, hBlanks, ht⟩
          rw [hText]
          simp only [List.append_assoc]

theorem Demanded.eq_closing {t : Token} {rest : List Char} (h : Demanded t rest)
    (ht : t.kind = .rbrace) : t = closing := by
  have hKeywords : ∀ entry ∈ Kind.keywords, entry.2 ≠ .rbrace := by decide
  have hJoining : ∀ ks ∈ joiningKinds, ks.1 ≠ .rbrace ∧ ks.2 ≠ .rbrace := by decide
  cases h with
  | number => cases ht
  | reserved _ _ _ hk => exact absurd ht (hKeywords _ hk)
  | name => cases ht
  | mark hk =>
      cases ht
      rfl
  | joined hk => exact absurd ht (hJoining _ hk).2
  | alone hk _ => exact absurd ht (hJoining _ hk).1
  | stray => cases ht

end Token

/-! ## Source texts -/

section

variable {source : String}

theorem parse_of_program_eq {a b : String}
    (hValue : (Grammar.program (Token.lexemes a.toList)).value =
      (Grammar.program (Token.lexemes b.toList)).value)
    (hErrors : (Grammar.program (Token.lexemes a.toList)).errors =
      (Grammar.program (Token.lexemes b.toList)).errors) : parse a = parse b := by
  simp only [parse, Parsed.ofTokens, hValue, hErrors]

/-- Braces behind a text close blocks that are open at its end, and add nothing. -/
theorem parse_append_braces {j k : Nat} (h : (parse source).errors = [])
    (hOpen : Grammar.Unclosed k (Token.lexemes source.toList)) (hj : j ≤ k) :
    parse (source ++ String.ofList (List.replicate j '}')) = parse source := by
  have hErrors : (Grammar.program (Token.lexemes source.toList)).errors = [] :=
    List.map_eq_nil_iff.1 h
  have hClosed := Grammar.program_append_replicate (c := .closing) rfl hErrors hOpen hj
  refine parse_of_program_eq ?_ ?_ <;>
    rw [String.toList_append, String.toList_ofList, Token.lexemes_append_braces]
  · exact hClosed.1
  · exact hClosed.2.trans hErrors.symm

/-- A brace behind all other tokens may be left out. -/
theorem parse_of_append_brace {a gap : String} (h : (parse (a ++ "\x7d" ++ gap)).errors = [])
    (hGap : ∀ c ∈ gap.toList, Token.isBlank c = true) :
    parse (a ++ gap) = parse (a ++ "\x7d" ++ gap) := by
  have hWith : Token.lexemes (a ++ "\x7d" ++ gap).toList =
      Token.lexemes a.toList ++ [.closing] := by
    have hText : (a ++ "\x7d" ++ gap).toList = a.toList ++ '}' :: gap.toList := by
      simp
    rw [hText, Token.lexemes_append_brace, Token.lexemes_of_segmented (.nil hGap)]
  have hWithout : Token.lexemes (a ++ gap).toList = Token.lexemes a.toList := by
    rw [String.toList_append, Token.lexemes_append_blanks hGap]
  have hErrors : (Grammar.program (Token.lexemes a.toList ++ [.closing])).errors = [] := by
    rw [← hWith]
    exact List.map_eq_nil_iff.1 h
  have hSame := Grammar.program_concat_of_errors (c := .closing) rfl hErrors
  refine parse_of_program_eq ?_ ?_ <;> rw [hWith, hWithout, hSame] <;> rfl

theorem exists_append_brace
    (hLast : (Token.lexemes source.toList).getLast?.map Token.kind = some .rbrace) :
    ∃ a gap : String, source = a ++ "\x7d" ++ gap ∧ ∀ c ∈ gap.toList, Token.isBlank c = true := by
  rcases Option.map_eq_some_iff.1 hLast with ⟨t, ht, hKind⟩
  rcases (Token.segmented_lexemes source.toList).exists_last ht with
    ⟨a, gap, hText, hGap, hDemanded⟩
  rw [hDemanded.eq_closing hKind] at hText
  refine ⟨String.ofList a, String.ofList gap, String.toList_injective ?_, ?_⟩
  · rw [hText]
    simp [Token.closing, Token.ofChars]
  · rwa [String.toList_ofList]

/-- The end of the input ends blocks as closing braces do.  Behind a text without syntax errors as
many braces as there are open blocks, or fewer, change nothing; and if the last token is a closing
brace, the text without it is read as the same program. -/
theorem parse_closing (h : (parse source).errors = []) :
    (∀ j k : Nat,
      ((Token.lexemes source.toList).map Token.kind).count .lbrace =
        ((Token.lexemes source.toList).map Token.kind).count .rbrace + k → j ≤ k →
      parse (source ++ String.ofList (List.replicate j '}')) = parse source) ∧
    ((Token.lexemes source.toList).getLast?.map Token.kind = some .rbrace →
      ∃ a gap : String, source = a ++ "\x7d" ++ gap ∧ ∀ c ∈ gap.toList, Token.isBlank c = true) ∧
    ∀ a gap : String, source = a ++ "\x7d" ++ gap → (∀ c ∈ gap.toList, Token.isBlank c = true) →
      parse (a ++ gap) = parse source := by
  refine ⟨fun j k hOpen hj => parse_append_braces h hOpen hj, exists_append_brace, ?_⟩
  rintro a gap rfl hGap
  exact parse_of_append_brace h hGap

/-- A text that ends inside two blocks, with one brace or both behind it, and one whose only block
is closed. -/
theorem parse_closing_nested :
    parse ("let f = fn(x) \x7b if (x) \x7b return" ++ String.ofList (List.replicate 1 '}')) =
        parse "let f = fn(x) \x7b if (x) \x7b return" ∧
      parse ("let f = fn(x) \x7b if (x) \x7b return" ++ String.ofList (List.replicate 2 '}')) =
        parse "let f = fn(x) \x7b if (x) \x7b return" ∧
      parse ("if (a) \x7b b " ++ "\n") = parse ("if (a) \x7b b " ++ "\x7d" ++ "\n") := by
  have hOpen : ((Token.lexemes "let f = fn(x) \x7b if (x) \x7b return".toList).map
      Token.kind).count .lbrace =
        ((Token.lexemes "let f = fn(x) \x7b if (x) \x7b return".toList).map
          Token.kind).count .rbrace + 2 := by
    decide +kernel
  have hParses : (parse "let f = fn(x) \x7b if (x) \x7b return").errors = [] := by
    with_unfolding_all rfl
  have hClosed : (parse ("if (a) \x7b b " ++ "\x7d" ++ "\n")).errors = [] := by
    with_unfolding_all rfl
  have hBlank : ∀ c ∈ "\n".toList, Token.isBlank c = true := List.all_eq_true.1 (by decide)
  exact ⟨(parse_closing hParses).1 1 2 hOpen (by decide),
    (parse_closing hParses).1 2 2 hOpen (by decide), (parse_closing hClosed).2.2 _ _ rfl hBlank⟩

end

end MonkeyLang
