import MonkeyLang.Proofs.Grammar.Additive

/-!
# Soundness — what is read without a defect is derived

A token list that is read without a defect is a way to write the program that was read.  No token
is left out of the derivation and none is used twice.  The only liberty is at the end of the
input, where blocks may still be open: the derivation is of the tokens with one closing brace
more for each of them (`Completes`).

The statement is carried through combined readings (`Sound.bind`, `Sound.andThen`): a reading
without a defect is one whose parts are without a defect.
-/

namespace MonkeyLang

/-- The token of a closing brace. -/
def Token.closing : Token :=
  .ofChars .rbrace ['}']

namespace Reading

variable {α β : Type}

/-! ## Readings without a defect -/

/-- `vs` are the tokens `us`, which stand in front of `rest`.  If nothing is left behind them,
closing braces may have been added. -/
def Completes (us rest vs : List Token) : Prop :=
  ∃ k, (k = 0 ∨ rest = []) ∧ vs = us ++ List.replicate k .closing

theorem Completes.refl (us rest : List Token) : Completes us rest us :=
  ⟨0, .inl rfl, by simp⟩

theorem Completes.append {us us' rest vs vs' : List Token} (h : Completes us (us' ++ rest) vs)
    (h' : Completes us' rest vs') : Completes (us ++ us') rest (vs ++ vs') := by
  rcases h with ⟨k, hk, rfl⟩
  rcases h' with ⟨k', hk', rfl⟩
  rcases hk with rfl | hNil
  · exact ⟨k', hk', by simp⟩
  · -- nothing stands behind the first part, so the second one consists of added braces
    rcases List.append_eq_nil_iff.1 hNil with ⟨rfl, rfl⟩
    refine ⟨k + k', .inr rfl, ?_⟩
    simp [List.replicate_append_replicate]

/-- If the reading of `ts` noticed no defect, then what was read, the tokens it was read from,
completed, and the tokens left behind them satisfy `P`. -/
def Sound (r : Reading α) (ts : List Token) (P : α → List Token → List Token → Prop) : Prop :=
  r.errors = [] → r.used ≤ ts.length ∧
    ∃ vs, Completes (ts.take r.used) (ts.drop r.used) vs ∧ P r.value vs (ts.drop r.used)

/-- An attempt came to a value, which satisfies `P`. -/
def Yields (P : α → List Token → List Token → Prop) :
    Option α → List Token → List Token → Prop
  | some a, vs, rest => P a vs rest
  | none, _, _ => False

theorem Sound.imp {r : Reading α} {ts : List Token} {P Q : α → List Token → List Token → Prop}
    (hr : Sound r ts P) (h : ∀ a vs rest, P a vs rest → Q a vs rest) : Sound r ts Q := by
  intro hErrors
  rcases hr hErrors with ⟨hUsed, vs, hComplete, hP⟩
  exact ⟨hUsed, vs, hComplete, h _ _ _ hP⟩

theorem Yields.imp {P Q : α → List Token → List Token → Prop}
    (h : ∀ a vs rest, P a vs rest → Q a vs rest) :
    ∀ o vs rest, Yields P o vs rest → Yields Q o vs rest := by
  intro o vs rest hP
  cases o with
  | none => exact hP
  | some a => exact h a vs rest hP

/-- A reading that takes no token. -/
theorem Sound.pure {a : α} {ts : List Token} {P : α → List Token → List Token → Prop}
    (h : P a [] ts) : Sound (Reading.pure a) ts P :=
  fun _ => ⟨Nat.zero_le _, [], .refl _ _, h⟩

/-- A reading of a single token. -/
theorem Sound.single {a : α} {t : Token} {ts : List Token}
    {P : α → List Token → List Token → Prop} (h : P a [t] ts) :
    Sound ⟨a, [], 1⟩ (t :: ts) P :=
  fun _ => ⟨Nat.succ_le_succ (Nat.zero_le _), [t], .refl _ _, h⟩

theorem Sound.fail {error : SyntaxError} {unread : Nat} {ts : List Token}
    {P : Option α → List Token → List Token → Prop} : Sound (fail error unread) ts P := by
  intro h
  cases h

theorem Sound.bind {r : Reading α} {f : α → Nat → Reading β} {ts : List Token}
    {P : α → List Token → List Token → Prop} {Q : β → List Token → List Token → Prop}
    (hr : Sound r ts P)
    (hf : ∀ vs, P r.value vs (ts.drop r.used) →
      Sound (f r.value r.used) (ts.drop r.used) fun b us rest => Q b (vs ++ us) rest) :
    Sound (r.bind f) ts Q := by
  intro hErrors
  rw [errors_bind, List.append_eq_nil_iff] at hErrors
  -- neither part noticed a defect, and the second one starts where the first one stopped
  rcases hr hErrors.1 with ⟨hUsed, vs, hComplete, hP⟩
  rcases hf vs hP hErrors.2 with ⟨hUsed', us, hComplete', hQ⟩
  rw [List.length_drop] at hUsed'
  rw [List.drop_drop] at hComplete' hQ
  refine ⟨?_, vs ++ us, ?_, ?_⟩
  · rw [used_bind]
    omega
  · rw [used_bind, List.take_add]
    refine Completes.append ?_ hComplete'
    rwa [← List.drop_drop, List.take_append_drop]
  · rwa [used_bind, value_bind]

theorem Sound.map {r : Reading α} {f : α → β} {ts : List Token}
    {P : α → List Token → List Token → Prop} {Q : β → List Token → List Token → Prop}
    (hr : Sound r ts P) (hf : ∀ vs rest, P r.value vs rest → Q (f r.value) vs rest) :
    Sound (r.map f) ts Q := by
  intro hErrors
  rcases hr hErrors with ⟨hUsed, vs, hComplete, hP⟩
  exact ⟨hUsed, vs, hComplete, hf _ _ hP⟩

theorem Sound.shift {r : Reading α} {t : Token} {ts : List Token}
    {P : α → List Token → List Token → Prop}
    (hr : Sound r ts fun a vs rest => P a (t :: vs) rest) : Sound r.shift (t :: ts) P := by
  intro hErrors
  rcases hr hErrors with ⟨hUsed, vs, hComplete, hP⟩
  rcases hComplete with ⟨k, hk, rfl⟩
  exact ⟨Nat.succ_le_succ hUsed, _, ⟨k, hk, rfl⟩, hP⟩

/-- A reading that always comes to a value, and an attempt behind it. -/
theorem Sound.bind_attempt {r : Reading α} {f : α → Nat → Attempt β} {ts : List Token}
    {P : α → List Token → List Token → Prop} {Q : β → List Token → List Token → Prop}
    (hr : Sound r ts P)
    (hf : ∀ vs, P r.value vs (ts.drop r.used) →
      Sound (f r.value r.used) (ts.drop r.used) (Yields fun b us rest => Q b (vs ++ us) rest)) :
    Sound (r.bind f) ts (Yields Q) := by
  refine Sound.bind hr fun vs hP => (hf vs hP).imp fun b us rest hQ => ?_
  cases b with
  | none => exact hQ
  | some b => exact hQ

/-- An attempt with one more token in front of it. -/
theorem Sound.step {r : Attempt α} {t : Token} {ts : List Token}
    {P : α → List Token → List Token → Prop}
    (hr : Sound r ts (Yields fun a vs rest => P a (t :: vs) rest)) :
    Sound r.shift (t :: ts) (Yields P) := by
  refine Sound.shift (hr.imp fun o vs rest hP => ?_)
  cases o with
  | none => exact hP
  | some a => exact hP

theorem Sound.andThen {r : Attempt α} {f : α → Nat → Attempt β} {ts : List Token}
    {P : α → List Token → List Token → Prop} {Q : β → List Token → List Token → Prop}
    (hr : Sound r ts (Yields P))
    (hf : ∀ a vs, P a vs (ts.drop r.used) →
      Sound (f a r.used) (ts.drop r.used) (Yields fun b us rest => Q b (vs ++ us) rest)) :
    Sound (r.andThen f) ts (Yields Q) := by
  refine Sound.bind_attempt hr fun vs hP => ?_
  cases hValue : r.value with
  | none =>
      rw [hValue] at hP
      exact hP.elim
  | some a =>
      rw [hValue] at hP
      exact hf a vs hP

/-- Behind a token that was expected and found. -/
theorem Sound.expect_andThen {k : Kind} {f : Token → Nat → Attempt β} {ts : List Token}
    {Q : β → List Token → List Token → Prop}
    (hf : ∀ t, t.kind = k →
      Sound (f t 1) (ts.drop 1) (Yields fun b us rest => Q b (t :: us) rest)) :
    Sound ((expect k ts).andThen f) ts (Yields Q) := by
  cases ts with
  | nil =>
      intro hErrors
      cases hErrors
  | cons t ts =>
      by_cases ht : t.kind = k
      · rw [expect_of_eq ht]
        have hSingle : Sound (⟨some t, [], 1⟩ : Attempt Token) (t :: ts)
            (Yields fun u vs _ => u.kind = k ∧ vs = [u]) := Sound.single ⟨ht, rfl⟩
        refine Sound.andThen hSingle fun u vs hu => ?_
        rcases hu with ⟨hu, rfl⟩
        exact hf u hu
      · -- an unexpected token is a defect
        rw [expect_of_ne ht]
        intro hErrors
        cases hErrors

end Reading

/-! ## Levels of what is read -/

/-- The level that the root of what `expr min` reads has at least.  An operand is read whole
whatever `min` is, so no level above that of an operator in front is promised. -/
def Precedence.floor : Precedence → Precedence
  | .lowest => .equals
  | .equals => .lessGreater
  | .lessGreater => .sum
  | .sum => .product
  | _ => .unary

theorem Precedence.floor_le_of_lt {p q : Precedence} (h : p < q) : p.floor ≤ q := by
  cases p <;> cases q <;> first | decide | exact absurd h (by decide)

theorem Precedence.floor_le_unary (p : Precedence) : p.floor ≤ unary := by
  cases p <;> decide

theorem InfixOp.lt_floor (op : InfixOp) : op.precedence < op.precedence.floor := by
  cases op <;> decide

namespace Grammar

open Reading

/-! ## What is read is derived -/

/-- An expression read with `min`: nothing that binds tighter stands behind it. -/
def ExprRead (min : Precedence) (e : Expr) (vs rest : List Token) : Prop :=
  Derives .optional (.expr min.floor e) vs ∧ Precedence.ofKind (lookahead rest) ≤ min

/-- An operand, which may stand to the left of whatever follows it. -/
def OperandRead (e : Expr) (vs rest : List Token) : Prop :=
  ∃ q, Derives .optional (.expr q e) vs ∧ .unary ≤ q ∧ Precedence.ofKind (lookahead rest) ≤ q

/-- A phrase with the bracket or brace of kind `k` that closes it. -/
def ClosedBy (k : Kind) (x : Phrase) (vs : List Token) : Prop :=
  ∃ us c, vs = us ++ [c] ∧ c.kind = k ∧ Derives .optional x us

/-- Neither a closing brace nor the end of the input starts a statement. -/
def endsList (k : Kind) : Bool :=
  k = .rbrace || k = .eof

/-- A statement up to the semicolon that may end it. -/
def sentence (t : Token) (ts : List Token) : Attempt Stmt :=
  match t.kind with
  | .letWord =>
      (expect .ident ts).andThen fun name _ =>
        (expect .assign (ts.drop 1)).andThen fun _ _ =>
          (expr .lowest (ts.drop 2)).andThen fun value _ => done (.bind name.literal value)
  | .returnWord =>
      if endsReturn (lookahead ts) then done (.ret none)
      else (expr .lowest ts).andThen fun value _ => done (.ret (some value))
  | _ => (exprFrom .lowest t ts).andThen fun value _ => done (.expr value)

theorem sentence_of_ne {t : Token} (hLet : t.kind ≠ .letWord) (hReturn : t.kind ≠ .returnWord)
    (ts : List Token) :
    sentence t ts = (exprFrom .lowest t ts).andThen fun value _ => done (.expr value) := by
  rw [sentence]
  split
  · contradiction
  · contradiction
  · rfl

theorem stmt_of_ne {t : Token} (hLet : t.kind ≠ .letWord) (hReturn : t.kind ≠ .returnWord)
    (ts : List Token) :
    stmt t ts =
      (exprFrom .lowest t ts).andThen fun value n => ended (.expr value) (ts.drop n) := by
  rw [stmt]
  split
  · contradiction
  · contradiction
  · rfl

theorem stmt_eq (t : Token) (ts : List Token) :
    stmt t ts = (sentence t ts).andThen fun s n => ended s (ts.drop n) := by
  by_cases hLet : t.kind = .letWord
  · rw [stmt, sentence, hLet]
    simp only [andThen_andThen]
    refine expect_andThen_congr fun name => ?_
    refine expect_andThen_congr fun _ => ?_
    simp only [done_andThen, Nat.add_zero, ← Nat.add_assoc]
  by_cases hReturn : t.kind = .returnWord
  · rw [stmt, sentence, hReturn]
    simp only
    split
    · rw [done_andThen, List.drop_zero]
    · simp only [andThen_andThen, done_andThen, Nat.add_zero]
  rw [stmt_of_ne hLet hReturn, sentence_of_ne hLet hReturn]
  simp only [andThen_andThen, done_andThen, Nat.add_zero]

/-- A statement as it is read: a `return` has no value only where none can stand. -/
def SentenceRead (s : Stmt) (vs rest : List Token) : Prop :=
  Derives .optional (.stmt s) vs ∧ (s = .ret none → endsReturn (lookahead rest) = true)

/-- A statement with the semicolon that may stand behind it. -/
def StmtRead (s : Stmt) (vs rest : List Token) : Prop :=
  ∃ us, Derives .optional (.stmt s) us ∧
    ((∃ t, t.kind = .semicolon ∧ vs = us ++ [t]) ∨
      (vs = us ∧ (s = .ret none → endsList (lookahead rest) = true)))

def SoundExpr (min : Precedence) (ts : List Token) : Prop :=
  Sound (expr min ts) ts (Yields (ExprRead min))

def SoundExprFrom (min : Precedence) (t : Token) (ts : List Token) : Prop :=
  Sound (exprFrom min t ts) ts (Yields fun e vs rest => ExprRead min e (t :: vs) rest)

def SoundClimb (min : Precedence) (left : Expr) (ts : List Token) : Prop :=
  ∀ q us, Derives .optional (.expr q left) us → min.floor ≤ q →
    Precedence.ofKind (lookahead ts) ≤ q →
    Sound (climb min left ts) ts (Yields fun e vs rest => ExprRead min e (us ++ vs) rest)

def SoundArguments (ts : List Token) : Prop :=
  Sound (arguments ts) ts (Yields fun es vs _ => ClosedBy .rparen (.arguments es) vs)

def SoundMoreArguments (ts : List Token) : Prop :=
  Sound (moreArguments ts) ts (Yields fun es vs _ => ClosedBy .rparen (.moreArguments es) vs)

def SoundParameters (ts : List Token) : Prop :=
  Sound (parameters ts) ts (Yields fun ns vs _ => ClosedBy .rparen (.parameters ns) vs)

def SoundMoreParameters (ts : List Token) : Prop :=
  Sound (moreParameters ts) ts (Yields fun ns vs _ => ClosedBy .rparen (.moreParameters ns) vs)

def SoundOperand (t : Token) (ts : List Token) : Prop :=
  Sound (operand t ts) ts (Yields fun e vs rest => OperandRead e (t :: vs) rest)

/-- A conditional or a function literal behind its keyword `t`. -/
def SoundKeyword (k : Kind) (r : List Token → Attempt Expr) (ts : List Token) : Prop :=
  ∀ t, t.kind = k →
    Sound (r ts) ts (Yields fun e vs _ => ∀ p, Derives .optional (.expr p e) (t :: vs))

def SoundBlock (ts : List Token) : Prop :=
  Sound (block ts) ts fun ss vs _ =>
    ClosedBy .rbrace (.stmts ss) vs ∧ (endsList (lookahead ts) = true → ss = [])

def SoundProgram (ts : List Token) : Prop :=
  Sound (program ts) ts fun ss vs _ =>
    Derives .optional (.stmts ss) vs ∧ (endsList (lookahead ts) = true → ss = [])

def SoundSentence (t : Token) (ts : List Token) : Prop :=
  Sound (sentence t ts) ts (Yields fun s vs rest => SentenceRead s (t :: vs) rest)

def SoundStmt (t : Token) (ts : List Token) : Prop :=
  Sound (stmt t ts) ts (Yields fun s vs rest => StmtRead s (t :: vs) rest)

/-! ## Expressions -/

theorem SoundExpr.cons {min : Precedence} {t : Token} {rest : List Token}
    (h : SoundExprFrom min t rest) : SoundExpr min (t :: rest) := by
  unfold SoundExpr
  rw [expr]
  exact Sound.step h

theorem SoundExprFrom.of_operand {min : Precedence} {t : Token} {ts : List Token}
    (hOperand : SoundOperand t ts) (hClimb : ∀ left n, SoundClimb min left (ts.drop n)) :
    SoundExprFrom min t ts := by
  unfold SoundExprFrom
  rw [exprFrom]
  refine Sound.andThen hOperand fun left vs hLeft => ?_
  rcases hLeft with ⟨q, hq, hUnary, hNext⟩
  exact hClimb left _ q (t :: vs) hq (Nat.le_trans min.floor_le_unary hUnary) hNext

theorem SoundClimb.of_le {min : Precedence} {left : Expr} {ts : List Token}
    (h : Precedence.ofKind (lookahead ts) ≤ min) (hStop : climb min left ts = done left) :
    SoundClimb min left ts := by
  intro q us hLeft hFloor _
  rw [hStop]
  refine Sound.pure ⟨?_, h⟩
  rw [List.append_nil]
  exact hLeft.weaken hFloor

/-- The left operand binds as tight as the operator that follows it; the right one binds tighter,
and so nothing behind it can belong to it. -/
theorem SoundClimb.infixOp {min : Precedence} {left : Expr} {t : Token} {rest : List Token}
    {op : InfixOp} (hlt : min < Precedence.ofKind t.kind) (hop : InfixOp.ofKind? t.kind = some op)
    (hExpr : SoundExpr (Precedence.ofKind t.kind) rest)
    (hClimb : ∀ right n, SoundClimb min (.infixOp op left right) (rest.drop n)) :
    SoundClimb min left (t :: rest) := by
  intro q us hLeft _ hNext
  have hKind : Precedence.ofKind t.kind = op.precedence := InfixOp.precedence_of_ofKind? hop
  have hLevel : Precedence.ofKind t.kind ≤ q := hNext
  rw [climb, if_pos hlt, hop]
  rw [hKind] at hlt hExpr hLevel ⊢
  refine Sound.step (Sound.andThen hExpr fun right vs hRight => ?_)
  -- what was read so far is the left operand of whatever comes next
  have hNode : Derives .optional (.expr op.precedence (.infixOp op left right))
      (us ++ t :: vs) :=
    .infixOp (Nat.le_refl _) (hLeft.weaken hLevel) (InfixOp.kind_of_ofKind? hop) op.lt_floor
      hRight.1
  have hRest := hClimb right _ op.precedence (us ++ t :: vs) hNode
    (Precedence.floor_le_of_lt hlt) hRight.2
  simpa only [List.append_assoc, List.cons_append] using hRest

theorem SoundClimb.call {min : Precedence} {left : Expr} {t : Token} {rest : List Token}
    (hlt : min < Precedence.ofKind t.kind) (hop : InfixOp.ofKind? t.kind = none)
    (hArguments : SoundArguments rest)
    (hClimb : ∀ es n, SoundClimb min (.call left es) (rest.drop n)) :
    SoundClimb min left (t :: rest) := by
  intro q us hLeft _ hNext
  have hOpen : t.kind = .lparen := Precedence.eq_lparen_of_lt hlt hop
  have hLevel : Precedence.ofKind t.kind ≤ q := hNext
  rw [hOpen] at hLevel
  have hTight : min.floor ≤ .call := Precedence.le_call _
  rw [climb, if_pos hlt, hop]
  refine Sound.step (Sound.andThen hArguments fun es vs hes => ?_)
  rcases hes with ⟨vs, c, rfl, hc, hes⟩
  have hNode : Derives .optional (.expr .call (.call left es)) (us ++ t :: (vs ++ [c])) :=
    .call (hLeft.weaken hLevel) hOpen hes hc
  have hRest := hClimb es (arguments rest).used .call (us ++ t :: (vs ++ [c])) hNode hTight
    (Precedence.le_call (Precedence.ofKind (lookahead (rest.drop (arguments rest).used))))
  simpa only [List.append_assoc, List.cons_append] using hRest

/-! ## Lists between brackets -/

theorem SoundArguments.nil {ts : List Token} (h : lookahead ts = .rparen) :
    SoundArguments ts := by
  unfold SoundArguments
  rw [arguments, if_pos h]
  cases ts with
  | nil => cases h
  | cons c rest => exact Sound.single ⟨[], c, rfl, h, .noArguments⟩

theorem SoundArguments.cons {ts : List Token} (h : lookahead ts ≠ .rparen)
    (hExpr : SoundExpr .lowest ts) (hMore : ∀ n, SoundMoreArguments (ts.drop n)) :
    SoundArguments ts := by
  unfold SoundArguments
  rw [arguments, if_neg h]
  refine Sound.andThen hExpr fun e vs he => ?_
  refine Sound.andThen (hMore _) fun es us hes => ?_
  rcases hes with ⟨us, c, rfl, hc, hes⟩
  refine Sound.pure ⟨vs ++ us, c, ?_, hc, .arguments (he.1.weaken (Precedence.lowest_le _)) hes⟩
  simp

theorem SoundMoreArguments.nil {ts : List Token}
    (h : moreArguments ts = (expect .rparen ts).andThen fun _ _ => done []) :
    SoundMoreArguments ts := by
  unfold SoundMoreArguments
  rw [h]
  exact Sound.expect_andThen fun c hc => Sound.pure ⟨[], c, rfl, hc, .noMoreArguments⟩

theorem SoundMoreArguments.cons {t : Token} {rest : List Token} (ht : t.kind = .comma)
    (hExpr : SoundExpr .lowest rest) (hMore : ∀ n, SoundMoreArguments (rest.drop n)) :
    SoundMoreArguments (t :: rest) := by
  unfold SoundMoreArguments
  rw [moreArguments, if_pos ht]
  refine Sound.step (Sound.andThen hExpr fun e vs he => ?_)
  refine Sound.andThen (hMore _) fun es us hes => ?_
  rcases hes with ⟨us, c, rfl, hc, hes⟩
  refine Sound.pure ⟨t :: (vs ++ us), c, ?_, hc,
    .moreArguments ht (he.1.weaken (Precedence.lowest_le _)) hes⟩
  simp

theorem soundMoreParameters (ts : List Token) : SoundMoreParameters ts := by
  unfold SoundMoreParameters
  induction ts using moreParameters.induct with
  | case1 =>
      rw [moreParameters]
      exact Sound.expect_andThen fun c hc => Sound.pure ⟨[], c, rfl, hc, .noMoreParameters⟩
  | case2 t rest ht ih =>
      rw [moreParameters, if_pos ht]
      refine Sound.step (Sound.expect_andThen fun n hn => Sound.andThen ih fun ns vs hns => ?_)
      rcases hns with ⟨vs, c, rfl, hc, hns⟩
      refine Sound.pure ⟨t :: n :: vs, c, ?_, hc, .moreParameters ht hn hns⟩
      simp
  | case3 t rest ht =>
      rw [moreParameters, if_neg ht]
      exact Sound.expect_andThen fun c hc => Sound.pure ⟨[], c, rfl, hc, .noMoreParameters⟩

theorem soundParameters (ts : List Token) : SoundParameters ts := by
  unfold SoundParameters parameters
  split
  · next h =>
      cases ts with
      | nil => cases h
      | cons c rest => exact Sound.single ⟨[], c, rfl, h, .noParameters⟩
  · refine Sound.expect_andThen fun n hn => ?_
    refine Sound.andThen (soundMoreParameters (ts.drop 1)) fun ns vs hns => ?_
    rcases hns with ⟨vs, c, rfl, hc, hns⟩
    refine Sound.pure ⟨n :: vs, c, ?_, hc, .parameters hn hns⟩
    simp

/-! ## Operands -/

/-- An operand that may stand in any place. -/
theorem OperandRead.of_forall {e : Expr} {vs rest : List Token}
    (h : ∀ p, Derives .optional (.expr p e) vs) : OperandRead e vs rest :=
  ⟨.call, h .call, by decide, Precedence.le_call _⟩

theorem SoundOperand.atom {t : Token} {ts : List Token} {e : Expr}
    (hRead : operand t ts = done e) (h : ∀ p, Derives .optional (.expr p e) [t]) :
    SoundOperand t ts := by
  unfold SoundOperand
  rw [hRead]
  exact Sound.pure (.of_forall h)

theorem SoundOperand.prefixOp {t : Token} {ts : List Token} {op : PrefixOp}
    (ht : t.kind = op.kind)
    (hRead : operand t ts = (expr .unary ts).andThen fun e _ => done (.prefixOp op e))
    (hExpr : SoundExpr .unary ts) : SoundOperand t ts := by
  unfold SoundOperand
  rw [hRead]
  refine Sound.andThen hExpr fun e vs he => ?_
  refine Sound.pure ⟨.unary, ?_, Nat.le_refl _, he.2⟩
  rw [List.append_nil]
  exact .prefixOp (Nat.le_refl _) ht he.1

theorem SoundOperand.group {t : Token} {ts : List Token} (ht : t.kind = .lparen)
    (hExpr : SoundExpr .lowest ts) : SoundOperand t ts := by
  unfold SoundOperand
  rw [operand, ht]
  refine Sound.andThen hExpr fun e vs he => ?_
  refine Sound.expect_andThen fun c hc => ?_
  refine Sound.pure (.of_forall fun p => ?_)
  exact .group ht (he.1.weaken (Precedence.lowest_le _)) hc

theorem SoundOperand.of_keyword {t : Token} {ts : List Token} {k : Kind}
    {r : List Token → Attempt Expr} (ht : t.kind = k) (hRead : operand t ts = r ts)
    (h : SoundKeyword k r ts) : SoundOperand t ts := by
  unfold SoundOperand
  rw [hRead]
  refine (h t ht).imp (Yields.imp fun e vs rest he => ?_)
  exact .of_forall he

/-! ## Conditionals and function literals -/

theorem soundKeyword_conditional {ts : List Token} (hExpr : SoundExpr .lowest (ts.drop 1))
    (hConsequence : ∀ n, SoundBlock (ts.drop (3 + n)))
    (hAlternative : ∀ n m, SoundBlock (ts.drop (5 + n + m))) :
    SoundKeyword .ifWord conditional ts := by
  intro t ht
  rw [conditional]
  -- the condition in its brackets, and then the first block
  refine Sound.expect_andThen fun o ho => ?_
  refine Sound.andThen hExpr fun e vs he => ?_
  rw [List.drop_drop]
  generalize (expr .lowest (ts.drop 1)).used = n
  refine Sound.expect_andThen fun c hc => ?_
  rw [drop_succ_add]
  refine Sound.expect_andThen fun b hb => ?_
  rw [drop_succ_add]
  refine Sound.bind_attempt (hConsequence n) fun us hus => ?_
  rcases hus with ⟨⟨us, d, rfl, hd, hss⟩, -⟩
  rw [List.drop_drop]
  generalize (block (ts.drop (3 + n))).value = ss at hss ⊢
  generalize (block (ts.drop (3 + n))).used = m
  have hCondition := he.1.weaken (Precedence.lowest_le _)
  split
  · next hElse =>
      rcases exists_drop_eq_else_cons hElse with ⟨l, hl, hRest, hBody⟩
      rw [hRest]
      refine Sound.step (Sound.expect_andThen fun b' hb' => ?_)
      rw [hBody]
      refine Sound.map (hAlternative n m) fun vs' _ hvs' => ?_
      rcases hvs' with ⟨⟨us', d', rfl, hd', hss'⟩, -⟩
      intro p
      have hNode : Derives .optional (.expr p (.cond e ss (some _)))
          (t :: o :: (vs ++ c :: b :: (us ++ d :: l :: b' :: (us' ++ [d'])))) :=
        .condElse ht ho hCondition hc hb hss hd hl hb' hss' hd'
      simpa using hNode
  · -- no second block
    refine Sound.pure fun p => ?_
    have hNode : Derives .optional (.expr p (.cond e ss none))
        (t :: o :: (vs ++ c :: b :: (us ++ [d]))) :=
      .cond ht ho hCondition hc hb hss hd
    simpa using hNode

theorem soundKeyword_function {ts : List Token}
    (hBody : ∀ n, SoundBlock (ts.drop (2 + n))) : SoundKeyword .fnWord function ts := by
  intro t ht
  rw [function]
  refine Sound.expect_andThen fun o ho => ?_
  refine Sound.andThen (soundParameters (ts.drop 1)) fun names vs hNames => ?_
  rcases hNames with ⟨vs, c, rfl, hc, hNames⟩
  rw [List.drop_drop]
  generalize (parameters (ts.drop 1)).used = n
  refine Sound.expect_andThen fun b hb => ?_
  rw [drop_succ_add]
  refine Sound.map (hBody n) fun us _ hus => ?_
  rcases hus with ⟨⟨us, d, rfl, hd, hss⟩, -⟩
  intro p
  have hNode : Derives .optional (.expr p (.fn names _))
      (t :: o :: (vs ++ c :: b :: (us ++ [d]))) :=
    .fn ht ho hNames hc hb hss hd
  simpa using hNode

/-! ## Statements -/

theorem SoundSentence.bind {t : Token} {ts : List Token} (ht : t.kind = .letWord)
    (hExpr : SoundExpr .lowest (ts.drop 2)) : SoundSentence t ts := by
  unfold SoundSentence
  rw [sentence, ht]
  refine Sound.expect_andThen fun n hn => ?_
  refine Sound.expect_andThen fun a ha => ?_
  rw [List.drop_drop]
  refine Sound.andThen hExpr fun e vs he => Sound.pure ⟨?_, nofun⟩
  rw [List.append_nil]
  exact .bind ht hn ha (he.1.weaken (Precedence.lowest_le _))

theorem SoundSentence.ret {t : Token} {ts : List Token} (ht : t.kind = .returnWord)
    (hEnds : endsReturn (lookahead ts) = true) : SoundSentence t ts := by
  unfold SoundSentence
  rw [sentence, ht]
  simp only [hEnds, if_true]
  exact Sound.pure ⟨.ret ht, fun _ => hEnds⟩

theorem SoundSentence.retValue {t : Token} {ts : List Token} (ht : t.kind = .returnWord)
    (hEnds : ¬ endsReturn (lookahead ts) = true) (hExpr : SoundExpr .lowest ts) :
    SoundSentence t ts := by
  unfold SoundSentence
  rw [sentence, ht]
  simp only [hEnds, Bool.false_eq_true, if_false]
  refine Sound.andThen hExpr fun e vs he => Sound.pure ⟨?_, nofun⟩
  rw [List.append_nil]
  exact .retValue ht (he.1.weaken (Precedence.lowest_le _))

theorem SoundSentence.value {t : Token} {ts : List Token} (hLet : t.kind ≠ .letWord)
    (hReturn : t.kind ≠ .returnWord) (hExpr : SoundExprFrom .lowest t ts) :
    SoundSentence t ts := by
  unfold SoundSentence
  rw [sentence_of_ne hLet hReturn]
  refine Sound.andThen hExpr fun e vs he => Sound.pure ⟨?_, nofun⟩
  rw [List.append_nil]
  exact .value (he.1.weaken (Precedence.lowest_le _))

/-- A statement and the semicolon that may stand behind it. -/
theorem sound_ended {s : Stmt} {us ts : List Token} (hs : SentenceRead s us ts) :
    Sound (ended s ts) ts (Yields fun s vs rest => StmtRead s (us ++ vs) rest) := by
  unfold ended
  by_cases h : lookahead ts = .semicolon
  · rw [if_pos h]
    cases ts with
    | nil => cases h
    | cons t rest => exact Sound.single ⟨us, hs.1, .inl ⟨t, h, rfl⟩⟩
  · rw [if_neg h]
    refine Sound.pure ⟨us, hs.1, .inr ⟨List.append_nil us, fun hRet => ?_⟩⟩
    simpa [endsReturn, endsList, h] using hs.2 hRet

theorem SoundSentence.stmt {t : Token} {ts : List Token} (h : SoundSentence t ts) :
    SoundStmt t ts := by
  unfold SoundStmt
  rw [stmt_eq]
  exact Sound.andThen h fun s vs hs => sound_ended hs

/-! ## Lists of statements -/

/-- No statement is read from a token that ends a list without a defect. -/
theorem errors_stmt_ne_nil {t : Token} (ts : List Token) (h : endsList t.kind = true) :
    (stmt t ts).errors ≠ [] := by
  have hKind : t.kind = .rbrace ∨ t.kind = .eof := by
    simpa [endsList] using h
  have hOperand : operand t ts = fail (.noOperand t.kind) (ts.length + 1) := by
    rcases hKind with ht | ht <;> rw [operand, ht]
  have hStmt : stmt t ts =
      (exprFrom .lowest t ts).andThen fun value n => ended (.expr value) (ts.drop n) := by
    rcases hKind with ht | ht <;> rw [stmt, ht]
  rw [hStmt, exprFrom, hOperand]
  exact List.cons_ne_nil _ _

/-- Reading a list that starts with a token that ends lists notices a defect, so that nothing is
to be shown. -/
theorem Sound.of_endsList {α : Type} {r : Reading α} {f : Option Stmt → Nat → Reading α}
    {t : Token} {ts us : List Token} {P : α → List Token → List Token → Prop}
    (hr : r = ((stmt t ts).bind f).shift) (h : endsList t.kind = true) : Sound r us P := by
  intro hErrors
  rw [hr, errors_shift, errors_bind, List.append_eq_nil_iff] at hErrors
  exact absurd hErrors.1 (errors_stmt_ne_nil ts h)

/-- A statement in front of a list.  A `return` without value that no semicolon ends stands before
the end of the list, so the list behind it is empty. -/
theorem StmtRead.cons {s : Stmt} {ss : List Stmt} {vs us rest : List Token}
    (hs : StmtRead s vs rest) (hss : Derives .optional (.stmts ss) us)
    (hEnd : endsList (lookahead rest) = true → ss = []) :
    Derives .optional (.stmts (s :: ss)) (vs ++ us) := by
  rcases hs with ⟨vs, hs, ⟨t, ht, rfl⟩ | ⟨rfl, hRet⟩⟩
  · rw [List.append_assoc, List.singleton_append]
    exact .separated hs ht hss
  · by_cases h : s = .ret none
    · -- it stands where lists end
      have hNil : ss = [] := hEnd (hRet h)
      subst hNil
      cases hss
      rw [List.append_nil]
      exact .lastStmt hs
    · exact .adjacent rfl h hs hss

theorem SoundBlock.nil : SoundBlock [] := by
  unfold SoundBlock
  rw [block]
  -- the brace that is missing at the end of the input is added
  intro _
  refine ⟨Nat.le_refl _, [.closing], ⟨1, .inr rfl, rfl⟩, ⟨[], .closing, rfl, rfl, .noStmts⟩, ?_⟩
  exact fun _ => rfl

theorem SoundBlock.closed {t : Token} {rest : List Token} (ht : t.kind = .rbrace) :
    SoundBlock (t :: rest) := by
  unfold SoundBlock
  rw [block, if_pos ht]
  exact Sound.single ⟨⟨[], t, rfl, ht, .noStmts⟩, fun _ => rfl⟩

theorem SoundBlock.cons {t : Token} {rest : List Token} (ht : ¬ t.kind = .rbrace)
    (hStmt : SoundStmt t rest) (hBlock : SoundBlock (rest.drop (stmt t rest).used)) :
    SoundBlock (t :: rest) := by
  unfold SoundBlock
  rw [block, if_neg ht]
  by_cases hList : endsList t.kind = true
  · exact Sound.of_endsList rfl hList
  refine Sound.shift (Sound.bind hStmt fun vs hs => ?_)
  cases hValue : (stmt t rest).value with
  | none =>
      rw [hValue] at hs
      exact hs.elim
  | some s =>
      rw [hValue] at hs
      refine Sound.map hBlock fun us _ hus => ⟨?_, fun h => absurd h hList⟩
      rcases hus with ⟨⟨us, d, rfl, hd, hss⟩, hEnd⟩
      exact ⟨t :: vs ++ us, d, by simp, hd, hs.cons hss hEnd⟩

theorem SoundProgram.cons {t : Token} {rest : List Token} (hStmt : SoundStmt t rest)
    (hProgram : SoundProgram (rest.drop (stmt t rest).used)) : SoundProgram (t :: rest) := by
  unfold SoundProgram
  rw [program]
  by_cases hList : endsList t.kind = true
  · exact Sound.of_endsList rfl hList
  refine Sound.shift (Sound.bind hStmt fun vs hs => ?_)
  cases hValue : (stmt t rest).value with
  | none =>
      rw [hValue] at hs
      exact hs.elim
  | some s =>
      rw [hValue] at hs
      refine Sound.map hProgram fun us _ hus => ⟨?_, fun h => absurd h hList⟩
      exact hs.cons hus.1 hus.2

/-! ## Everything that is read -/

/-- Whatever is read without a defect is derived, by the recursion of the reader. -/
theorem sound :
    (∀ min ts, SoundExpr min ts) ∧
    (∀ min t ts, SoundExprFrom min t ts) ∧
    (∀ min left ts, SoundClimb min left ts) ∧
    (∀ ts, SoundArguments ts) ∧
    (∀ ts, SoundMoreArguments ts) ∧
    (∀ t ts, SoundOperand t ts) ∧
    (∀ ts, SoundKeyword .fnWord function ts) ∧
    (∀ ts, SoundBlock ts) ∧
    (∀ t ts, SoundSentence t ts) ∧
    (∀ ts, SoundKeyword .ifWord conditional ts) := by
  apply expr.mutual_induct
  -- expressions
  · intro min
    unfold SoundExpr
    rw [expr]
    exact Sound.fail
  · intro min t rest ih
    exact .cons ih
  · intro min t ts hOperand hClimb
    exact .of_operand hOperand hClimb
  · intro min left
    exact .of_le (Precedence.lowest_le min) (by rw [climb])
  · intro min left t rest hlt op hop hExpr hClimb
    exact .infixOp hlt hop hExpr hClimb
  · intro min left t rest hlt hop hArguments hClimb
    exact .call hlt hop hArguments hClimb
  · intro min left t rest hlt
    exact .of_le (Precedence.not_lt_iff.1 hlt) (by rw [climb, if_neg hlt])
  -- arguments
  · intro ts h
    exact .nil h
  · intro ts h hExpr hMore
    exact .cons h hExpr hMore
  · exact .nil (by rw [moreArguments])
  · intro t rest ht hExpr hMore
    exact .cons ht hExpr hMore
  · intro t rest ht
    exact .nil (by rw [moreArguments, if_neg ht])
  -- operands
  · intro t ts h
    exact .atom (by rw [operand, h]) fun p => .ident h
  · intro t ts h n hn
    exact .atom (by rw [operand, h, hn]) fun p => .int h (intOf?_eq_some_iff.1 hn)
  · intro t ts h hn
    unfold SoundOperand
    rw [operand, h, hn]
    exact Sound.fail
  · intro t ts h
    exact .atom (by rw [operand, h]) fun p => .trueWord h
  · intro t ts h
    exact .atom (by rw [operand, h]) fun p => .falseWord h
  · intro t ts h hExpr
    have hBang : t.kind = PrefixOp.bang.kind := h
    exact .prefixOp hBang (by rw [operand, h]) hExpr
  · intro t ts h hExpr
    have hMinus : t.kind = PrefixOp.minus.kind := h
    exact .prefixOp hMinus (by rw [operand, h]) hExpr
  · intro t ts h hExpr
    exact .group h hExpr
  · intro t ts h hConditional
    exact .of_keyword h (by rw [operand, h]) hConditional
  · intro t ts h hFunction
    exact .of_keyword h (by rw [operand, h]) hFunction
  · intro t ts hIdent hInt hTrue hFalse hBang hMinus hLparen hIf hFn
    unfold SoundOperand
    rw [operand]
    split
    all_goals try contradiction
    exact Sound.fail
  -- function literals and blocks
  · intro ts hBlock
    exact soundKeyword_function hBlock
  · exact .nil
  · intro t rest h
    exact .closed h
  · intro t rest h hStmt hBlock
    exact .cons h hStmt.stmt (hBlock _)
  -- statements
  · intro t ts h hExpr
    exact .bind h hExpr
  · intro t ts h hEnds
    exact .ret h hEnds
  · intro t ts h hEnds hExpr
    exact .retValue h hEnds hExpr
  · intro t ts hLet hReturn hExpr
    exact .value hLet hReturn hExpr
  -- conditionals
  · intro ts hExpr hConsequence hAlternative
    exact soundKeyword_conditional hExpr hConsequence hAlternative

theorem soundSentence (t : Token) (ts : List Token) : SoundSentence t ts :=
  sound.2.2.2.2.2.2.2.2.1 t ts

theorem soundStmt (t : Token) (ts : List Token) : SoundStmt t ts :=
  (soundSentence t ts).stmt

theorem soundProgram (ts : List Token) : SoundProgram ts := by
  induction ts using program.induct with
  | case1 =>
      unfold SoundProgram
      rw [program]
      exact Sound.pure ⟨.noStmts, fun _ => rfl⟩
  | case2 t rest ih => exact .cons (soundStmt t rest) (ih _)

end Grammar

/-! ## Source texts without syntax errors -/

/-- A source text without syntax errors is a way to write the program that is read from it, all of
its tokens in order.  Only closing braces may be missing at the end, one for each block that is
still open there. -/
theorem derives_of_parse {source : String} (h : (parse source).errors = []) :
    ∃ missing : Nat,
      Grammar.Derives .optional (.stmts (parse source).program.statements)
        (Token.lexemes source.toList ++ List.replicate missing .closing) ∧
      ((Token.lexemes source.toList).map Token.kind).count .lbrace =
        ((Token.lexemes source.toList).map Token.kind).count .rbrace + missing := by
  have hErrors : (Grammar.program (Token.lexemes source.toList)).errors = [] :=
    List.map_eq_nil_iff.1 h
  rcases Grammar.soundProgram (Token.lexemes source.toList) hErrors with
    ⟨-, vs, ⟨missing, -, rfl⟩, hDerives, -⟩
  rw [Grammar.used_program, List.take_length] at hDerives
  refine ⟨missing, hDerives, ?_⟩
  -- blocks are the only phrases with braces, so what is missing is what braces do not match
  have hBalanced := hDerives.balanced
  unfold Grammar.Balanced at hBalanced
  simp only [List.map_append, List.count_append, List.map_replicate] at hBalanced
  have hOpening : (List.replicate missing Token.closing.kind).count .lbrace = 0 :=
    List.count_eq_zero_of_not_mem fun hMem => nomatch List.eq_of_mem_replicate hMem
  have hClosing : (List.replicate missing Token.closing.kind).count .rbrace = missing :=
    List.count_replicate_self
  rw [hOpening, hClosing] at hBalanced
  exact hBalanced

/-- A text that ends inside two blocks, in the inner one behind a `return` without value. -/
theorem derives_of_parse_open :
    (parse "fn(x) \x7b if (x) \x7b return").errors = [] ∧
      Grammar.Derives .optional
        (.stmts [.expr (.fn ["x"] [.expr (.cond (.ident "x") [.ret none] none)])])
        (Token.lexemes "fn(x) \x7b if (x) \x7b return".toList ++ [.closing, .closing]) := by
  have hTokens : Token.lexemes "fn(x) \x7b if (x) \x7b return".toList =
      [⟨.fnWord, "fn"⟩, ⟨.lparen, "("⟩, ⟨.ident, "x"⟩, ⟨.rparen, ")"⟩, ⟨.lbrace, "\x7b"⟩,
        ⟨.ifWord, "if"⟩, ⟨.lparen, "("⟩, ⟨.ident, "x"⟩, ⟨.rparen, ")"⟩, ⟨.lbrace, "\x7b"⟩,
        ⟨.returnWord, "return"⟩] := by
    decide +kernel
  have hParse : parse "fn(x) \x7b if (x) \x7b return" =
      ⟨⟨[.expr (.fn ["x"] [.expr (.cond (.ident "x") [.ret none] none)])]⟩, []⟩ := by
    with_unfolding_all rfl
  have hErrors : (parse "fn(x) \x7b if (x) \x7b return").errors = [] := by
    rw [hParse]
    rfl
  refine ⟨hErrors, ?_⟩
  rcases derives_of_parse hErrors with ⟨missing, hDerives, hCount⟩
  have hMissing : 2 = 0 + missing := by
    rw [hTokens] at hCount
    exact hCount
  have hTwo : missing = 2 := by omega
  rw [hTwo, hParse] at hDerives
  exact hDerives

end MonkeyLang
