import MonkeyLang.Proofs.Grammar.Derivation

/-!
# Completeness — what the grammar derives is read back

Every way to write a phrase, with a semicolon behind every statement, is read back without a
defect as that very phrase (`readsBack_of_derives`).  For an expression the statement is about
the reader in the middle of its work: reading the tokens of `e` and whatever stands behind them is
the same as having `e` as left operand and going on with what stands behind.
-/

namespace MonkeyLang
namespace Reading

variable {α β : Type}

/-! ## Attempts that succeed -/

/-- A value read without a defect from `n` tokens. -/
def took (a : α) (n : Nat) : Attempt α :=
  ⟨some a, [], n⟩

/-- The same reading behind `n` more tokens. -/
def after (n : Nat) (r : Reading α) : Reading α :=
  { r with used := n + r.used }

theorem took_andThen (a : α) (n : Nat) (f : α → Nat → Attempt β) :
    (took a n).andThen f = (f a n).after n :=
  rfl

theorem mk_bind (a : α) (n : Nat) (f : α → Nat → Reading β) :
    (⟨a, [], n⟩ : Reading α).bind f = (f a n).after n :=
  rfl

theorem mk_map (a : α) (n : Nat) (f : α → β) :
    (⟨a, [], n⟩ : Reading α).map (fun a => some (f a)) = took (f a) n :=
  rfl

theorem after_done (a : α) (n : Nat) : (done a).after n = took a n :=
  rfl

theorem after_took (a : α) (m n : Nat) : (took a m).after n = took a (n + m) :=
  rfl

theorem shift_took (a : α) (n : Nat) : (took a n).shift = took a (n + 1) :=
  rfl

theorem after_after (r : Reading α) (m n : Nat) : (r.after m).after n = r.after (n + m) := by
  simp only [after, Nat.add_assoc]

theorem shift_after (r : Reading α) (n : Nat) : (r.after n).shift = r.after (n + 1) := by
  simp only [after, shift, Nat.add_right_comm]

theorem after_zero (r : Reading α) : r.after 0 = r := by
  simp only [after, Nat.zero_add]

theorem shift_injective {r r' : Reading α} (h : r.shift = r'.shift) : r = r' := by
  cases r
  cases r'
  simpa [shift] using h

theorem expect_cons {k : Kind} {t : Token} (h : t.kind = k) (ts : List Token) :
    expect k (t :: ts) = took t 1 := by
  simp [expect, h, took]

theorem lookahead_cons (t : Token) (ts : List Token) : lookahead (t :: ts) = t.kind :=
  rfl

end Reading

namespace Grammar

open Reading

/-! ## Where an expression ends -/

/-- What `expr min` reads may have any root that a place of level `p` allows. -/
structure Admits (min p : Precedence) : Prop where
  infixOp : ∀ op : InfixOp, p ≤ op.precedence → min < op.precedence
  call : min < .call

theorem Admits.lowest : Admits .lowest .lowest where
  infixOp op _ := op.lowest_lt_precedence
  call := by decide

theorem Admits.unary : Admits .unary .unary where
  infixOp op h := absurd op.precedence_lt_unary (Precedence.not_lt_iff.2 h)
  call := by decide

theorem Admits.operand {op : InfixOp} {q : Precedence} (h : op.precedence < q) :
    Admits op.precedence q where
  infixOp _ hq := Nat.lt_of_lt_of_le h hq
  call := Nat.lt_trans op.precedence_lt_unary (by decide)

/-- A token of kind `k` does not belong to the expression in front of it, if that one stands in a
place of level `p`. -/
structure Follows (k : Kind) (p : Precedence) : Prop where
  le : Precedence.ofKind k ≤ p
  ne_else : k ≠ .elseWord

theorem Follows.mono {k : Kind} {p q : Precedence} (h : Follows k p) (hq : p ≤ q) :
    Follows k q :=
  ⟨Nat.le_trans h.le hq, h.ne_else⟩

theorem Follows.infixOp (op : InfixOp) : Follows op.kind op.precedence where
  le := by
    rw [InfixOp.ofKind_kind]
    exact Nat.le_refl _
  ne_else := by
    cases op <;> decide

theorem Follows.of_endsReturn {k : Kind} (h : endsReturn k = true) : Follows k .lowest := by
  cases k <;> first | exact ⟨by decide, by decide⟩ | cases h

/-- A token that binds no tighter than `min` ends the expression before it. -/
theorem climb_of_le {min : Precedence} {rest : List Token} (left : Expr)
    (h : Precedence.ofKind (lookahead rest) ≤ min) : climb min left rest = done left := by
  cases rest with
  | nil => rw [climb]
  | cons t rest =>
      have hlt : ¬ min < Precedence.ofKind t.kind := Precedence.not_lt_iff.2 h
      rw [climb, if_neg hlt]

theorem expr_of_operand {t : Token} {us rest : List Token} {e : Expr} (min : Precedence)
    (h : operand t (us ++ rest) = took e us.length) :
    expr min (t :: us ++ rest) = (climb min e rest).after (t :: us).length := by
  rw [List.cons_append, expr, exprFrom, h, took_andThen, List.drop_left, shift_after,
    List.length_cons]

/-! ## Phrases that are read back -/

/-- The tokens `ts` are read back as the phrase, whatever stands behind them and does not belong
to it. -/
def ReadsBack : Phrase → List Token → Prop
  | .expr p e, ts =>
      ∀ min rest, Admits min p → Follows (lookahead rest) p →
        expr min (ts ++ rest) = (climb min e rest).after ts.length
  | .arguments es, ts =>
      ∀ c rest, c.kind = .rparen → arguments (ts ++ c :: rest) = took es (ts.length + 1)
  | .moreArguments es, ts =>
      ∀ c rest, c.kind = .rparen → moreArguments (ts ++ c :: rest) = took es (ts.length + 1)
  | .parameters names, ts =>
      ∀ c rest, c.kind = .rparen → parameters (ts ++ c :: rest) = took names (ts.length + 1)
  | .moreParameters names, ts =>
      ∀ c rest, c.kind = .rparen →
        moreParameters (ts ++ c :: rest) = took names (ts.length + 1)
  | .stmt s, ts =>
      ∃ t us, ts = t :: us ∧ t.kind ≠ .rbrace ∧
        ∀ rest, endsReturn (lookahead rest) = true →
          stmt t (us ++ rest) = (ended s rest).after us.length
  | .stmts ss, ts =>
      (∀ d rest, d.kind = .rbrace → block (ts ++ d :: rest) = ⟨ss, [], ts.length + 1⟩) ∧
        program ts = ⟨ss, [], ts.length⟩

/-- An expression in a place that asks for nothing ends where no operator follows. -/
theorem ReadsBack.lowest {e : Expr} {ts : List Token} (h : ReadsBack (.expr .lowest e) ts)
    {rest : List Token} (hrest : Follows (lookahead rest) .lowest) :
    expr .lowest (ts ++ rest) = took e ts.length := by
  rw [h .lowest rest .lowest hrest, climb_of_le e hrest.le, after_done]

theorem follows_rparen {c : Token} {rest : List Token} (h : c.kind = .rparen) :
    Follows (lookahead (c :: rest)) .lowest := by
  rw [lookahead_cons, h]
  exact ⟨by decide, by decide⟩

/-- An operand whose own tokens are read back is read back wherever it stands. -/
theorem ReadsBack.of_operand {p : Precedence} {e : Expr} {t : Token} {us : List Token}
    (h : ∀ rest, lookahead rest ≠ .elseWord → operand t (us ++ rest) = took e us.length) :
    ReadsBack (.expr p e) (t :: us) :=
  fun min rest _ hrest => expr_of_operand min (h rest hrest.ne_else)

/-! ## Brackets, operators and calls -/

theorem ReadsBack.group {p : Precedence} {e : Expr} {o c : Token} {ts : List Token}
    (ho : o.kind = .lparen) (he : ReadsBack (.expr .lowest e) ts) (hc : c.kind = .rparen) :
    ReadsBack (.expr p e) (o :: (ts ++ [c])) := by
  refine ReadsBack.of_operand fun rest _ => ?_
  have hInner : expr .lowest (ts ++ c :: rest) = took e ts.length :=
    he.lowest (follows_rparen hc)
  rw [List.append_assoc, List.singleton_append, operand, ho]
  simp only [hInner, took_andThen, List.drop_left, expect_cons hc, after_done, after_took,
    List.length_append, List.length_singleton]

theorem ReadsBack.prefixOp {p : Precedence} {op : PrefixOp} {e : Expr} {t : Token}
    {ts : List Token} (hp : p ≤ .unary) (ht : t.kind = op.kind)
    (he : ReadsBack (.expr .unary e) ts) : ReadsBack (.expr p (.prefixOp op e)) (t :: ts) := by
  intro min rest _ hrest
  have hFollows : Follows (lookahead rest) .unary := hrest.mono hp
  have hRight : expr .unary (ts ++ rest) = took e ts.length := by
    rw [he .unary rest .unary hFollows, climb_of_le e hFollows.le, after_done]
  refine expr_of_operand min ?_
  cases op with
  | bang =>
      rw [operand, ht]
      simp only [PrefixOp.kind, hRight, took_andThen, after_done]
  | minus =>
      rw [operand, ht]
      simp only [PrefixOp.kind, hRight, took_andThen, after_done]

/-- The step of the climbing loop: the operator behind the left operand binds tighter than the
caller asks, and takes from its right exactly the right operand. -/
theorem ReadsBack.infixOp {p q : Precedence} {op : InfixOp} {l r : Expr} {t : Token}
    {ts us : List Token} (hp : p ≤ op.precedence) (hl : ReadsBack (.expr op.precedence l) ts)
    (ht : t.kind = op.kind) (hq : op.precedence < q) (hr : ReadsBack (.expr q r) us) :
    ReadsBack (.expr p (.infixOp op l r)) (ts ++ t :: us) := by
  intro min rest hmin hrest
  have hlt : min < op.precedence := hmin.infixOp op hp
  have hFollows : Follows (lookahead rest) op.precedence := hrest.mono hp
  have hKind : Precedence.ofKind t.kind = op.precedence := by
    rw [ht, InfixOp.ofKind_kind]
  -- what follows the operation binds no tighter than the operator, and so ends its right operand
  have hRight : expr op.precedence (us ++ rest) = took r us.length := by
    rw [hr _ rest (.operand hq) (hFollows.mono (Nat.le_of_lt hq)), climb_of_le r hFollows.le,
      after_done]
  have hLeft : expr min (ts ++ (t :: us ++ rest)) =
      (climb min l (t :: us ++ rest)).after ts.length := by
    -- the place of the left operand admits operators of the same level as this one
    refine hl min _ ⟨fun op' h => Nat.lt_of_lt_of_le hlt h, hmin.call⟩ ?_
    rw [List.cons_append, lookahead_cons, ht]
    exact .infixOp op
  have hStep : climb min l (t :: us ++ rest) =
      (climb min (.infixOp op l r) rest).after (us.length + 1) := by
    rw [List.cons_append, climb, hKind, if_pos hlt, ht, InfixOp.ofKind?_kind]
    simp only [hRight, took_andThen, List.drop_left, shift_after]
  calc
    expr min (ts ++ t :: us ++ rest)
        = expr min (ts ++ (t :: us ++ rest)) := by rw [List.append_assoc]
    _ = (climb min l (t :: us ++ rest)).after ts.length := hLeft
    _ = ((climb min (.infixOp op l r) rest).after (us.length + 1)).after ts.length := by
          rw [hStep]
    _ = (climb min (.infixOp op l r) rest).after (ts ++ t :: us).length := by
          rw [after_after, List.length_append, List.length_cons]

theorem ReadsBack.call {p : Precedence} {f : Expr} {es : List Expr} {o c : Token}
    {ts us : List Token} (hf : ReadsBack (.expr .call f) ts) (ho : o.kind = .lparen)
    (hes : ReadsBack (.arguments es) us) (hc : c.kind = .rparen) :
    ReadsBack (.expr p (.call f es)) (ts ++ o :: (us ++ [c])) := by
  intro min rest hmin _
  have hCallee : expr min (ts ++ (o :: (us ++ c :: rest))) =
      (climb min f (o :: (us ++ c :: rest))).after ts.length := by
    -- no operator is the root of a callee without brackets around it
    refine hf min _ ⟨fun op h => ?_, hmin.call⟩ ⟨Precedence.le_call _, ?_⟩
    · exact absurd (Nat.lt_trans op.precedence_lt_unary (by decide)) (Precedence.not_lt_iff.2 h)
    · rw [lookahead_cons, ho]
      decide
  have hStep : climb min f (o :: (us ++ c :: rest)) =
      (climb min (.call f es) rest).after (us.length + 2) := by
    have hlt : min < Precedence.ofKind .lparen := hmin.call
    have hdrop : (us ++ c :: rest).drop (us.length + 1) = rest := by
      simp
    rw [climb, ho, if_pos hlt]
    simp only [InfixOp.ofKind?, hes c rest hc, took_andThen, hdrop, shift_after]
  have hShape : ts ++ o :: (us ++ [c]) ++ rest = ts ++ (o :: (us ++ c :: rest)) := by
    simp
  calc
    expr min (ts ++ o :: (us ++ [c]) ++ rest)
        = (climb min f (o :: (us ++ c :: rest))).after ts.length := by rw [hShape, hCallee]
    _ = (climb min (.call f es) rest).after (ts.length + (us.length + 2)) := by
          rw [hStep, after_after]
    _ = (climb min (.call f es) rest).after (ts ++ o :: (us ++ [c])).length := by simp

/-! ## Lists between brackets -/

theorem ReadsBack.noArguments : ReadsBack (.arguments []) [] := by
  intro c rest hc
  rw [List.nil_append, arguments, lookahead_cons, if_pos hc]
  rfl

theorem ReadsBack.arguments {e : Expr} {es : List Expr} {t : Token} {ts us : List Token}
    (ht : startsOperand t.kind = true) (he : ReadsBack (.expr .lowest e) (t :: ts))
    (hes : ReadsBack (.moreArguments es) us)
    (hus : ∀ c rest, c.kind = .rparen → Follows (lookahead (us ++ c :: rest)) .lowest) :
    ReadsBack (.arguments (e :: es)) (t :: ts ++ us) := by
  intro c rest hc
  -- the first argument starts with an operand, so the list does not count as closed at once
  have hOpen : ¬ lookahead (t :: ts ++ (us ++ c :: rest)) = .rparen := by
    intro h
    rw [List.cons_append, lookahead_cons] at h
    rw [h] at ht
    cases ht
  have hFirst : expr .lowest (t :: ts ++ (us ++ c :: rest)) = took e (t :: ts).length :=
    he.lowest (hus c rest hc)
  rw [List.append_assoc, Grammar.arguments, if_neg hOpen, hFirst, took_andThen, List.drop_left,
    hes c rest hc, took_andThen, after_done, after_took, List.length_append, Nat.add_assoc]

theorem ReadsBack.noMoreArguments : ReadsBack (.moreArguments []) [] := by
  intro c rest hc
  have hComma : ¬ c.kind = .comma := by
    rw [hc]
    decide
  rw [List.nil_append, moreArguments, if_neg hComma, expect_cons hc, took_andThen, after_done]
  rfl

theorem ReadsBack.moreArguments {e : Expr} {es : List Expr} {t : Token} {ts us : List Token}
    (ht : t.kind = .comma) (he : ReadsBack (.expr .lowest e) ts)
    (hes : ReadsBack (.moreArguments es) us)
    (hus : ∀ c rest, c.kind = .rparen → Follows (lookahead (us ++ c :: rest)) .lowest) :
    ReadsBack (.moreArguments (e :: es)) (t :: (ts ++ us)) := by
  intro c rest hc
  have hFirst : expr .lowest (ts ++ (us ++ c :: rest)) = took e ts.length :=
    he.lowest (hus c rest hc)
  rw [List.cons_append, List.append_assoc, Grammar.moreArguments, if_pos ht, hFirst,
    took_andThen, List.drop_left, hes c rest hc, took_andThen, after_done, after_took, shift_took,
    List.length_cons, List.length_append]
  simp only [Nat.add_assoc]

theorem ReadsBack.noParameters : ReadsBack (.parameters []) [] := by
  intro c rest hc
  rw [List.nil_append, parameters, lookahead_cons, if_pos hc]
  rfl

theorem ReadsBack.parameters {names : List String} {n : Token} {ts : List Token}
    (hn : n.kind = .ident) (hns : ReadsBack (.moreParameters names) ts) :
    ReadsBack (.parameters (n.literal :: names)) (n :: ts) := by
  intro c rest hc
  have hOpen : ¬ lookahead (n :: (ts ++ c :: rest)) = .rparen := by
    rw [lookahead_cons, hn]
    decide
  rw [List.cons_append, Grammar.parameters, if_neg hOpen, expect_cons hn, took_andThen,
    List.drop_one, List.tail_cons, hns c rest hc, took_andThen, after_done, after_took,
    List.length_cons, Nat.add_comm 1]

theorem ReadsBack.noMoreParameters : ReadsBack (.moreParameters []) [] := by
  intro c rest hc
  have hComma : ¬ c.kind = .comma := by
    rw [hc]
    decide
  rw [List.nil_append, moreParameters, if_neg hComma, expect_cons hc, took_andThen, after_done]
  rfl

theorem ReadsBack.moreParameters {names : List String} {t n : Token} {ts : List Token}
    (ht : t.kind = .comma) (hn : n.kind = .ident) (hns : ReadsBack (.moreParameters names) ts) :
    ReadsBack (.moreParameters (n.literal :: names)) (t :: n :: ts) := by
  intro c rest hc
  rw [List.cons_append, List.cons_append, Grammar.moreParameters, if_pos ht, expect_cons hn,
    took_andThen, List.drop_one, List.tail_cons, hns c rest hc, took_andThen, after_done,
    after_took, shift_took, List.length_cons, List.length_cons, Nat.add_comm 1]

/-! ## Conditionals and function literals -/

/-- A conditional up to its first brace: the tokens `xs` behind the brace decide the rest. -/
theorem conditional_of_condition {e : Expr} {o c b : Token} {ts : List Token} (xs : List Token)
    (ho : o.kind = .lparen) (he : ReadsBack (.expr .lowest e) ts) (hc : c.kind = .rparen)
    (hb : b.kind = .lbrace) :
    conditional (o :: (ts ++ c :: b :: xs)) =
      ((block xs).bind fun consequence m =>
        if lookahead (xs.drop m) = .elseWord then
          ((expect .lbrace (xs.drop (1 + m))).andThen fun _ _ =>
            (block (xs.drop (2 + m))).map fun alternative =>
              some (.cond e consequence (some alternative))).shift
        else done (.cond e consequence none)).after (3 + ts.length) := by
  have hCondition : expr .lowest (ts ++ c :: b :: xs) = took e ts.length :=
    he.lowest (follows_rparen hc)
  have hDrop₁ : (o :: (ts ++ c :: b :: xs)).drop (1 + ts.length) = c :: b :: xs := by
    simp [Nat.add_comm 1]
  have hDrop₂ : (o :: (ts ++ c :: b :: xs)).drop (2 + ts.length) = b :: xs := by
    simp [Nat.add_comm 2]
  have hBehind : ∀ i j, i = ts.length + 3 + j →
      (o :: (ts ++ c :: b :: xs)).drop i = xs.drop j := by
    intro i j h
    rw [h, ← List.drop_drop, Nat.add_comm ts.length 3]
    simp [Nat.add_comm 3]
  -- from here on every place is one behind the brace
  have hDrop₃ : (o :: (ts ++ c :: b :: xs)).drop (3 + ts.length) = xs :=
    hBehind _ 0 (Nat.add_comm 3 _)
  have hDrop₄ : ∀ m, (o :: (ts ++ c :: b :: xs)).drop (3 + ts.length + m) = xs.drop m :=
    fun m => hBehind _ m (by omega)
  have hDrop₅ : ∀ m, (o :: (ts ++ c :: b :: xs)).drop (4 + ts.length + m) = xs.drop (1 + m) :=
    fun m => hBehind _ _ (by omega)
  have hDrop₆ : ∀ m, (o :: (ts ++ c :: b :: xs)).drop (5 + ts.length + m) = xs.drop (2 + m) :=
    fun m => hBehind _ _ (by omega)
  rw [conditional]
  simp only [expect_cons ho, took_andThen, List.drop_one, List.tail_cons, hCondition, hDrop₁,
    expect_cons hc, hDrop₂, expect_cons hb, hDrop₃, hDrop₄, hDrop₅, hDrop₆, after_after]
  congr 1
  omega

theorem ReadsBack.cond {p : Precedence} {e : Expr} {ss : List Stmt} {k o c b d : Token}
    {ts us : List Token} (hk : k.kind = .ifWord) (ho : o.kind = .lparen)
    (he : ReadsBack (.expr .lowest e) ts) (hc : c.kind = .rparen) (hb : b.kind = .lbrace)
    (hss : ReadsBack (.stmts ss) us) (hd : d.kind = .rbrace) :
    ReadsBack (.expr p (.cond e ss none)) (k :: o :: (ts ++ c :: b :: (us ++ [d]))) := by
  refine ReadsBack.of_operand fun rest hrest => ?_
  have hShape : o :: (ts ++ c :: b :: (us ++ [d])) ++ rest =
      o :: (ts ++ c :: b :: (us ++ d :: rest)) := by
    simp
  have hDrop : (us ++ d :: rest).drop (us.length + 1) = rest := by
    simp
  rw [hShape, operand, hk]
  simp only [conditional_of_condition _ ho he hc hb, hss.1 d rest hd, mk_bind, hDrop,
    if_neg hrest, after_done, after_took]
  congr 1
  simp only [List.length_cons, List.length_append, List.length_nil]
  omega

theorem ReadsBack.condElse {p : Precedence} {e : Expr} {ss ss' : List Stmt}
    {k o c b d l b' d' : Token} {ts us us' : List Token} (hk : k.kind = .ifWord)
    (ho : o.kind = .lparen) (he : ReadsBack (.expr .lowest e) ts) (hc : c.kind = .rparen)
    (hb : b.kind = .lbrace) (hss : ReadsBack (.stmts ss) us) (hd : d.kind = .rbrace)
    (hl : l.kind = .elseWord) (hb' : b'.kind = .lbrace) (hss' : ReadsBack (.stmts ss') us')
    (hd' : d'.kind = .rbrace) :
    ReadsBack (.expr p (.cond e ss (some ss')))
      (k :: o :: (ts ++ c :: b :: (us ++ d :: l :: b' :: (us' ++ [d'])))) := by
  refine ReadsBack.of_operand fun rest _ => ?_
  have hShape : o :: (ts ++ c :: b :: (us ++ d :: l :: b' :: (us' ++ [d']))) ++ rest =
      o :: (ts ++ c :: b :: (us ++ d :: l :: b' :: (us' ++ d' :: rest))) := by
    simp
  have hBehind : ∀ i j, i = us.length + 1 + j →
      (us ++ d :: l :: b' :: (us' ++ d' :: rest)).drop i =
        (l :: b' :: (us' ++ d' :: rest)).drop j := by
    intro i j h
    rw [h, ← List.drop_drop]
    simp
  have hDrop₁ : (us ++ d :: l :: b' :: (us' ++ d' :: rest)).drop (us.length + 1) =
      l :: b' :: (us' ++ d' :: rest) :=
    hBehind _ 0 rfl
  have hDrop₂ : (us ++ d :: l :: b' :: (us' ++ d' :: rest)).drop (1 + (us.length + 1)) =
      b' :: (us' ++ d' :: rest) :=
    hBehind _ 1 (Nat.add_comm 1 _)
  have hDrop₃ : (us ++ d :: l :: b' :: (us' ++ d' :: rest)).drop (2 + (us.length + 1)) =
      us' ++ d' :: rest :=
    hBehind _ 2 (Nat.add_comm 2 _)
  rw [hShape, operand, hk]
  simp only [conditional_of_condition _ ho he hc hb, hss.1 d _ hd, mk_bind, hDrop₁,
    lookahead_cons, if_pos hl, hDrop₂, expect_cons hb', took_andThen, hDrop₃,
    hss'.1 d' rest hd', mk_map, shift_took, after_took]
  congr 1
  simp only [List.length_cons, List.length_append, List.length_nil]
  omega

theorem ReadsBack.fn {p : Precedence} {names : List String} {ss : List Stmt}
    {k o c b d : Token} {ts us : List Token} (hk : k.kind = .fnWord) (ho : o.kind = .lparen)
    (hn : ReadsBack (.parameters names) ts) (hc : c.kind = .rparen) (hb : b.kind = .lbrace)
    (hss : ReadsBack (.stmts ss) us) (hd : d.kind = .rbrace) :
    ReadsBack (.expr p (.fn names ss)) (k :: o :: (ts ++ c :: b :: (us ++ [d]))) := by
  refine ReadsBack.of_operand fun rest _ => ?_
  have hShape : o :: (ts ++ c :: b :: (us ++ [d])) ++ rest =
      o :: (ts ++ c :: b :: (us ++ d :: rest)) := by
    simp
  have hDrop₁ : (o :: (ts ++ c :: b :: (us ++ d :: rest))).drop (1 + (ts.length + 1)) =
      b :: (us ++ d :: rest) := by
    simp [Nat.add_comm 1]
  have hDrop₂ : (o :: (ts ++ c :: b :: (us ++ d :: rest))).drop (2 + (ts.length + 1)) =
      us ++ d :: rest := by
    simp [Nat.add_comm 2]
  rw [hShape, operand, hk]
  simp only [function, expect_cons ho, took_andThen, List.drop_one, List.tail_cons, hn c _ hc,
    hDrop₁, expect_cons hb, hDrop₂, hss.1 d rest hd, mk_map, after_took]
  congr 1
  simp only [List.length_cons, List.length_append, List.length_nil]
  omega

/-! ## Statements -/

theorem exprFrom_of_expr {min : Precedence} {t : Token} {us : List Token} {e : Expr} {n : Nat}
    (h : expr min (t :: us) = took e (n + 1)) : exprFrom min t us = took e n := by
  rw [expr, ← shift_took] at h
  exact shift_injective h

theorem ended_of_semicolon {s : Stmt} {t : Token} {rest : List Token} (ht : t.kind = .semicolon) :
    ended s (t :: rest) = took s 1 := by
  simp [ended, lookahead_cons, ht, took]

theorem ended_of_ne {s : Stmt} {rest : List Token} (h : lookahead rest ≠ .semicolon) :
    ended s rest = took s 0 := by
  simp [ended, h, took]

theorem ReadsBack.bind {e : Expr} {k n a : Token} {ts : List Token} (hk : k.kind = .letWord)
    (hn : n.kind = .ident) (ha : a.kind = .assign) (he : ReadsBack (.expr .lowest e) ts) :
    ReadsBack (.stmt (.bind n.literal e)) (k :: n :: a :: ts) := by
  refine ⟨k, n :: a :: ts, rfl, by simp [hk], fun rest hrest => ?_⟩
  have hValue : expr .lowest (ts ++ rest) = took e ts.length :=
    he.lowest (.of_endsReturn hrest)
  have hDrop : (n :: a :: (ts ++ rest)).drop (2 + ts.length) = rest := by
    simp [Nat.add_comm 2]
  rw [List.cons_append, List.cons_append, stmt, hk]
  simp only [expect_cons hn, took_andThen, List.drop_succ_cons, List.drop_zero, expect_cons ha,
    hValue, hDrop, after_after]
  congr 1
  simp only [List.length_cons]
  omega

theorem ReadsBack.ret {k : Token} (hk : k.kind = .returnWord) :
    ReadsBack (.stmt (.ret none)) [k] := by
  refine ⟨k, [], rfl, by simp [hk], fun rest hrest => ?_⟩
  rw [List.nil_append, stmt, hk]
  simp only [hrest, if_true, List.length_nil, after_zero]

theorem ReadsBack.retValue {e : Expr} {k t : Token} {ts : List Token}
    (hk : k.kind = .returnWord) (ht : startsOperand t.kind = true)
    (he : ReadsBack (.expr .lowest e) (t :: ts)) :
    ReadsBack (.stmt (.ret (some e))) (k :: t :: ts) := by
  refine ⟨k, t :: ts, rfl, by simp [hk], fun rest hrest => ?_⟩
  have hValue : expr .lowest (t :: ts ++ rest) = took e (t :: ts).length :=
    he.lowest (.of_endsReturn hrest)
  -- no token ends a `return` and starts an operand as well
  have hOpen : endsReturn (lookahead (t :: ts ++ rest)) = false := by
    rw [List.cons_append, lookahead_cons]
    cases ht' : t.kind <;> rw [ht'] at ht <;> first | rfl | cases ht
  rw [stmt, hk]
  simp only [hOpen, Bool.false_eq_true, if_false, hValue, took_andThen, List.drop_left]

theorem ReadsBack.value {e : Expr} {t : Token} {ts : List Token}
    (ht : startsOperand t.kind = true) (he : ReadsBack (.expr .lowest e) (t :: ts)) :
    ReadsBack (.stmt (.expr e)) (t :: ts) := by
  refine ⟨t, ts, rfl, ?_, fun rest hrest => ?_⟩
  · intro h
    rw [h] at ht
    cases ht
  have hValue : exprFrom .lowest t (ts ++ rest) = took e ts.length :=
    exprFrom_of_expr (he.lowest (.of_endsReturn hrest))
  rw [stmt]
  split
  -- neither `let` nor `return` starts an operand
  · next h =>
      rw [h] at ht
      cases ht
  · next h =>
      rw [h] at ht
      cases ht
  · rw [hValue, took_andThen, List.drop_left]

/-! ## Lists of statements -/

theorem block_of_stmt {s : Stmt} {ss : List Stmt} {t : Token} {ts us : List Token} {m n : Nat}
    (ht : t.kind ≠ .rbrace) (hs : stmt t ts = took s n) (hts : ts.drop n = us)
    (hss : block us = ⟨ss, [], m⟩) : block (t :: ts) = ⟨s :: ss, [], n + m + 1⟩ := by
  rw [block, if_neg ht, hs]
  simp [took, Reading.bind, hts, hss, Reading.map, shift]

theorem program_of_stmt {s : Stmt} {ss : List Stmt} {t : Token} {ts us : List Token} {m n : Nat}
    (hs : stmt t ts = took s n) (hts : ts.drop n = us) (hss : program us = ⟨ss, [], m⟩) :
    program (t :: ts) = ⟨s :: ss, [], n + m + 1⟩ := by
  rw [program, hs]
  simp [took, Reading.bind, hts, hss, Reading.map, shift]

theorem ReadsBack.noStmts : ReadsBack (.stmts []) [] := by
  refine ⟨fun d rest hd => ?_, ?_⟩
  · rw [List.nil_append, block, if_pos hd]
    rfl
  · rw [program]
    rfl

theorem ReadsBack.lastStmt {s : Stmt} {ts : List Token} (hs : ReadsBack (.stmt s) ts) :
    ReadsBack (.stmts [s]) ts := by
  rcases hs with ⟨t, us, rfl, ht, hStmt⟩
  refine ⟨fun d rest hd => ?_, ?_⟩
  · have hRead : stmt t (us ++ d :: rest) = took s us.length := by
      rw [hStmt _ (by rw [lookahead_cons, hd]; rfl),
        ended_of_ne (by rw [lookahead_cons, hd]; decide), after_took, Nat.add_zero]
    have hEnd : block (d :: rest) = ⟨[], [], 1⟩ := ReadsBack.noStmts.1 d rest hd
    exact block_of_stmt ht hRead List.drop_left hEnd
  · have hRead : stmt t us = took s us.length := by
      have hWhole : stmt t (us ++ []) = (ended s []).after us.length := hStmt [] rfl
      rwa [List.append_nil, ended_of_ne (by decide), after_took] at hWhole
    exact program_of_stmt hRead List.drop_length ReadsBack.noStmts.2

theorem ReadsBack.separated {s : Stmt} {ss : List Stmt} {t : Token} {ts us : List Token}
    (hs : ReadsBack (.stmt s) ts) (ht : t.kind = .semicolon) (hss : ReadsBack (.stmts ss) us) :
    ReadsBack (.stmts (s :: ss)) (ts ++ t :: us) := by
  rcases hs with ⟨k, ts, rfl, hk, hStmt⟩
  have hRead : ∀ rest, stmt k (ts ++ t :: rest) = took s (ts.length + 1) := by
    intro rest
    rw [hStmt _ (by rw [lookahead_cons, ht]; rfl), ended_of_semicolon ht, after_took]
  have hDrop : ∀ rest, (ts ++ t :: rest).drop (ts.length + 1) = rest := by
    intro rest
    simp
  refine ⟨fun d rest hd => ?_, ?_⟩
  · have hBlock := block_of_stmt hk (hRead (us ++ d :: rest)) (hDrop _) (hss.1 d rest hd)
    simpa [Nat.add_assoc, Nat.add_comm, Nat.add_left_comm] using hBlock
  · have hProgram := program_of_stmt (hRead us) (hDrop _) hss.2
    simpa [Nat.add_assoc, Nat.add_comm, Nat.add_left_comm] using hProgram

/-! ## Every phrase -/

/-- Behind an argument stands a comma or the closing bracket. -/
theorem follows_moreArguments {sep : Separation} {es : List Expr} {us : List Token}
    (h : Derives sep (.moreArguments es) us) {c : Token} (rest : List Token)
    (hc : c.kind = .rparen) : Follows (lookahead (us ++ c :: rest)) .lowest := by
  cases h with
  | noMoreArguments => exact follows_rparen hc
  | moreArguments ht =>
      rw [List.cons_append, lookahead_cons, ht]
      exact ⟨by decide, by decide⟩

/-- What is written with a semicolon behind every statement is read back. -/
theorem readsBack_of_derives {x : Phrase} {ts : List Token} (h : Derives .required x ts) :
    ReadsBack x ts := by
  induction h with
  -- atoms
  | ident ht =>
      refine .of_operand fun rest _ => ?_
      rw [operand, ht]
      rfl
  | int ht hn =>
      refine .of_operand fun rest _ => ?_
      rw [operand, ht]
      simp only [intOf?_eq_some_iff.2 hn]
      rfl
  | trueWord ht =>
      refine .of_operand fun rest _ => ?_
      rw [operand, ht]
      rfl
  | falseWord ht =>
      refine .of_operand fun rest _ => ?_
      rw [operand, ht]
      rfl
  -- brackets, operators and calls
  | group ho _ hc ihe => exact .group ho ihe hc
  | prefixOp hp ht _ ihe => exact .prefixOp hp ht ihe
  | infixOp hp _ ht hq _ ihl ihr => exact .infixOp hp ihl ht hq ihr
  | call _ ho _ hc ihf ihes => exact .call ihf ho ihes hc
  -- conditionals and function literals
  | cond hk ho _ hc hb _ hd ihe ihss => exact .cond hk ho ihe hc hb ihss hd
  | condElse hk ho _ hc hb _ hd hl hb' _ hd' ihe ihss ihss' =>
      exact .condElse hk ho ihe hc hb ihss hd hl hb' ihss' hd'
  | fn hk ho _ hc hb _ hd ihn ihss => exact .fn hk ho ihn hc hb ihss hd
  -- lists between brackets, where every argument starts with a token of its own
  | noArguments => exact .noArguments
  | arguments he hes ihe ihes =>
      rcases he.exists_cons with ⟨t, ts, rfl, ht⟩
      exact .arguments ht ihe ihes fun _ rest hc => follows_moreArguments hes rest hc
  | noMoreArguments => exact .noMoreArguments
  | moreArguments ht _ hes ihe ihes =>
      exact .moreArguments ht ihe ihes fun _ rest hc => follows_moreArguments hes rest hc
  | noParameters => exact .noParameters
  | parameters hn _ ihns => exact .parameters hn ihns
  | noMoreParameters => exact .noMoreParameters
  | moreParameters ht hn _ ihns => exact .moreParameters ht hn ihns
  -- statements
  | bind hk hn ha _ ihe => exact .bind hk hn ha ihe
  | ret hk => exact .ret hk
  | retValue hk he ihe =>
      rcases he.exists_cons with ⟨t, ts, rfl, ht⟩
      exact .retValue hk ht ihe
  | value he ihe =>
      rcases he.exists_cons with ⟨t, ts, rfl, ht⟩
      exact .value ht ihe
  | noStmts => exact .noStmts
  | lastStmt _ ihs => exact .lastStmt ihs
  | separated _ ht _ ihs ihss => exact .separated ihs ht ihss
  -- semicolons are required, so no statement stands next to another
  | adjacent hsep => cases hsep

end Grammar
end MonkeyLang
