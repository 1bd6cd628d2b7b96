import MonkeyLang.Grammar.Program

/-!
# Derivation — the grammar as a relation between phrases and tokens

`Derives sep x ts` says that the tokens `ts` are a way to write the phrase `x`.  It is the grammar
of the language, stated without any reader: expressions are stratified by the level of their
root, binary operators group to the left, and a phrase may be put in brackets wherever an
expression may stand.

Statement lists come in two forms.  With `Separation.required` a semicolon stands behind every
statement, and only the one before a closing brace or the end of the input may be left out.  With
`Separation.optional` every semicolon may be left out, except behind a `return` without value
that another statement follows.
-/

namespace MonkeyLang

/-! ## Levels -/

namespace Precedence

instance : LE Precedence :=
  ⟨fun p q => p.rank ≤ q.rank⟩

instance (p q : Precedence) : Decidable (p ≤ q) :=
  inferInstanceAs (Decidable (p.rank ≤ q.rank))

theorem not_lt_iff {p q : Precedence} : ¬ p < q ↔ q ≤ p :=
  Nat.not_lt

theorem lowest_le (p : Precedence) : lowest ≤ p :=
  Nat.zero_le _

theorem le_call (p : Precedence) : p ≤ call := by
  cases p <;> decide

end Precedence

/-! ## Tokens of operators -/

/-- The kind of token that stands for an operator in front of its operand. -/
def PrefixOp.kind : PrefixOp → Kind
  | .bang => .bang
  | .minus => .minus

/-- The kind of token that stands for an operator between its operands. -/
def InfixOp.kind : InfixOp → Kind
  | .plus => .plus
  | .minus => .minus
  | .asterisk => .asterisk
  | .slash => .slash
  | .lt => .lt
  | .gt => .gt
  | .eq => .eq
  | .notEq => .notEq

@[simp] theorem InfixOp.ofKind?_kind (op : InfixOp) : InfixOp.ofKind? op.kind = some op := by
  cases op <;> rfl

@[simp] theorem InfixOp.ofKind_kind (op : InfixOp) : Precedence.ofKind op.kind = op.precedence := by
  cases op <;> rfl

theorem InfixOp.kind_of_ofKind? {k : Kind} {op : InfixOp} (h : InfixOp.ofKind? k = some op) :
    k = op.kind := by
  cases k <;> cases h <;> rfl

/-- What binds but is no operator is the bracket of a call. -/
theorem Precedence.eq_lparen_of_lt {min : Precedence} {k : Kind} (hlt : min < ofKind k)
    (hop : InfixOp.ofKind? k = none) : k = .lparen := by
  have hLowest : lowest < ofKind k := Nat.lt_of_le_of_lt (lowest_le min) hlt
  have hKind := (lowest_lt_ofKind_iff k).1 hLowest
  simpa [hop] using hKind

theorem InfixOp.lowest_lt_precedence (op : InfixOp) : Precedence.lowest < op.precedence := by
  cases op <;> decide

theorem InfixOp.precedence_lt_unary (op : InfixOp) : op.precedence < Precedence.unary := by
  cases op <;> decide

namespace Grammar

/-! ## Numbers -/

/-- A run of digits is the literal of `n` exactly if its value is `n`. -/
theorem intOf?_eq_some_iff {digits : String} {n : Int64} :
    intOf? digits = some n ↔ (digitsValue digits.toList : Int) = n.toInt := by
  have hLargest : largestInt = 9223372036854775807 := rfl
  have hSize : n.toInt < 9223372036854775808 := n.toInt_lt
  constructor
  · intro h
    simp only [intOf?, hLargest] at h
    split at h
    · next hle =>
        rw [← Option.some.inj h, Int64.toInt_ofNat_of_lt (Nat.lt_succ_of_le hle)]
    · cases h
  · intro h
    have hle : digitsValue digits.toList ≤ 9223372036854775807 := by omega
    have hValue : Int64.ofNat (digitsValue digits.toList) = n := by
      rw [← Int64.ofInt_eq_ofNat, h, Int64.ofInt_toInt]
    simp only [intOf?, hLargest, if_pos hle, hValue]

/-! ## Phrases -/

/-- What a run of tokens can stand for.  An expression comes with the least level that its place
asks of its root. -/
inductive Phrase
  | expr (least : Precedence) (e : Expr)
  | arguments (es : List Expr)
  | moreArguments (es : List Expr)
  | parameters (names : List String)
  | moreParameters (names : List String)
  | stmt (s : Stmt)
  | stmts (ss : List Stmt)

/-- Whether a statement may follow another one without a semicolon between them. -/
inductive Separation
  | required
  | optional

/-- The tokens that a phrase can be written with. -/
inductive Derives (sep : Separation) : Phrase → List Token → Prop
  -- atoms and brackets
  | ident {p : Precedence} {t : Token} (ht : t.kind = .ident) :
      Derives sep (.expr p (.ident t.literal)) [t]
  | int {p : Precedence} {n : Int64} {t : Token} (ht : t.kind = .int)
      (hn : (digitsValue t.literal.toList : Int) = n.toInt) :
      Derives sep (.expr p (.int n)) [t]
  | trueWord {p : Precedence} {t : Token} (ht : t.kind = .trueWord) :
      Derives sep (.expr p (.bool true)) [t]
  | falseWord {p : Precedence} {t : Token} (ht : t.kind = .falseWord) :
      Derives sep (.expr p (.bool false)) [t]
  | group {p : Precedence} {e : Expr} {o c : Token} {ts : List Token} (ho : o.kind = .lparen)
      (he : Derives sep (.expr .lowest e) ts) (hc : c.kind = .rparen) :
      Derives sep (.expr p e) (o :: (ts ++ [c]))
  -- operators and calls
  | prefixOp {p : Precedence} {op : PrefixOp} {e : Expr} {t : Token} {ts : List Token}
      (hp : p ≤ .unary) (ht : t.kind = op.kind) (he : Derives sep (.expr .unary e) ts) :
      Derives sep (.expr p (.prefixOp op e)) (t :: ts)
  | infixOp {p q : Precedence} {op : InfixOp} {l r : Expr} {t : Token} {ts us : List Token}
      (hp : p ≤ op.precedence) (hl : Derives sep (.expr op.precedence l) ts)
      (ht : t.kind = op.kind) (hq : op.precedence < q) (hr : Derives sep (.expr q r) us) :
      Derives sep (.expr p (.infixOp op l r)) (ts ++ t :: us)
  | call {p : Precedence} {f : Expr} {es : List Expr} {o c : Token} {ts us : List Token}
      (hf : Derives sep (.expr .call f) ts) (ho : o.kind = .lparen)
      (hes : Derives sep (.arguments es) us) (hc : c.kind = .rparen) :
      Derives sep (.expr p (.call f es)) (ts ++ o :: (us ++ [c]))
  -- conditionals and function literals
  | cond {p : Precedence} {e : Expr} {ss : List Stmt} {k o c b d : Token} {ts us : List Token}
      (hk : k.kind = .ifWord) (ho : o.kind = .lparen) (he : Derives sep (.expr .lowest e) ts)
      (hc : c.kind = .rparen) (hb : b.kind = .lbrace) (hss : Derives sep (.stmts ss) us)
      (hd : d.kind = .rbrace) :
      Derives sep (.expr p (.cond e ss none)) (k :: o :: (ts ++ c :: b :: (us ++ [d])))
  | condElse {p : Precedence} {e : Expr} {ss ss' : List Stmt} {k o c b d l b' d' : Token}
      {ts us us' : List Token}
      (hk : k.kind = .ifWord) (ho : o.kind = .lparen) (he : Derives sep (.expr .lowest e) ts)
      (hc : c.kind = .rparen) (hb : b.kind = .lbrace) (hss : Derives sep (.stmts ss) us)
      (hd : d.kind = .rbrace) (hl : l.kind = .elseWord) (hb' : b'.kind = .lbrace)
      (hss' : Derives sep (.stmts ss') us') (hd' : d'.kind = .rbrace) :
      Derives sep (.expr p (.cond e ss (some ss')))
        (k :: o :: (ts ++ c :: b :: (us ++ d :: l :: b' :: (us' ++ [d']))))
  | fn {p : Precedence} {names : List String} {ss : List Stmt} {k o c b d : Token}
      {ts us : List Token}
      (hk : k.kind = .fnWord) (ho : o.kind = .lparen) (hn : Derives sep (.parameters names) ts)
      (hc : c.kind = .rparen) (hb : b.kind = .lbrace) (hss : Derives sep (.stmts ss) us)
      (hd : d.kind = .rbrace) :
      Derives sep (.expr p (.fn names ss)) (k :: o :: (ts ++ c :: b :: (us ++ [d])))
  -- lists between brackets
  | noArguments : Derives sep (.arguments []) []
  | arguments {e : Expr} {es : List Expr} {ts us : List Token}
      (he : Derives sep (.expr .lowest e) ts) (hes : Derives sep (.moreArguments es) us) :
      Derives sep (.arguments (e :: es)) (ts ++ us)
  | noMoreArguments : Derives sep (.moreArguments []) []
  | moreArguments {e : Expr} {es : List Expr} {t : Token} {ts us : List Token}
      (ht : t.kind = .comma) (he : Derives sep (.expr .lowest e) ts)
      (hes : Derives sep (.moreArguments es) us) :
      Derives sep (.moreArguments (e :: es)) (t :: (ts ++ us))
  | noParameters : Derives sep (.parameters []) []
  | parameters {names : List String} {n : Token} {ts : List Token} (hn : n.kind = .ident)
      (hns : Derives sep (.moreParameters names) ts) :
      Derives sep (.parameters (n.literal :: names)) (n :: ts)
  | noMoreParameters : Derives sep (.moreParameters []) []
  | moreParameters {names : List String} {t n : Token} {ts : List Token} (ht : t.kind = .comma)
      (hn : n.kind = .ident) (hns : Derives sep (.moreParameters names) ts) :
      Derives sep (.moreParameters (n.literal :: names)) (t :: n :: ts)
  -- statements
  | bind {e : Expr} {k n a : Token} {ts : List Token} (hk : k.kind = .letWord)
      (hn : n.kind = .ident) (ha : a.kind = .assign) (he : Derives sep (.expr .lowest e) ts) :
      Derives sep (.stmt (.bind n.literal e)) (k :: n :: a :: ts)
  | ret {k : Token} (hk : k.kind = .returnWord) : Derives sep (.stmt (.ret none)) [k]
  | retValue {e : Expr} {k : Token} {ts : List Token} (hk : k.kind = .returnWord)
      (he : Derives sep (.expr .lowest e) ts) :
      Derives sep (.stmt (.ret (some e))) (k :: ts)
  | value {e : Expr} {ts : List Token} (he : Derives sep (.expr .lowest e) ts) :
      Derives sep (.stmt (.expr e)) ts
  -- lists of statements
  | noStmts : Derives sep (.stmts []) []
  | lastStmt {s : Stmt} {ts : List Token} (hs : Derives sep (.stmt s) ts) :
      Derives sep (.stmts [s]) ts
  | separated {s : Stmt} {ss : List Stmt} {t : Token} {ts us : List Token}
      (hs : Derives sep (.stmt s) ts) (ht : t.kind = .semicolon)
      (hss : Derives sep (.stmts ss) us) :
      Derives sep (.stmts (s :: ss)) (ts ++ t :: us)
  | adjacent {s : Stmt} {ss : List Stmt} {ts us : List Token} (hsep : sep = .optional)
      (hret : s ≠ .ret none) (hs : Derives sep (.stmt s) ts) (hss : Derives sep (.stmts ss) us) :
      Derives sep (.stmts (s :: ss)) (ts ++ us)

/-- The kinds of tokens that an operand can start with. -/
def startsOperand : Kind → Bool
  | .ident => true
  | .int => true
  | .trueWord => true
  | .falseWord => true
  | .bang => true
  | .minus => true
  | .lparen => true
  | .ifWord => true
  | .fnWord => true
  | _ => false

namespace Derives

variable {sep : Separation}

/-! ## Places that ask for less -/

/-- What may stand in a place may stand in every place that asks for a lower level. -/
theorem weaken {p q : Precedence} {e : Expr} {ts : List Token} (h : Derives sep (.expr p e) ts)
    (hq : q ≤ p) : Derives sep (.expr q e) ts := by
  cases h with
  | ident ht => exact .ident ht
  | int ht hn => exact .int ht hn
  | trueWord ht => exact .trueWord ht
  | falseWord ht => exact .falseWord ht
  | group ho he hc => exact .group ho he hc
  | prefixOp hp ht he => exact .prefixOp (Nat.le_trans hq hp) ht he
  | infixOp hp hl ht hlt hr => exact .infixOp (Nat.le_trans hq hp) hl ht hlt hr
  | call hf ho hes hc => exact .call hf ho hes hc
  | cond hk ho he hc hb hss hd => exact .cond hk ho he hc hb hss hd
  | condElse hk ho he hc hb hss hd hl hb' hss' hd' =>
      exact .condElse hk ho he hc hb hss hd hl hb' hss' hd'
  | fn hk ho hn hc hb hss hd => exact .fn hk ho hn hc hb hss hd

/-! ## First tokens -/

/-- An expression is written with at least one token, and the first one starts an operand. -/
theorem exists_cons {p : Precedence} {e : Expr} {ts : List Token}
    (h : Derives sep (.expr p e) ts) :
    ∃ t us, ts = t :: us ∧ startsOperand t.kind = true := by
  generalize hx : Phrase.expr p e = x at h
  -- only the left operand of an operator and the callee of a call stand at the front
  induction h generalizing p e with
  | ident ht => exact ⟨_, _, rfl, by rw [ht]; rfl⟩
  | int ht _ => exact ⟨_, _, rfl, by rw [ht]; rfl⟩
  | trueWord ht => exact ⟨_, _, rfl, by rw [ht]; rfl⟩
  | falseWord ht => exact ⟨_, _, rfl, by rw [ht]; rfl⟩
  | group ho => exact ⟨_, _, rfl, by rw [ho]; rfl⟩
  | @prefixOp p op e t ts hp ht he ih =>
      refine ⟨_, _, rfl, ?_⟩
      rw [ht]
      cases op <;> rfl
  | infixOp hp hl ht hq hr ihl ihr =>
      rcases ihl rfl with ⟨t, us, rfl, hstart⟩
      exact ⟨t, _, rfl, hstart⟩
  | call hf ho hes hc ihf ihes =>
      rcases ihf rfl with ⟨t, us, rfl, hstart⟩
      exact ⟨t, _, rfl, hstart⟩
  | cond hk => exact ⟨_, _, rfl, by rw [hk]; rfl⟩
  | condElse hk => exact ⟨_, _, rfl, by rw [hk]; rfl⟩
  | fn hk => exact ⟨_, _, rfl, by rw [hk]; rfl⟩
  | _ => cases hx

end Derives

/-! ## Braces -/

/-- There are as many closing braces as opening ones. -/
def Balanced (ts : List Token) : Prop :=
  (ts.map Token.kind).count .lbrace = (ts.map Token.kind).count .rbrace

instance (ts : List Token) : Decidable (Balanced ts) :=
  inferInstanceAs (Decidable (_ = _))

theorem Balanced.nil : Balanced [] :=
  rfl

theorem Balanced.append {ts us : List Token} (hts : Balanced ts) (hus : Balanced us) :
    Balanced (ts ++ us) := by
  unfold Balanced at *
  rw [List.map_append, List.count_append, List.count_append, hts, hus]

theorem Balanced.of_append {ts us : List Token} (h : Balanced (ts ++ us)) (hts : Balanced ts) :
    Balanced us := by
  unfold Balanced at *
  rw [List.map_append, List.count_append, List.count_append, hts] at h
  exact Nat.add_left_cancel h

theorem Balanced.cons {k : Kind} {t : Token} {ts : List Token} (ht : t.kind = k)
    (hk : k ≠ .lbrace ∧ k ≠ .rbrace) (hts : Balanced ts) : Balanced (t :: ts) := by
  unfold Balanced at *
  rw [List.map_cons, ht, List.count_cons_of_ne hk.1, List.count_cons_of_ne hk.2, hts]

theorem Balanced.block {b d : Token} {us rest : List Token} (hb : b.kind = .lbrace)
    (hus : Balanced us) (hd : d.kind = .rbrace) (hrest : Balanced rest) :
    Balanced (b :: (us ++ d :: rest)) := by
  unfold Balanced at *
  simp only [List.map_cons, List.map_append, hb, hd, List.count_append, List.count_cons, hus,
    hrest]
  simp
  omega

/-- Braces are written around blocks and nowhere else. -/
theorem Derives.balanced {sep : Separation} {x : Phrase} {ts : List Token}
    (h : Derives sep x ts) : Balanced ts := by
  induction h with
  | ident ht => exact .cons ht ⟨nofun, nofun⟩ .nil
  | int ht => exact .cons ht ⟨nofun, nofun⟩ .nil
  | trueWord ht => exact .cons ht ⟨nofun, nofun⟩ .nil
  | falseWord ht => exact .cons ht ⟨nofun, nofun⟩ .nil
  | group ho _ hc ihe =>
      exact .cons ho ⟨nofun, nofun⟩ (ihe.append (.cons hc ⟨nofun, nofun⟩ .nil))
  | @prefixOp _ op _ _ _ _ ht _ ihe => exact .cons ht (by cases op <;> decide) ihe
  | @infixOp _ _ op _ _ _ _ _ _ _ ht _ _ ihl ihr =>
      exact ihl.append (.cons ht (by cases op <;> decide) ihr)
  | call _ ho _ hc ihf ihes =>
      exact ihf.append (.cons ho ⟨nofun, nofun⟩ (ihes.append (.cons hc ⟨nofun, nofun⟩ .nil)))
  | cond hk ho _ hc hb _ hd ihe ihss =>
      have hBlock := Balanced.block hb ihss hd .nil
      exact .cons hk ⟨nofun, nofun⟩ (.cons ho ⟨nofun, nofun⟩
        (ihe.append (.cons hc ⟨nofun, nofun⟩ hBlock)))
  | condElse hk ho _ hc hb _ hd hl hb' _ hd' ihe ihss ihss' =>
      have hAlternative := Balanced.block hb' ihss' hd' .nil
      have hBlock := Balanced.block hb ihss hd (.cons hl ⟨nofun, nofun⟩ hAlternative)
      exact .cons hk ⟨nofun, nofun⟩ (.cons ho ⟨nofun, nofun⟩
        (ihe.append (.cons hc ⟨nofun, nofun⟩ hBlock)))
  | fn hk ho _ hc hb _ hd ihn ihss =>
      have hBlock := Balanced.block hb ihss hd .nil
      exact .cons hk ⟨nofun, nofun⟩ (.cons ho ⟨nofun, nofun⟩
        (ihn.append (.cons hc ⟨nofun, nofun⟩ hBlock)))
  | noArguments => exact .nil
  | arguments _ _ ihe ihes => exact ihe.append ihes
  | noMoreArguments => exact .nil
  | moreArguments ht _ _ ihe ihes => exact .cons ht ⟨nofun, nofun⟩ (ihe.append ihes)
  | noParameters => exact .nil
  | parameters hn _ ihns => exact .cons hn ⟨nofun, nofun⟩ ihns
  | noMoreParameters => exact .nil
  | moreParameters ht hn _ ihns => exact .cons ht ⟨nofun, nofun⟩ (.cons hn ⟨nofun, nofun⟩ ihns)
  | bind hk hn ha _ ihe =>
      exact .cons hk ⟨nofun, nofun⟩ (.cons hn ⟨nofun, nofun⟩ (.cons ha ⟨nofun, nofun⟩ ihe))
  | ret hk => exact .cons hk ⟨nofun, nofun⟩ .nil
  | retValue hk _ ihe => exact .cons hk ⟨nofun, nofun⟩ ihe
  | value _ ihe => exact ihe
  | noStmts => exact .nil
  | lastStmt _ ihs => exact ihs
  | separated _ ht _ ihs ihss => exact ihs.append (.cons ht ⟨nofun, nofun⟩ ihss)
  | adjacent _ _ _ _ ihs ihss => exact ihs.append ihss

end Grammar
end MonkeyLang
