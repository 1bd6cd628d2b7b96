import MonkeyLang.Proofs.Grammar.Completeness
import MonkeyLang.Proofs.Token.Spelling

/-!
# Rendering — programs as source text, and back

A program is writable if source text can say it: its names are names, its numbers are not
negative, and no block stands as a statement.  A rendering of a program is a token list that the
grammar derives it from, with a semicolon behind every statement.  Every writable program has a
rendering, and whatever source text is cut into one is read back as that program, without a
defect.
-/

namespace MonkeyLang

/-! ## Programs that source text can say -/

/-- A run of letters that is not reserved. -/
def IsName (name : String) : Prop :=
  name.toList ≠ [] ∧ (∀ c ∈ name.toList, Token.isLetter c = true) ∧
    name ∉ Kind.keywords.map Prod.fst

instance (name : String) : Decidable (IsName name) :=
  decidable_of_iff (name.toList ≠ [] ∧ name.toList.all Token.isLetter = true ∧
      name ∉ Kind.keywords.map Prod.fst)
    (and_congr_right fun _ => and_congr_left fun _ => List.all_eq_true)

mutual

def Expr.Writable : Expr → Prop
  | .ident name => IsName name
  | .int n => 0 ≤ n.toInt
  | .bool _ => True
  | .prefixOp _ right => right.Writable
  | .infixOp _ left right => left.Writable ∧ right.Writable
  | .cond condition consequence none => condition.Writable ∧ Stmt.AllWritable consequence
  | .cond condition consequence (some alternative) =>
      condition.Writable ∧ Stmt.AllWritable consequence ∧ Stmt.AllWritable alternative
  | .fn parameters body => (∀ name ∈ parameters, IsName name) ∧ Stmt.AllWritable body
  | .call callee arguments => callee.Writable ∧ Expr.AllWritable arguments

def Expr.AllWritable : List Expr → Prop
  | [] => True
  | e :: es => e.Writable ∧ Expr.AllWritable es

def Stmt.Writable : Stmt → Prop
  | .bind name value => IsName name ∧ value.Writable
  | .ret none => True
  | .ret (some value) => value.Writable
  | .expr value => value.Writable
  | .block _ => False

def Stmt.AllWritable : List Stmt → Prop
  | [] => True
  | s :: ss => s.Writable ∧ Stmt.AllWritable ss

end

/-- A program that source text can say. -/
def Program.Writable (p : Program) : Prop :=
  Stmt.AllWritable p.statements

/-- The tokens are a way to write the program: blocks in braces, a semicolon behind every
statement but the last of a list, and brackets wherever an operand binds too weakly for its
place, or anywhere else. -/
def Program.Rendering (p : Program) (ts : List Token) : Prop :=
  Grammar.Derives .required (.stmts p.statements) ts

namespace Grammar

open Reading

/-! ## Every writable program has a rendering -/

/-- The phrase can be written with tokens that are spelled by their literals. -/
def Spellable (x : Phrase) : Prop :=
  ∃ ts, Derives .required x ts ∧ ∀ t ∈ ts, t.Spelled

theorem exists_name {name : String} (h : IsName name) :
    ∃ t : Token, t.kind = .ident ∧ t.literal = name ∧ t.Spelled := by
  rcases h with ⟨hne, hLetters, hReserved⟩
  have hKind : Kind.ofWord name = .ident := Kind.ofWord_of_not_mem hReserved
  cases hName : name.toList with
  | nil => exact absurd hName hne
  | cons c cs =>
      rw [hName] at hLetters
      have hText : String.ofList (c :: cs) = name := by
        rw [← hName, String.ofList_toList]
      have hLetter := List.forall_mem_cons.1 hLetters
      refine ⟨Token.ofWord (c :: cs), ?_, hText, Token.spelled_word hLetter.1 hLetter.2⟩
      simp only [Token.ofWord, hText, hKind]

theorem isDigit_of_mem_toDigits {n : Nat} {c : Char} (h : c ∈ Nat.toDigits 10 n) :
    Token.isDigit c = true := by
  have hDigit : c.isDigit = true := Nat.isDigit_of_mem_toDigits (by decide) (by decide) h
  simp only [Char.isDigit, Bool.and_eq_true, decide_eq_true_eq] at hDigit
  simp only [Token.isDigit, Bool.and_eq_true, decide_eq_true_eq]
  exact hDigit

/-- A number has the value that its decimal digits give. -/
theorem digitsValue_toDigits {n : Int64} (h : 0 ≤ n.toInt) :
    (digitsValue (Nat.toDigits 10 n.toInt.toNat) : Int) = n.toInt := by
  have hValue : digitsValue (Nat.toDigits 10 n.toInt.toNat) = n.toInt.toNat :=
    Nat.ofDigitChars_ten_toDigits
  omega

theorem exists_number {n : Int64} (h : 0 ≤ n.toInt) :
    ∃ t : Token, t.kind = .int ∧ (digitsValue t.literal.toList : Int) = n.toInt ∧
      t.Spelled := by
  have hDigits : ∀ c ∈ Nat.toDigits 10 n.toInt.toNat, Token.isDigit c = true :=
    fun _ => isDigit_of_mem_toDigits
  have hValue := digitsValue_toDigits h
  cases hText : Nat.toDigits 10 n.toInt.toNat with
  | nil => exact absurd hText Nat.toDigits_ne_nil
  | cons c cs =>
      rw [hText] at hDigits hValue
      have hDigit := List.forall_mem_cons.1 hDigits
      refine ⟨Token.ofChars .int (c :: cs), rfl, ?_, Token.spelled_number hDigit.1 hDigit.2⟩
      simpa only [Token.ofChars, String.toList_ofList] using hValue

theorem spelled_append {ts us : List Token} (hts : ∀ t ∈ ts, t.Spelled)
    (hus : ∀ t ∈ us, t.Spelled) : ∀ t ∈ ts ++ us, t.Spelled :=
  List.forall_mem_append.2 ⟨hts, hus⟩

theorem spelled_cons {t : Token} {ts : List Token} (ht : t.Spelled) (hts : ∀ t ∈ ts, t.Spelled) :
    ∀ u ∈ t :: ts, u.Spelled :=
  List.forall_mem_cons.2 ⟨ht, hts⟩

theorem spelled_singleton {t : Token} (ht : t.Spelled) : ∀ u ∈ [t], u.Spelled :=
  spelled_cons ht (List.forall_mem_nil _)

/-- In brackets an expression may stand anywhere. -/
theorem Spellable.group {p q : Precedence} {e : Expr} (h : Spellable (.expr q e)) :
    Spellable (.expr p e) := by
  rcases h with ⟨ts, he, hts⟩
  rcases Token.exists_spelled (k := .lparen) nofun nofun with ⟨o, ho, hso⟩
  rcases Token.exists_spelled (k := .rparen) nofun nofun with ⟨c, hc, hsc⟩
  refine ⟨_, .group ho (he.weaken (Precedence.lowest_le q)) hc, ?_⟩
  exact spelled_cons hso (spelled_append hts (spelled_singleton hsc))

theorem Spellable.ident {p : Precedence} {name : String} (h : IsName name) :
    Spellable (.expr p (.ident name)) := by
  rcases exists_name h with ⟨t, ht, rfl, hst⟩
  exact ⟨[t], .ident ht, spelled_singleton hst⟩

theorem Spellable.int {p : Precedence} {n : Int64} (h : 0 ≤ n.toInt) :
    Spellable (.expr p (.int n)) := by
  rcases exists_number h with ⟨t, ht, hn, hst⟩
  exact ⟨[t], .int ht hn, spelled_singleton hst⟩

theorem Spellable.bool {p : Precedence} (b : Bool) : Spellable (.expr p (.bool b)) := by
  cases b with
  | true =>
      rcases Token.exists_spelled (k := .trueWord) nofun nofun with ⟨t, ht, hst⟩
      exact ⟨[t], .trueWord ht, spelled_singleton hst⟩
  | false =>
      rcases Token.exists_spelled (k := .falseWord) nofun nofun with ⟨t, ht, hst⟩
      exact ⟨[t], .falseWord ht, spelled_singleton hst⟩

theorem Spellable.prefixOp {op : PrefixOp} {e : Expr} (h : Spellable (.expr .call e)) :
    Spellable (.expr .unary (.prefixOp op e)) := by
  rcases h with ⟨ts, he, hts⟩
  have hKind : op.kind ≠ .illegal ∧ op.kind ≠ .eof := by
    cases op <;> decide
  rcases Token.exists_spelled hKind.1 hKind.2 with ⟨t, ht, hst⟩
  refine ⟨_, .prefixOp (Nat.le_refl _) ht (he.weaken (by decide)), ?_⟩
  exact spelled_cons hst hts

theorem Spellable.infixOp {op : InfixOp} {l r : Expr} (hl : Spellable (.expr .call l))
    (hr : Spellable (.expr .call r)) :
    Spellable (.expr op.precedence (.infixOp op l r)) := by
  rcases hl with ⟨ts, hl, hts⟩
  rcases hr with ⟨us, hr, hus⟩
  have hKind : op.kind ≠ .illegal ∧ op.kind ≠ .eof := by
    cases op <;> decide
  have hTight : op.precedence < .call := Nat.lt_trans op.precedence_lt_unary (by decide)
  rcases Token.exists_spelled hKind.1 hKind.2 with ⟨t, ht, hst⟩
  refine ⟨_, .infixOp (Nat.le_refl _) (hl.weaken (Precedence.le_call _)) ht hTight hr, ?_⟩
  exact spelled_append hts (spelled_cons hst hus)

theorem Spellable.call {f : Expr} {es : List Expr} (hf : Spellable (.expr .call f))
    (hes : Spellable (.arguments es)) : Spellable (.expr .call (.call f es)) := by
  rcases hf with ⟨ts, hf, hts⟩
  rcases hes with ⟨us, hes, hus⟩
  rcases Token.exists_spelled (k := .lparen) nofun nofun with ⟨o, ho, hso⟩
  rcases Token.exists_spelled (k := .rparen) nofun nofun with ⟨c, hc, hsc⟩
  refine ⟨_, .call hf ho hes hc, ?_⟩
  exact spelled_append hts (spelled_cons hso (spelled_append hus (spelled_singleton hsc)))

/-- Statements between braces. -/
theorem Spellable.block {ss : List Stmt} (h : Spellable (.stmts ss)) :
    ∃ (b : Token) (us : List Token) (d : Token), b.kind = .lbrace ∧
      Derives .required (.stmts ss) us ∧ d.kind = .rbrace ∧ b.Spelled ∧
        ∀ t ∈ us ++ [d], t.Spelled := by
  rcases h with ⟨us, hss, hus⟩
  rcases Token.exists_spelled (k := .lbrace) nofun nofun with ⟨b, hb, hsb⟩
  rcases Token.exists_spelled (k := .rbrace) nofun nofun with ⟨d, hd, hsd⟩
  exact ⟨b, us, d, hb, hss, hd, hsb, spelled_append hus (spelled_singleton hsd)⟩

theorem Spellable.cond {p : Precedence} {e : Expr} {ss : List Stmt}
    (he : Spellable (.expr .call e)) (hss : Spellable (.stmts ss)) :
    Spellable (.expr p (.cond e ss none)) := by
  rcases he with ⟨ts, he, hts⟩
  rcases hss.block with ⟨b, us, d, hb, hss, hd, hsb, hus⟩
  rcases Token.exists_spelled (k := .ifWord) nofun nofun with ⟨k, hk, hsk⟩
  rcases Token.exists_spelled (k := .lparen) nofun nofun with ⟨o, ho, hso⟩
  rcases Token.exists_spelled (k := .rparen) nofun nofun with ⟨c, hc, hsc⟩
  refine ⟨_, .cond hk ho (he.weaken (Precedence.lowest_le _)) hc hb hss hd, ?_⟩
  exact spelled_cons hsk (spelled_cons hso (spelled_append hts
    (spelled_cons hsc (spelled_cons hsb hus))))

theorem Spellable.condElse {p : Precedence} {e : Expr} {ss ss' : List Stmt}
    (he : Spellable (.expr .call e)) (hss : Spellable (.stmts ss))
    (hss' : Spellable (.stmts ss')) : Spellable (.expr p (.cond e ss (some ss'))) := by
  rcases he with ⟨ts, he, hts⟩
  rcases hss.block with ⟨b, us, d, hb, hss, hd, hsb, hus⟩
  rcases hss'.block with ⟨b', us', d', hb', hss', hd', hsb', hus'⟩
  rcases Token.exists_spelled (k := .ifWord) nofun nofun with ⟨k, hk, hsk⟩
  rcases Token.exists_spelled (k := .lparen) nofun nofun with ⟨o, ho, hso⟩
  rcases Token.exists_spelled (k := .rparen) nofun nofun with ⟨c, hc, hsc⟩
  rcases Token.exists_spelled (k := .elseWord) nofun nofun with ⟨l, hl, hsl⟩
  refine ⟨_, .condElse hk ho (he.weaken (Precedence.lowest_le _)) hc hb hss hd hl hb' hss' hd',
    ?_⟩
  have hConsequence := List.forall_mem_append.1 hus
  have hTail : ∀ t ∈ us ++ d :: l :: b' :: (us' ++ [d']), t.Spelled :=
    spelled_append hConsequence.1
      (spelled_cons (hConsequence.2 d (List.mem_singleton_self d))
        (spelled_cons hsl (spelled_cons hsb' hus')))
  exact spelled_cons hsk (spelled_cons hso (spelled_append hts
    (spelled_cons hsc (spelled_cons hsb hTail))))

theorem Spellable.moreParameters {names : List String} (h : ∀ name ∈ names, IsName name) :
    Spellable (.moreParameters names) := by
  induction names with
  | nil => exact ⟨[], .noMoreParameters, List.forall_mem_nil _⟩
  | cons name names ih =>
      have hNames := List.forall_mem_cons.1 h
      rcases ih hNames.2 with ⟨ts, hns, hts⟩
      rcases exists_name hNames.1 with ⟨n, hn, rfl, hsn⟩
      rcases Token.exists_spelled (k := .comma) nofun nofun with ⟨t, ht, hst⟩
      exact ⟨_, .moreParameters ht hn hns, spelled_cons hst (spelled_cons hsn hts)⟩

theorem Spellable.parameters {names : List String} (h : ∀ name ∈ names, IsName name) :
    Spellable (.parameters names) := by
  cases names with
  | nil => exact ⟨[], .noParameters, List.forall_mem_nil _⟩
  | cons name names =>
      have hNames := List.forall_mem_cons.1 h
      rcases Spellable.moreParameters hNames.2 with ⟨ts, hns, hts⟩
      rcases exists_name hNames.1 with ⟨n, hn, rfl, hsn⟩
      exact ⟨_, .parameters hn hns, spelled_cons hsn hts⟩

theorem Spellable.fn {p : Precedence} {names : List String} {ss : List Stmt}
    (hn : Spellable (.parameters names)) (hss : Spellable (.stmts ss)) :
    Spellable (.expr p (.fn names ss)) := by
  rcases hn with ⟨ts, hn, hts⟩
  rcases hss.block with ⟨b, us, d, hb, hss, hd, hsb, hus⟩
  rcases Token.exists_spelled (k := .fnWord) nofun nofun with ⟨k, hk, hsk⟩
  rcases Token.exists_spelled (k := .lparen) nofun nofun with ⟨o, ho, hso⟩
  rcases Token.exists_spelled (k := .rparen) nofun nofun with ⟨c, hc, hsc⟩
  refine ⟨_, .fn hk ho hn hc hb hss hd, ?_⟩
  exact spelled_cons hsk (spelled_cons hso (spelled_append hts
    (spelled_cons hsc (spelled_cons hsb hus))))

theorem Spellable.arguments {e : Expr} {es : List Expr} (he : Spellable (.expr .call e))
    (hes : Spellable (.moreArguments es)) : Spellable (.arguments (e :: es)) := by
  rcases he with ⟨ts, he, hts⟩
  rcases hes with ⟨us, hes, hus⟩
  exact ⟨_, .arguments (he.weaken (Precedence.lowest_le _)) hes, spelled_append hts hus⟩

theorem Spellable.moreArguments {e : Expr} {es : List Expr} (he : Spellable (.expr .call e))
    (hes : Spellable (.moreArguments es)) : Spellable (.moreArguments (e :: es)) := by
  rcases he with ⟨ts, he, hts⟩
  rcases hes with ⟨us, hes, hus⟩
  rcases Token.exists_spelled (k := .comma) nofun nofun with ⟨t, ht, hst⟩
  exact ⟨_, .moreArguments ht (he.weaken (Precedence.lowest_le _)) hes,
    spelled_cons hst (spelled_append hts hus)⟩

theorem Spellable.bind {name : String} {e : Expr} (hName : IsName name)
    (he : Spellable (.expr .call e)) : Spellable (.stmt (.bind name e)) := by
  rcases he with ⟨ts, he, hts⟩
  rcases exists_name hName with ⟨n, hn, rfl, hsn⟩
  rcases Token.exists_spelled (k := .letWord) nofun nofun with ⟨k, hk, hsk⟩
  rcases Token.exists_spelled (k := .assign) nofun nofun with ⟨a, ha, hsa⟩
  exact ⟨_, .bind hk hn ha (he.weaken (Precedence.lowest_le _)),
    spelled_cons hsk (spelled_cons hsn (spelled_cons hsa hts))⟩

theorem Spellable.ret : Spellable (.stmt (.ret none)) := by
  rcases Token.exists_spelled (k := .returnWord) nofun nofun with ⟨k, hk, hsk⟩
  exact ⟨[k], .ret hk, spelled_singleton hsk⟩

theorem Spellable.retValue {e : Expr} (he : Spellable (.expr .call e)) :
    Spellable (.stmt (.ret (some e))) := by
  rcases he with ⟨ts, he, hts⟩
  rcases Token.exists_spelled (k := .returnWord) nofun nofun with ⟨k, hk, hsk⟩
  exact ⟨_, .retValue hk (he.weaken (Precedence.lowest_le _)), spelled_cons hsk hts⟩

theorem Spellable.value {e : Expr} (he : Spellable (.expr .call e)) :
    Spellable (.stmt (.expr e)) := by
  rcases he with ⟨ts, he, hts⟩
  exact ⟨ts, .value (he.weaken (Precedence.lowest_le _)), hts⟩

theorem Spellable.stmts {s : Stmt} {ss : List Stmt} (hs : Spellable (.stmt s))
    (hss : Spellable (.stmts ss)) : Spellable (.stmts (s :: ss)) := by
  rcases hs with ⟨ts, hs, hts⟩
  rcases hss with ⟨us, hss, hus⟩
  rcases Token.exists_spelled (k := .semicolon) nofun nofun with ⟨t, ht, hst⟩
  exact ⟨_, .separated hs ht hss, spelled_append hts (spelled_cons hst hus)⟩

mutual

theorem spellable_expr (e : Expr) (h : e.Writable) : Spellable (.expr .call e) := by
  cases e with
  | ident name => exact .ident h
  | int n => exact .int h
  | bool b => exact .bool b
  | prefixOp op right => exact (Spellable.prefixOp (spellable_expr right h)).group
  | infixOp op left right =>
      exact (Spellable.infixOp (spellable_expr left h.1) (spellable_expr right h.2)).group
  | cond condition consequence alternative =>
      cases alternative with
      | none => exact .cond (spellable_expr condition h.1) (spellable_stmts consequence h.2)
      | some alternative =>
          exact .condElse (spellable_expr condition h.1) (spellable_stmts consequence h.2.1)
            (spellable_stmts alternative h.2.2)
  | fn parameters body => exact .fn (.parameters h.1) (spellable_stmts body h.2)
  | call callee arguments =>
      refine .call (spellable_expr callee h.1) ?_
      cases arguments with
      | nil => exact ⟨[], .noArguments, List.forall_mem_nil _⟩
      | cons e es => exact .arguments (spellable_expr e h.2.1) (spellable_moreArguments es h.2.2)

theorem spellable_moreArguments (es : List Expr) (h : Expr.AllWritable es) :
    Spellable (.moreArguments es) := by
  cases es with
  | nil => exact ⟨[], .noMoreArguments, List.forall_mem_nil _⟩
  | cons e es => exact .moreArguments (spellable_expr e h.1) (spellable_moreArguments es h.2)

theorem spellable_stmt (s : Stmt) (h : s.Writable) : Spellable (.stmt s) := by
  cases s with
  | bind name value => exact .bind h.1 (spellable_expr value h.2)
  | ret value =>
      cases value with
      | none => exact .ret
      | some value => exact .retValue (spellable_expr value h)
  | expr value => exact .value (spellable_expr value h)
  | block body => exact h.elim

theorem spellable_stmts (ss : List Stmt) (h : Stmt.AllWritable ss) : Spellable (.stmts ss) := by
  cases ss with
  | nil => exact ⟨[], .noStmts, List.forall_mem_nil _⟩
  | cons s ss => exact .stmts (spellable_stmt s h.1) (spellable_stmts ss h.2)

end

end Grammar

/-- Source text can say every writable program. -/
theorem Program.exists_rendering {p : Program} (h : p.Writable) :
    ∃ source : String, p.Rendering (Token.lexemes source.toList) := by
  rcases Grammar.spellable_stmts p.statements h with ⟨ts, hDerives, hSpelled⟩
  refine ⟨String.ofList (Token.spelling ts), ?_⟩
  rw [String.toList_ofList, Token.lexemes_spelling hSpelled]
  exact hDerives

/-! ## Renderings are read back -/

/-- A token list that renders a program is read as that program. -/
theorem Parsed.ofTokens_of_rendering {p : Program} {ts : List Token} (h : p.Rendering ts) :
    Parsed.ofTokens ts = ⟨p, []⟩ := by
  have hProgram : Grammar.program ts = ⟨p.statements, [], ts.length⟩ :=
    (Grammar.readsBack_of_derives h).2
  simp only [Parsed.ofTokens, hProgram]

/-- Every writable program has a source text, and every source text whose tokens are a rendering
of the program is read as exactly that program, without a defect. -/
theorem parse_of_rendering {p : Program} (hp : p.Writable) :
    (∃ source : String, p.Rendering (Token.lexemes source.toList)) ∧
      ∀ source : String, p.Rendering (Token.lexemes source.toList) →
        parse source = ⟨p, []⟩ :=
  ⟨Program.exists_rendering hp, fun _ h => Parsed.ofTokens_of_rendering h⟩

/-- A program with a minus before a call, an operand that binds too weakly for its place, and
operators of one level. -/
def sampleProgram : Program where
  statements :=
    [.bind "f"
        (.infixOp .minus
          (.infixOp .asterisk (.prefixOp .minus (.call (.ident "a") [.ident "b"]))
            (.infixOp .plus (.ident "c") (.int 1)))
          (.int 2)),
      .ret (some (.cond (.ident "f") [.expr (.prefixOp .bang (.ident "g"))] none))]

/-- The sample in source text, with brackets that are needed and brackets that are not, and
without the semicolons that may be left out. -/
theorem parse_of_rendering_sample :
    sampleProgram.Writable ∧
      parse "let f = -a(b) * (c + 1) - 2; return if ((f)) \x7b !g \x7d" =
        ⟨sampleProgram, []⟩ := by
  have hp : sampleProgram.Writable := by
    simp only [sampleProgram, Program.Writable, Stmt.AllWritable, Stmt.Writable, Expr.Writable,
      Expr.AllWritable]
    decide
  have hTokens :
      Token.lexemes "let f = -a(b) * (c + 1) - 2; return if ((f)) \x7b !g \x7d".toList =
        [⟨.letWord, "let"⟩, ⟨.ident, "f"⟩, ⟨.assign, "="⟩, ⟨.minus, "-"⟩, ⟨.ident, "a"⟩,
          ⟨.lparen, "("⟩, ⟨.ident, "b"⟩, ⟨.rparen, ")"⟩, ⟨.asterisk, "*"⟩, ⟨.lparen, "("⟩,
          ⟨.ident, "c"⟩, ⟨.plus, "+"⟩, ⟨.int, "1"⟩, ⟨.rparen, ")"⟩, ⟨.minus, "-"⟩, ⟨.int, "2"⟩,
          ⟨.semicolon, ";"⟩, ⟨.returnWord, "return"⟩, ⟨.ifWord, "if"⟩, ⟨.lparen, "("⟩,
          ⟨.lparen, "("⟩, ⟨.ident, "f"⟩, ⟨.rparen, ")"⟩, ⟨.rparen, ")"⟩, ⟨.lbrace, "\x7b"⟩,
          ⟨.bang, "!"⟩, ⟨.ident, "g"⟩, ⟨.rbrace, "\x7d"⟩] := by
    decide +kernel
  have hName : ∀ name p, Grammar.Derives .required (.expr p (.ident name)) [⟨.ident, name⟩] :=
    fun name p => .ident (t := ⟨.ident, name⟩) rfl
  have hCall : Grammar.Derives .required (.expr .unary (.call (.ident "a") [.ident "b"]))
      [⟨.ident, "a"⟩, ⟨.lparen, "("⟩, ⟨.ident, "b"⟩, ⟨.rparen, ")"⟩] :=
    Grammar.Derives.call (hName "a" _) rfl (.arguments (hName "b" _) .noMoreArguments) rfl
  have hSum : Grammar.Derives .required (.expr .unary (.infixOp .plus (.ident "c") (.int 1)))
      [⟨.lparen, "("⟩, ⟨.ident, "c"⟩, ⟨.plus, "+"⟩, ⟨.int, "1"⟩, ⟨.rparen, ")"⟩] :=
    Grammar.Derives.group rfl
      (.infixOp (q := .product) (by decide) (hName "c" _) (t := ⟨.plus, "+"⟩) rfl (by decide)
        (.int (t := ⟨.int, "1"⟩) rfl (by decide))) rfl
  have hMinus : Grammar.Derives .required
      (.expr .product (.prefixOp .minus (.call (.ident "a") [.ident "b"]))) _ :=
    .prefixOp (t := ⟨.minus, "-"⟩) (by decide) rfl hCall
  have hProduct : Grammar.Derives .required
      (.expr .sum (.infixOp .asterisk (.prefixOp .minus (.call (.ident "a") [.ident "b"]))
        (.infixOp .plus (.ident "c") (.int 1)))) _ :=
    .infixOp (q := .unary) (t := ⟨.asterisk, "*"⟩) (by decide) hMinus rfl
      (by decide) hSum
  have hDifference : Grammar.Derives .required
      (.expr .lowest (.infixOp .minus _ (.int 2))) _ :=
    .infixOp (q := .product) (t := ⟨.minus, "-"⟩) (by decide) hProduct rfl (by decide)
      (.int (t := ⟨.int, "2"⟩) rfl (by decide))
  have hLet : Grammar.Derives .required (.stmt (.bind "f" _)) _ :=
    Grammar.Derives.bind (k := ⟨.letWord, "let"⟩) (n := ⟨.ident, "f"⟩) (a := ⟨.assign, "="⟩)
      rfl rfl rfl hDifference
  have hBranch : Grammar.Derives .required (.stmts [.expr (.prefixOp .bang (.ident "g"))])
      [⟨.bang, "!"⟩, ⟨.ident, "g"⟩] :=
    .lastStmt (.value (.prefixOp (by decide) rfl (hName "g" _)))
  have hReturn : Grammar.Derives .required (.stmt (.ret (some _))) _ :=
    Grammar.Derives.retValue (k := ⟨.returnWord, "return"⟩) rfl
      (.cond (k := ⟨.ifWord, "if"⟩) (o := ⟨.lparen, "("⟩) (c := ⟨.rparen, ")"⟩)
        (b := ⟨.lbrace, "\x7b"⟩) (d := ⟨.rbrace, "\x7d"⟩) rfl rfl
        (.group (o := ⟨.lparen, "("⟩) (c := ⟨.rparen, ")"⟩) rfl (hName "f" _) rfl)
        rfl rfl hBranch rfl)
  have hRendering : sampleProgram.Rendering
      (Token.lexemes "let f = -a(b) * (c + 1) - 2; return if ((f)) \x7b !g \x7d".toList) := by
    rw [hTokens]
    exact .separated hLet (t := ⟨.semicolon, ";"⟩) rfl (.lastStmt hReturn)
  exact ⟨hp, (parse_of_rendering hp).2 _ hRendering⟩

end MonkeyLang
