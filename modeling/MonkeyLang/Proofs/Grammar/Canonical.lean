import MonkeyLang.Proofs.Grammar.Rendering
import MonkeyLang.Proofs.Token.Segmentation
import MonkeyLang.Syntax.Canonical

/-!
# Canonical — the canonical text is read back

Canonical text writes no blanks around brackets and marks and nothing between statements, and it
does not show where a block ends.  Where no block stands, it is a rendering of the program
nevertheless: every piece of it is cut off where it ends, and the brackets around operators show
their operands.  So such a program is read back from its canonical text.
-/

namespace MonkeyLang

/-! ## Programs without blocks -/

mutual

/-- Neither a conditional nor a function literal stands in the expression. -/
def Expr.Blockless : Expr → Prop
  | .ident _ => True
  | .int _ => True
  | .bool _ => True
  | .prefixOp _ right => right.Blockless
  | .infixOp _ left right => left.Blockless ∧ right.Blockless
  | .cond _ _ _ => False
  | .fn _ _ => False
  | .call callee arguments => callee.Blockless ∧ Expr.AllBlockless arguments

def Expr.AllBlockless : List Expr → Prop
  | [] => True
  | e :: es => e.Blockless ∧ Expr.AllBlockless es

end

/-- Every statement brings a semicolon, but for an expression at the end. -/
inductive Stmt.AllLegible : List Stmt → Prop
  | nil : AllLegible []
  | value {e : Expr} (he : e.Blockless) : AllLegible [.expr e]
  | bind {name : String} {e : Expr} {ss : List Stmt} (he : e.Blockless) (hss : AllLegible ss) :
      AllLegible (.bind name e :: ss)
  | ret {ss : List Stmt} (hss : AllLegible ss) : AllLegible (.ret none :: ss)
  | retValue {e : Expr} {ss : List Stmt} (he : e.Blockless) (hss : AllLegible ss) :
      AllLegible (.ret (some e) :: ss)

/-- A program that source text can say and that its canonical text shows. -/
structure Program.Legible (p : Program) : Prop where
  writable : p.Writable
  statements : Stmt.AllLegible p.statements

/-! ## Pieces in front of a text -/

namespace Token

/-- A text that continues neither a word nor a number in front of it. -/
structure Separates (rest : List Char) : Prop where
  letter : EndsRun isLetter rest
  digit : EndsRun isDigit rest

theorem separates_nil : Separates [] :=
  ⟨nofun, nofun⟩

theorem separates_cons {c : Char} (hLetter : isLetter c = false) (hDigit : isDigit c = false)
    (rest : List Char) : Separates (c :: rest) :=
  ⟨endsRun_cons hLetter rest, endsRun_cons hDigit rest⟩

theorem Segmented.before {t : Token} {rest : List Char} {us : List Token} (h : Segmented rest us)
    (ht : Demanded t rest) : Segmented (t.literal.toList ++ rest) (t :: us) :=
  .cons (List.forall_mem_nil _) ht h

theorem Segmented.blank {rest : List Char} {us : List Token} (h : Segmented rest us) :
    Segmented (' ' :: rest) us :=
  h.blanks (List.forall_mem_singleton.2 rfl)

theorem Segmented.mark {c : Char} {k : Kind} {rest : List Char} {us : List Token}
    (h : Segmented rest us) (hMark : mark? c = some k) :
    Segmented (c :: rest) (ofChars k [c] :: us) := by
  have hKind := mark?_eq_some hMark
  have hToken : ofChars k [c] = ⟨k, k.symbol⟩ := by rw [ofChars, hKind.2]
  have ht : Demanded (ofChars k [c]) rest := hToken ▸ .mark hKind.1
  have hText : (ofChars k [c]).literal.toList = [c] := String.toList_ofList
  simpa only [hText, List.singleton_append] using h.before ht

theorem demanded_name {name : String} {rest : List Char} (h : IsName name)
    (hEnd : EndsRun isLetter rest) : Demanded ⟨.ident, name⟩ rest := by
  have hText : String.ofList name.toList = name := String.ofList_toList
  have hName := Demanded.name h.1 h.2.1 hEnd (hText.symm ▸ h.2.2)
  rwa [ofChars, hText] at hName

theorem demanded_reserved {word : String} {k : Kind} {rest : List Char}
    (h : (word, k) ∈ Kind.keywords) (hEnd : EndsRun isLetter rest) : Demanded ⟨k, word⟩ rest := by
  have hLetters : ∀ entry ∈ Kind.keywords,
      entry.1.toList ≠ [] ∧ entry.1.toList.all isLetter = true := by decide
  have hWordLetters := hLetters (word, k) h
  have hText : String.ofList word.toList = word := String.ofList_toList
  have hWord := Demanded.reserved hWordLetters.1 (List.all_eq_true.1 hWordLetters.2) hEnd
    (hText.symm ▸ h)
  rwa [ofChars, hText] at hWord

theorem demanded_decimal {n : Nat} {rest : List Char} (hEnd : EndsRun isDigit rest) :
    Demanded ⟨.int, Nat.repr n⟩ rest :=
  .number Nat.toDigits_ne_nil (fun _ => Grammar.isDigit_of_mem_toDigits) hEnd

theorem demanded_infixOp (op : InfixOp) (rest : List Char) :
    Demanded ⟨op.kind, op.symbol⟩ (' ' :: rest) := by
  have hMarks : ∀ k ∈ [Kind.plus, .minus, .asterisk, .slash], k ∈ markKinds := by decide
  have hJoining : ∀ k ∈ [(Kind.assign, Kind.eq), (.bang, .notEq), (.lt, .ltEq), (.gt, .gtEq)],
      k ∈ joiningKinds := by decide
  cases op with
  | plus => exact .mark (hMarks .plus (by decide))
  | minus => exact .mark (hMarks .minus (by decide))
  | asterisk => exact .mark (hMarks .asterisk (by decide))
  | slash => exact .mark (hMarks .slash (by decide))
  | lt => exact .alone (hJoining (.lt, .ltEq) (by decide)) nofun
  | gt => exact .alone (hJoining (.gt, .gtEq) (by decide)) nofun
  | eq => exact .joined (hJoining (.assign, .eq) (by decide))
  | notEq => exact .joined (hJoining (.bang, .notEq) (by decide))

theorem demanded_prefixOp (op : PrefixOp) {rest : List Char} (h : rest.head? ≠ some '=') :
    Demanded ⟨op.kind, op.symbol⟩ rest := by
  cases op with
  | bang =>
      have hKinds : (Kind.bang, Kind.notEq) ∈ joiningKinds := by decide
      exact .alone hKinds h
  | minus =>
      have hKind : Kind.minus ∈ markKinds := by decide
      exact .mark hKind

/-- What starts an operand does not start with an equals sign. -/
theorem Segmented.head?_ne {cs : List Char} {t : Token} {ts : List Token}
    (h : Segmented cs (t :: ts)) (ht : Grammar.startsOperand t.kind = true) :
    cs.head? ≠ some '=' := by
  intro hHead
  cases cs with
  | nil => cases hHead
  | cons c cs =>
      cases hHead
      have hNext : next? ('=' :: cs) = some ((cut '=' cs).1, (cut '=' cs).2) :=
        next?_of_not_isBlank (by decide) cs
      have hKind : (cut '=' cs).1.kind = .eq ∨ (cut '=' cs).1.kind = .assign := by
        have hMark : mark? '=' = none := rfl
        have hJoining : joining? '=' = some (.assign, .eq) := rfl
        simp only [cut, hMark, hJoining]
        split
        · exact .inl rfl
        · exact .inr rfl
      rw [segmented_iff, lexemes_of_next? hNext] at h
      cases h
      rcases hKind with hKind | hKind <;>
      · rw [hKind] at ht
        cases ht

end Token

namespace Grammar

open Token

/-! ## Phrases and their canonical text -/

/-- The text is a way to write the phrase, wherever it is followed by nothing that continues a word
or a number. -/
def Shows (text : String) (x : Phrase) : Prop :=
  ∃ ts, Derives .required x ts ∧ ∀ rest us, Separates rest → Segmented rest us →
    Segmented (text.toList ++ rest) (ts ++ us)

/-- A phrase of one token is shown by the text of the token. -/
theorem Shows.token {x : Phrase} {k : Kind} {text : String}
    (hx : Derives .required x [⟨k, text⟩])
    (ht : ∀ rest, Separates rest → Demanded ⟨k, text⟩ rest) : Shows text x :=
  ⟨[⟨k, text⟩], hx, fun rest _ hSep hRest => hRest.before (ht rest hSep)⟩

theorem Shows.ident {p : Precedence} {name : String} (h : IsName name) :
    Shows name (.expr p (.ident name)) :=
  .token (Derives.ident (t := ⟨.ident, name⟩) rfl) fun _ hSep => demanded_name h hSep.letter

theorem decimal_of_nonneg {n : Int64} (h : 0 ≤ n.toInt) : decimal n = Nat.repr n.toInt.toNat := by
  unfold decimal
  cases hValue : n.toInt with
  | ofNat k => rfl
  | negSucc k =>
      rw [hValue] at h
      exact absurd h (Int.not_le.2 (Int.negSucc_lt_zero k))

theorem Shows.int {p : Precedence} {n : Int64} (h : 0 ≤ n.toInt) :
    Shows (decimal n) (.expr p (.int n)) := by
  have hDigits : (Nat.repr n.toInt.toNat).toList = Nat.toDigits 10 n.toInt.toNat :=
    String.toList_ofList
  have hNumber : Derives .required (.expr p (.int n)) [⟨.int, Nat.repr n.toInt.toNat⟩] :=
    .int rfl (hDigits ▸ digitsValue_toDigits h)
  rw [decimal_of_nonneg h]
  exact .token hNumber fun _ hSep => demanded_decimal hSep.digit

theorem Shows.bool {p : Precedence} (b : Bool) : Shows (truthText b) (.expr p (.bool b)) := by
  cases b with
  | true =>
      exact .token (k := .trueWord) (.trueWord rfl) fun _ hSep =>
        demanded_reserved (by decide) hSep.letter
  | false =>
      exact .token (k := .falseWord) (.falseWord rfl) fun _ hSep =>
        demanded_reserved (by decide) hSep.letter

/-- In brackets an expression may stand anywhere. -/
theorem Shows.group {p q : Precedence} {e : Expr} {text : String} (h : Shows text (.expr q e)) :
    Shows ("(" ++ text ++ ")") (.expr p e) := by
  rcases h with ⟨ts, he, hText⟩
  refine ⟨ofChars .lparen ['('] :: (ts ++ [ofChars .rparen [')']]),
    .group rfl (he.weaken (Precedence.lowest_le q)) rfl, fun rest us hSep hRest => ?_⟩
  have hClose := hRest.mark (c := ')') rfl
  have hInner := hText _ _ (separates_cons (by decide) (by decide) _) hClose
  have hOpen := hInner.mark (c := '(') rfl
  simpa [String.toList_append] using hOpen

theorem Shows.prefixOp (op : PrefixOp) {e : Expr} {text : String}
    (h : Shows text (.expr .call e)) :
    Shows (op.symbol ++ text) (.expr .unary (.prefixOp op e)) := by
  rcases h with ⟨ts, he, hText⟩
  refine ⟨⟨op.kind, op.symbol⟩ :: ts, .prefixOp (Nat.le_refl _) rfl (he.weaken (by decide)),
    fun rest us hSep hRest => ?_⟩
  have hOperand := hText rest us hSep hRest
  rcases he.exists_cons with ⟨t, ts, rfl, hStart⟩
  have hOp := hOperand.before (demanded_prefixOp op (hOperand.head?_ne hStart))
  simpa [String.toList_append] using hOp

theorem Shows.infixOp (op : InfixOp) {l r : Expr} {left right : String}
    (hl : Shows left (.expr .call l)) (hr : Shows right (.expr .call r)) :
    Shows (left ++ " " ++ op.symbol ++ " " ++ right) (.expr op.precedence (.infixOp op l r)) := by
  rcases hl with ⟨ts, hl, hLeft⟩
  rcases hr with ⟨us, hr, hRight⟩
  have hTight : op.precedence < .call := Nat.lt_trans op.precedence_lt_unary (by decide)
  refine ⟨ts ++ ⟨op.kind, op.symbol⟩ :: us,
    .infixOp (Nat.le_refl _) (hl.weaken (Precedence.le_call _)) rfl hTight hr,
    fun rest vs hSep hRest => ?_⟩
  have hOperand := (hRight rest vs hSep hRest).blank
  have hOp := (hOperand.before (demanded_infixOp op _)).blank
  have hWhole := hLeft _ _ (separates_cons (by decide) (by decide) _) hOp
  simpa [String.toList_append] using hWhole

theorem Shows.call {f : Expr} {es : List Expr} {callee arguments : String}
    (hf : Shows callee (.expr .call f)) (hes : Shows arguments (.arguments es)) :
    Shows (callee ++ "(" ++ arguments ++ ")") (.expr .call (.call f es)) := by
  rcases hf with ⟨ts, hf, hCallee⟩
  rcases hes with ⟨us, hes, hArguments⟩
  refine ⟨ts ++ ofChars .lparen ['('] :: (us ++ [ofChars .rparen [')']]), .call hf rfl hes rfl,
    fun rest vs hSep hRest => ?_⟩
  have hClose := hRest.mark (c := ')') rfl
  have hInner := hArguments _ _ (separates_cons (by decide) (by decide) _) hClose
  have hOpen := hInner.mark (c := '(') rfl
  have hWhole := hCallee _ _ (separates_cons (by decide) (by decide) _) hOpen
  simpa [String.toList_append] using hWhole

/-! ## Lists between brackets -/

/-- Texts with a comma and a blank in front of each. -/
def moreListed : List String → String
  | [] => ""
  | s :: ss => ", " ++ s ++ moreListed ss

theorem listed_cons (s : String) (ss : List String) : listed (s :: ss) = s ++ moreListed ss := by
  induction ss generalizing s with
  | nil => simp [listed, moreListed]
  | cons s' ss ih => simp [listed, moreListed, ih, String.append_assoc]

theorem separates_moreListed (ss : List String) {rest : List Char} (h : Separates rest) :
    Separates ((moreListed ss).toList ++ rest) := by
  cases ss with
  | nil => simpa [moreListed] using h
  | cons s ss =>
      have hText : (moreListed (s :: ss)).toList ++ rest =
          ',' :: ' ' :: (s.toList ++ ((moreListed ss).toList ++ rest)) := by
        simp [moreListed, String.toList_append]
      rw [hText]
      exact separates_cons (by decide) (by decide) _

theorem Shows.noMoreArguments : Shows (moreListed []) (.moreArguments []) :=
  ⟨[], .noMoreArguments, fun _ _ _ hRest => hRest⟩

theorem Shows.moreArguments {e : Expr} {es : List Expr} {text : String} {texts : List String}
    (he : Shows text (.expr .call e)) (hes : Shows (moreListed texts) (.moreArguments es)) :
    Shows (moreListed (text :: texts)) (.moreArguments (e :: es)) := by
  rcases he with ⟨ts, he, hText⟩
  rcases hes with ⟨us, hes, hMore⟩
  refine ⟨ofChars .comma [','] :: (ts ++ us),
    .moreArguments rfl (he.weaken (Precedence.lowest_le _)) hes, fun rest vs hSep hRest => ?_⟩
  have hFirst := (hText _ _ (separates_moreListed texts hSep) (hMore rest vs hSep hRest)).blank
  have hComma := hFirst.mark (c := ',') rfl
  simpa [moreListed, String.toList_append] using hComma

theorem Shows.arguments {e : Expr} {es : List Expr} {text : String} {texts : List String}
    (he : Shows text (.expr .call e)) (hes : Shows (moreListed texts) (.moreArguments es)) :
    Shows (listed (text :: texts)) (.arguments (e :: es)) := by
  rcases he with ⟨ts, he, hText⟩
  rcases hes with ⟨us, hes, hMore⟩
  refine ⟨ts ++ us, .arguments (he.weaken (Precedence.lowest_le _)) hes,
    fun rest vs hSep hRest => ?_⟩
  have hFirst := hText _ _ (separates_moreListed texts hSep) (hMore rest vs hSep hRest)
  simpa [listed_cons, String.toList_append] using hFirst

/-! ## Expressions -/

mutual

theorem shows_expr (e : Expr) (hWritable : e.Writable) (h : e.Blockless) :
    Shows e.text (.expr .call e) := by
  cases e with
  | ident name => exact .ident hWritable
  | int n => exact .int hWritable
  | bool b => exact .bool b
  | prefixOp op right =>
      have hOperand := Shows.prefixOp op (shows_expr right hWritable h)
      simpa only [Expr.text, String.append_assoc] using hOperand.group
  | infixOp op left right =>
      have hOperands := Shows.infixOp op (shows_expr left hWritable.1 h.1)
        (shows_expr right hWritable.2 h.2)
      simpa only [Expr.text, String.append_assoc] using hOperands.group
  | cond condition consequence alternative => exact h.elim
  | fn parameters body => exact h.elim
  | call callee arguments =>
      have hCallee := shows_expr callee hWritable.1 h.1
      cases arguments with
      | nil => exact .call hCallee ⟨[], .noArguments, fun _ _ _ hRest => hRest⟩
      | cons e es =>
          exact .call hCallee (.arguments (shows_expr e hWritable.2.1 h.2.1)
            (shows_moreArguments es hWritable.2.2 h.2.2))

theorem shows_moreArguments (es : List Expr) (hWritable : Expr.AllWritable es)
    (h : Expr.AllBlockless es) : Shows (moreListed (Expr.textList es)) (.moreArguments es) := by
  cases es with
  | nil => exact .noMoreArguments
  | cons e es =>
      exact .moreArguments (shows_expr e hWritable.1 h.1)
        (shows_moreArguments es hWritable.2 h.2)

end

/-! ## Statements -/

theorem Shows.bind {name : String} {e : Expr} {text : String} (hName : IsName name)
    (he : Shows text (.expr .call e)) :
    Shows ("let " ++ name ++ " = " ++ text) (.stmt (.bind name e)) := by
  rcases he with ⟨ts, he, hText⟩
  refine ⟨⟨.letWord, "let"⟩ :: ⟨.ident, name⟩ :: ⟨.assign, "="⟩ :: ts,
    Derives.bind (n := ⟨.ident, name⟩) rfl rfl rfl (he.weaken (Precedence.lowest_le _)),
    fun rest us hSep hRest => ?_⟩
  have hKinds : (Kind.assign, Kind.eq) ∈ joiningKinds := by decide
  have hBlank : ∀ rest, EndsRun isLetter (' ' :: rest) := endsRun_cons (by decide)
  have hValue := (hText rest us hSep hRest).blank
  have hAssign := (hValue.before (.alone hKinds nofun)).blank
  have hLeft := (hAssign.before (demanded_name hName (hBlank _))).blank
  have hWord : ("let", Kind.letWord) ∈ Kind.keywords := by decide
  have hLet := hLeft.before (demanded_reserved hWord (hBlank _))
  simpa [Kind.symbol, String.toList_append] using hLet

theorem Shows.ret : Shows "return" (.stmt (.ret none)) :=
  .token (k := .returnWord) (.ret rfl) fun _ hSep =>
    demanded_reserved (by decide) hSep.letter

theorem Shows.retValue {e : Expr} {text : String} (he : Shows text (.expr .call e)) :
    Shows ("return " ++ text) (.stmt (.ret (some e))) := by
  rcases he with ⟨ts, he, hText⟩
  refine ⟨⟨.returnWord, "return"⟩ :: ts, .retValue rfl (he.weaken (Precedence.lowest_le _)),
    fun rest us hSep hRest => ?_⟩
  have hValue := (hText rest us hSep hRest).blank
  have hWord : ("return", Kind.returnWord) ∈ Kind.keywords := by decide
  have hReturn := hValue.before (demanded_reserved hWord (endsRun_cons (by decide) _))
  simpa [String.toList_append] using hReturn

/-- Behind a semicolon nothing is needed between two statements. -/
theorem Shows.separated {s : Stmt} {ss : List Stmt} {text more : String}
    (hs : Shows text (.stmt s)) (hss : Shows more (.stmts ss)) :
    Shows (text ++ ";" ++ more) (.stmts (s :: ss)) := by
  rcases hs with ⟨ts, hs, hText⟩
  rcases hss with ⟨us, hss, hMore⟩
  refine ⟨ts ++ ofChars .semicolon [';'] :: us, .separated hs rfl hss, fun rest vs hSep hRest => ?_⟩
  have hSemicolon := (hMore rest vs hSep hRest).mark (c := ';') rfl
  have hWhole := hText _ _ (separates_cons (by decide) (by decide) _) hSemicolon
  simpa [String.toList_append] using hWhole

theorem shows_stmts {ss : List Stmt} (h : Stmt.AllLegible ss) (hWritable : Stmt.AllWritable ss) :
    Shows (Stmt.texts ss) (.stmts ss) := by
  induction h with
  | nil => exact ⟨[], .noStmts, fun _ _ _ hRest => hRest⟩
  | @value e he =>
      rcases shows_expr e hWritable.1 he with ⟨ts, hDerives, hText⟩
      refine ⟨ts, .lastStmt (.value (hDerives.weaken (Precedence.lowest_le _))), ?_⟩
      simpa only [Stmt.texts, Stmt.text, String.append_empty] using hText
  | @bind name e ss he _ ih =>
      have hStmt := Shows.bind hWritable.1.1 (shows_expr e hWritable.1.2 he)
      exact hStmt.separated (ih hWritable.2)
  | ret _ ih => exact Shows.ret.separated (ih hWritable.2)
  | @retValue e ss he _ ih =>
      have hStmt := Shows.retValue (shows_expr e hWritable.1 he)
      exact hStmt.separated (ih hWritable.2)

end Grammar

/-- The canonical text is a rendering. -/
theorem Program.Legible.rendering {p : Program} (h : p.Legible) :
    p.Rendering (Token.lexemes p.text.toList) := by
  rcases Grammar.shows_stmts h.statements h.writable with ⟨ts, hDerives, hText⟩
  have hTokens := hText [] [] Token.separates_nil (.nil (List.forall_mem_nil _))
  rw [List.append_nil, List.append_nil, Token.segmented_iff] at hTokens
  rw [Program.Rendering, Program.text, hTokens]
  exact hDerives

theorem Program.Legible.parse_text {p : Program} (h : p.Legible) : parse p.text = ⟨p, []⟩ :=
  Parsed.ofTokens_of_rendering h.rendering

/-- A source text in canonical form, unless it has defects. -/
def canonicalText? (source : String) : Except (List SyntaxError) String :=
  (parse? source).map Program.text

/-- A program without blocks, with expressions as statements at its end only, is read back from its
canonical text.  So no other such program has this text, and a source text that is brought into
canonical form is in canonical form. -/
theorem parse_text_of_legible {p : Program} (h : p.Legible) :
    parse p.text = ⟨p, []⟩ ∧ (∀ q : Program, q.Legible → q.text = p.text → q = p) ∧
      ∀ source text, parse? source = .ok p → canonicalText? source = .ok text →
        canonicalText? text = .ok text := by
  refine ⟨h.parse_text, fun q hq hText => ?_, fun source text hSource hText => ?_⟩
  · have hParse := hq.parse_text
    rw [hText, h.parse_text] at hParse
    exact (Parsed.mk.inj hParse).1.symm
  · rw [canonicalText?, hSource] at hText
    cases hText
    simp only [canonicalText?, parse?, h.parse_text]
    rfl

/-- A call of a call, a minus before a call, and a statement that follows a semicolon directly. -/
def legibleProgram : Program where
  statements :=
    [.bind "f_"
        (.call (.call (.ident "g") [.prefixOp .minus (.call (.ident "h") [])])
          [.prefixOp .bang (.prefixOp .bang (.bool true)), .int 9223372036854775807]),
      .ret none,
      .ret (some (.infixOp .lt (.prefixOp .minus (.int 0)) (.infixOp .eq (.ident "a") (.int 10)))),
      .expr (.infixOp .minus (.ident "a") (.prefixOp .minus (.ident "b")))]

theorem parse_text_of_legible_sample :
    legibleProgram.Legible ∧
      legibleProgram.text =
        "let f_ = g((-h()))((!(!true)), 9223372036854775807);return;" ++
          "return ((-0) < (a == 10));(a - (-b))" ∧
      parse legibleProgram.text = ⟨legibleProgram, []⟩ := by
  have hWritable : legibleProgram.Writable := by
    simp only [legibleProgram, Program.Writable, Stmt.AllWritable, Stmt.Writable, Expr.Writable,
      Expr.AllWritable]
    decide
  have hStatements : Stmt.AllLegible legibleProgram.statements := by
    refine .bind ?_ (.ret (.retValue ?_ (.value ?_))) <;>
      simp only [Expr.Blockless, Expr.AllBlockless, and_self]
  have hLegible : legibleProgram.Legible := ⟨hWritable, hStatements⟩
  exact ⟨hLegible, by decide +kernel, (parse_text_of_legible hLegible).1⟩

end MonkeyLang
