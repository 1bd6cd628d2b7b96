import MonkeyLang.Proofs.Eval.InTurn
import MonkeyLang.Proofs.Grammar.Canonical
import MonkeyLang.Proofs.Grammar.Concatenation
import MonkeyLang.Proofs.Grammar.Reports
import MonkeyLang.Proofs.Text.Decimal

/-!
# Numerals — integers in and out

Any run of digits is an integer literal, however many zeros stand in front, as long as its value is
at most the largest integer; past that it is a syntax error that names the run.  An integer is
shown by its numeral, behind a minus if it is negative, and what is shown comes to that integer
again when it is run.  The least integer is the exception: the minus is an operator in front of a
literal, and the literal is one too large.
-/

namespace MonkeyLang

open Text (decimalValue Numeral)

/-! ## Digits as tokens -/

/-- One decimal digit or more, and nothing else. -/
structure Digits (d : String) : Prop where
  nonempty : d ≠ ""
  digit : ∀ c ∈ d.toList, c.isDigit = true

namespace Digits

open Token

variable {d : String}

theorem of_repr (n : Nat) : Digits (Nat.repr n) := by
  have hNumeral : Numeral n (Nat.repr n).toList := Text.numeral_iff.2 rfl
  exact ⟨fun hEmpty => hNumeral.nonempty (congrArg String.toList hEmpty), hNumeral.digit⟩

theorem segmented (h : Digits d) : Segmented d.toList [⟨.int, d⟩] := by
  have hNumber : Demanded (ofChars .int d.toList) [] :=
    .number (fun hNil => h.nonempty (String.toList_injective hNil)) h.digit nofun
  have hText : ofChars .int d.toList = ⟨.int, d⟩ := by rw [ofChars, String.ofList_toList]
  have hWhole := (Segmented.nil (List.forall_mem_nil _)).before (hText ▸ hNumber)
  rwa [List.append_nil] at hWhole

theorem segmented_minus (h : Digits d) :
    Segmented ("-" ++ d).toList [⟨.minus, "-"⟩, ⟨.int, d⟩] := by
  rw [String.toList_append]
  exact h.segmented.mark (c := '-') rfl

theorem lexemes_eq (h : Digits d) : lexemes d.toList = [⟨.int, d⟩] :=
  segmented_iff.1 h.segmented

theorem lexemes_minus (h : Digits d) : lexemes ("-" ++ d).toList = [⟨.minus, "-"⟩, ⟨.int, d⟩] :=
  segmented_iff.1 h.segmented_minus

end Digits

/-! ## Digits as programs -/

namespace Grammar

theorem digitsValue_eq (digits : List Char) : digitsValue digits = decimalValue digits :=
  Text.ofDigitChars_eq_decimalValue digits

/-- A number that is too large is reported, and nothing is left of the statement. -/
theorem program_of_invalid {d : String} (h : intOf? d = none) :
    program [⟨.int, d⟩] = ⟨[], [⟨.invalidInteger d, 1⟩], 1⟩ := by
  simp [program, stmt, exprFrom, operand, h, Reading.fail, Reading.andThen_of_none, Reading.bind,
    Reading.map, Reading.shift, Reading.pure]

theorem program_of_invalid_minus {d : String} (h : intOf? d = none) :
    program [⟨.minus, "-"⟩, ⟨.int, d⟩] = ⟨[], [⟨.invalidInteger d, 1⟩], 2⟩ := by
  simp [program, stmt, exprFrom, operand, expr, h, Reading.fail, Reading.andThen_of_none,
    Reading.bind, Reading.map, Reading.shift, Reading.pure]

end Grammar

namespace Digits

variable {d : String} {n : Int64}

theorem intOf?_eq_some (hValue : n.toInt = decimalValue d.toList) :
    Grammar.intOf? d = some n := by
  rw [Grammar.intOf?_eq_some_iff, Grammar.digitsValue_eq, hValue]

theorem intOf?_eq_none (hLarge : 9223372036854775807 < decimalValue d.toList) :
    Grammar.intOf? d = none := by
  rw [Grammar.intOf?_eq_none_iff, Grammar.digitsValue_eq]
  exact hLarge

/-- A literal is a program. -/
theorem parse_eq (h : Digits d) (hValue : n.toInt = decimalValue d.toList) :
    parse d = ⟨⟨[.expr (.int n)]⟩, []⟩ := by
  have hNumber : Grammar.Derives .required (.expr .lowest (.int n)) [⟨.int, d⟩] :=
    .int rfl (Grammar.intOf?_eq_some_iff.1 (intOf?_eq_some hValue))
  rw [parse, h.lexemes_eq]
  exact Parsed.ofTokens_of_rendering (.lastStmt (.value hNumber))

theorem parse_minus (h : Digits d) (hValue : n.toInt = decimalValue d.toList) :
    parse ("-" ++ d) = ⟨⟨[.expr (.prefixOp .minus (.int n))]⟩, []⟩ := by
  have hNumber : Grammar.Derives .required (.expr .unary (.int n)) [⟨.int, d⟩] :=
    .int rfl (Grammar.intOf?_eq_some_iff.1 (intOf?_eq_some hValue))
  rw [parse, h.lexemes_minus]
  exact Parsed.ofTokens_of_rendering
    (.lastStmt (.value (.prefixOp (Precedence.lowest_le _) rfl hNumber)))

/-- Past the largest integer there is no statement, with a minus in front or without one. -/
theorem parse_of_large (h : Digits d) (hLarge : 9223372036854775807 < decimalValue d.toList) :
    parse d = ⟨⟨[]⟩, [⟨.invalidInteger d, 1⟩]⟩ ∧
      parse ("-" ++ d) = ⟨⟨[]⟩, [⟨.invalidInteger d, 1⟩]⟩ := by
  have hNone : Grammar.intOf? d = none := intOf?_eq_none hLarge
  constructor
  · rw [parse, h.lexemes_eq, Parsed.ofTokens, Grammar.program_of_invalid hNone]
  · rw [parse, h.lexemes_minus, Parsed.ofTokens, Grammar.program_of_invalid_minus hNone]

end Digits

/-! ## Integers as texts -/

theorem decimal_of_neg {n : Int64} (h : n.toInt < 0) :
    decimal n = "-" ++ Nat.repr n.toInt.natAbs := by
  unfold decimal
  cases hValue : n.toInt with
  | ofNat k =>
      rw [hValue] at h
      exact absurd h (Int.not_lt.2 (Int.natCast_nonneg k))
  | negSucc k => rfl

theorem toInt_neg_of_ne {n : Int64} (h : n ≠ Int64.minValue) : (-n).toInt = -n.toInt := by
  have hLeast : n.toInt ≠ -9223372036854775808 := fun hInt =>
    h (Int64.toInt_inj.1 (hInt.trans Int64.toInt_minValue.symm))
  have hLower : -9223372036854775808 ≤ n.toInt := n.le_toInt
  have hUpper : n.toInt < 9223372036854775808 := n.toInt_lt
  rw [Int64.toInt_neg]
  exact Int.bmod_eq_of_le (by omega) (by omega)

/-- An integer but the least is read from what is shown for it. -/
theorem parse_decimal {n : Int64} (h : n ≠ Int64.minValue) :
    parse (decimal n) =
      ⟨⟨[.expr (if n.toInt < 0 then .prefixOp .minus (.int (-n)) else .int n)]⟩, []⟩ := by
  have hShown : ∀ k, decimalValue (Nat.repr k).toList = k := fun k =>
    (Text.numeral_iff.2 rfl : Numeral k (Nat.repr k).toList).value
  by_cases hNeg : n.toInt < 0
  · have hValue : (-n).toInt = decimalValue (Nat.repr n.toInt.natAbs).toList := by
      rw [hShown, toInt_neg_of_ne h]
      omega
    rw [decimal_of_neg hNeg, if_pos hNeg]
    exact (Digits.of_repr _).parse_minus hValue
  · have hNonneg : 0 ≤ n.toInt := Int.not_lt.1 hNeg
    have hValue : n.toInt = decimalValue (Nat.repr n.toInt.toNat).toList := by
      rw [hShown]
      omega
    rw [Grammar.decimal_of_nonneg hNonneg, if_neg hNeg]
    exact (Digits.of_repr _).parse_eq hValue

/-- Digits that are not past the largest integer are a literal, which is shown by the numeral of
their value. -/
theorem Digits.exists_literal {d : String} (h : Digits d)
    (hle : decimalValue d.toList ≤ 9223372036854775807) :
    ∃ n : Int64, n.toInt = decimalValue d.toList ∧ parse d = ⟨⟨[.expr (.int n)]⟩, []⟩ ∧
      (Expr.int n).text = Nat.repr (decimalValue d.toList) := by
  have hValue : (Int64.ofNat (decimalValue d.toList)).toInt = decimalValue d.toList :=
    Int64.toInt_ofNat_of_lt (Nat.lt_succ_of_le hle)
  refine ⟨_, hValue, h.parse_eq hValue, ?_⟩
  rw [Expr.text, Grammar.decimal_of_nonneg (hValue ▸ Int.natCast_nonneg _), hValue,
    Int.toNat_natCast]

/-! ## Texts as integers -/

/-- What the only expression of a source text comes to is the result of the text. -/
theorem exists_run_of_evaluates {source : String} {e : Expr} {v : Value} {τ : Store}
    (hParse : parse source = ⟨⟨[.expr e]⟩, []⟩)
    (h : BigStep.Evaluates Store.fresh.1 Store.fresh.2 e (.value v) τ) :
    ∃ enough, ∀ fuel, enough ≤ fuel → run fuel source = some (.ok v) := by
  have hStatements : BigStep.ExecutesAll Store.fresh.1 Store.fresh.2
      (⟨[.expr e]⟩ : Program).statements (.value v) τ := .last (.expr h)
  rcases BigStep.evalFresh_of_executesAll hStatements with ⟨enough, hEval⟩
  refine ⟨enough, fun fuel hFuel => ?_⟩
  rw [run, parse?_of_errors_eq_nil (congrArg Parsed.errors hParse), hParse]
  simp only [hEval fuel hFuel, Option.map_some]
  rfl

theorem evaluates_shown {n : Int64} (h : n ≠ Int64.minValue) (s : ScopeId) (σ : Store) :
    BigStep.Evaluates s σ (if n.toInt < 0 then .prefixOp .minus (.int (-n)) else .int n)
      (.value (.integer n)) σ := by
  by_cases hNeg : n.toInt < 0
  · have hMinus := PrefixOp.Gives.minus (-n)
    rw [toInt_neg_of_ne h, Int.neg_neg, Int64.ofInt_toInt] at hMinus
    rw [if_pos hNeg]
    exact .prefixOp (.int _) hMinus
  · rw [if_neg hNeg]
    exact .int n

/-- A run of digits is the literal of its value, which is shown by the numeral of that value and
read from it again, or else, past the largest integer, no statement but a syntax error with these
digits.  Every integer comes out again when what is shown for it is run, but for the least one, of
which the digits are too large. -/
theorem integers_read_back :
    (∀ d : String, Digits d →
      (decimalValue d.toList ≤ 9223372036854775807 →
        ∃ n : Int64, n.toInt = decimalValue d.toList ∧ parse d = ⟨⟨[.expr (.int n)]⟩, []⟩ ∧
          (∀ text : String,
            Numeral (decimalValue d.toList) text.toList ↔ text = (Expr.int n).text) ∧
          parse (Expr.int n).text = ⟨⟨[.expr (.int n)]⟩, []⟩) ∧
      (9223372036854775807 < decimalValue d.toList →
        (parse d).program = ⟨[]⟩ ∧ (parse d).errors = [.invalidInteger d])) ∧
    (∀ n : Int64, n ≠ Int64.minValue →
      parse (Value.integer n).text =
          ⟨⟨[.expr (if n.toInt < 0 then .prefixOp .minus (.int (-n)) else .int n)]⟩, []⟩ ∧
        ∃ enough, ∀ fuel, enough ≤ fuel →
          run fuel (Value.integer n).text = some (.ok (.integer n))) ∧
    ∀ fuel, run fuel (Value.integer Int64.minValue).text =
      some (.error (.parse [.invalidInteger "9223372036854775808"])) := by
  refine ⟨fun d hd => ⟨fun hle => ?_, fun hLarge => ?_⟩, fun n hn => ?_, fun fuel => ?_⟩
  · rcases hd.exists_literal hle with ⟨n, hValue, hParse, hText⟩
    have hNumeral : Numeral (decimalValue d.toList) (Expr.int n).text.toList :=
      Text.numeral_iff.2 hText
    refine ⟨n, hValue, hParse, fun text => ?_, ?_⟩
    · rw [hText]
      exact Text.numeral_iff
    · rw [hText]
      exact (Digits.of_repr _).parse_eq (by rw [hValue, ← hText, hNumeral.value])
  · rw [(hd.parse_of_large hLarge).1]
    exact ⟨rfl, rfl⟩
  · have hParse := parse_decimal hn
    exact ⟨hParse, exists_run_of_evaluates hParse (evaluates_shown hn _ _)⟩
  · have hDigits : Digits "9223372036854775808" := Digits.of_repr 9223372036854775808
    have hLarge : 9223372036854775807 < decimalValue "9223372036854775808".toList := by decide
    have hParse : parse (Value.integer Int64.minValue).text =
        ⟨⟨[]⟩, [⟨.invalidInteger "9223372036854775808", 1⟩]⟩ := (hDigits.parse_of_large hLarge).2
    rw [run, parse?_of_errors_ne_nil (by rw [hParse]; nofun), hParse]
    rfl

/-- Zeros in front of a small number and of one that is one too large, and a negative number. -/
theorem integers_read_back_sample :
    (∃ n : Int64, n.toInt = 42 ∧ parse "00042" = ⟨⟨[.expr (.int n)]⟩, []⟩ ∧
      (Expr.int n).text = "42") ∧
    (parse "009223372036854775808").errors = [.invalidInteger "009223372036854775808"] ∧
    ∃ enough, ∀ fuel, enough ≤ fuel → run fuel "-42" = some (.ok (.integer (-42))) := by
  have hSmall : Digits "00042" := ⟨by decide, List.all_eq_true.1 (by decide)⟩
  have hLarge : Digits "009223372036854775808" := ⟨by decide, List.all_eq_true.1 (by decide)⟩
  refine ⟨?_, ?_, ?_⟩
  · rcases (integers_read_back.1 "00042" hSmall).1 (by decide) with
      ⟨n, hValue, hParse, hText, -⟩
    exact ⟨n, hValue, hParse, ((hText "42").1 (Text.numeral_iff.2 rfl)).symm⟩
  · exact ((integers_read_back.1 "009223372036854775808" hLarge).2 (by decide)).2
  · exact (integers_read_back.2.1 (-42) (by decide)).2

end MonkeyLang
