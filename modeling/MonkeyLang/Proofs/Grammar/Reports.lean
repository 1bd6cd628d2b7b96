import MonkeyLang.Cli.Basic
import MonkeyLang.Proofs.Grammar.Additive

/-!
# Reports — tokens that are defects wherever they stand

Nothing is written with a stray character, a backslash or one of the comparisons `<=` and `>=`, and
no literal stands for a number beyond the largest integer.  However malformed the text around such
a token is and wherever the reader takes up its work again, the token is reported: once, in its
place among the others, and as what it is.  So a text with a stray character is never accepted.
-/

namespace MonkeyLang

/-- The defect that a token is on its own. -/
def Token.defect? (t : Token) : Option SyntaxError :=
  if t.kind ∈ Kind.unusable then some (.noOperand t.kind)
  else if t.kind = .int ∧ Grammar.largestInt < Grammar.digitsValue t.literal.toList then
    some (.invalidInteger t.literal)
  else none

/-- Whether a syntax error is the defect of a token on its own. -/
def SyntaxError.reportsToken : SyntaxError → Bool
  | .unexpected _ _ => false
  | .noOperand k => k ∈ Kind.unusable
  | .invalidInteger _ => true

namespace Grammar

open Reading

/-! ## Reports of single moves -/

theorem intOf?_eq_none_iff {digits : String} :
    intOf? digits = none ↔ largestInt < digitsValue digits.toList := by
  simp [intOf?]

theorem defect?_of_usable {t : Token} (h : Usable t) : t.defect? = none := by
  have hValue : ¬ (t.kind = .int ∧ largestInt < digitsValue t.literal.toList) := by
    rintro ⟨hInt, hLarge⟩
    have hSome := h.2 hInt
    rw [intOf?_eq_none_iff.2 hLarge] at hSome
    cases hSome
  rw [Token.defect?, if_neg h.1, if_neg hValue]

theorem defect?_of_not_startsOperand {t : Token} (h : startsOperand t.kind = false) :
    t.defect? = if t.kind ∈ Kind.unusable then some (.noOperand t.kind) else none := by
  have hKind : t.kind ≠ .int := by
    intro hInt
    rw [hInt] at h
    cases h
  simp [Token.defect?, hKind]

theorem defect?_of_intOf?_eq_none {t : Token} (ht : t.kind = .int)
    (h : intOf? t.literal = none) : t.defect? = some (.invalidInteger t.literal) := by
  have hUsable : Kind.int ∉ Kind.unusable := by decide
  rw [Token.defect?, ht, if_neg hUsable, if_pos ⟨rfl, intOf?_eq_none_iff.1 h⟩]

/-- Among the defects noticed, those that are defects of single tokens are the ones of the tokens
used. -/
def Reported (ts : List Token) (es : List Diagnostic) (n : Nat) : Prop :=
  (es.map Diagnostic.error).filter SyntaxError.reportsToken = (ts.take n).filterMap Token.defect?

theorem additive_reported : Additive Reported where
  done ts := by simp [Reported]
  append {ts es es' n n'} h h' := by
    unfold Reported at *
    rw [List.map_append, List.filter_append, h, h', List.take_add, List.filterMap_append]
  take h := by simp [Reported, defect?_of_usable h]
  unexpected _ := by simp [Reported, SyntaxError.reportsToken]
  noOperand {t ts} h := by
    by_cases hKind : t.kind ∈ Kind.unusable <;>
      simp [Reported, SyntaxError.reportsToken, defect?_of_not_startsOperand h, hKind]
  noOperand_end := by simp [Reported, SyntaxError.reportsToken, Kind.unusable]
  invalidInteger ht h := by
    simp [Reported, SyntaxError.reportsToken, defect?_of_intOf?_eq_none ht h]

end Grammar

/-! ## Source texts -/

theorem filter_errors_parse (source : String) :
    (parse source).errors.filter SyntaxError.reportsToken =
      (Token.lexemes source.toList).filterMap Token.defect? := by
  have hProgram := Grammar.additive_reported.program (Token.lexemes source.toList)
  unfold Grammar.Additive.Holds Grammar.Reported at hProgram
  rw [Grammar.used_program, List.take_length] at hProgram
  exact hProgram

theorem parse?_of_errors_ne_nil {source : String} (h : (parse source).errors ≠ []) :
    parse? source = .error (parse source).errors := by
  simp [parse?, h]

/-- A text with a stray character has a syntax error. -/
theorem errors_ne_nil_of_tokenize {json : Bool} {source : String}
    (h : (Cli.tokenize json source).code = 65) : (parse source).errors ≠ [] := by
  have hAny : (Token.ofString source).any (fun t => t.kind = .illegal) = true := by
    cases hAny : (Token.ofString source).any fun t => t.kind = .illegal with
    | true => rfl
    | false => simp [Cli.tokenize, hAny] at h
  rcases List.any_eq_true.1 hAny with ⟨t, ht, hIllegal⟩
  have hKind : t.kind = .illegal := of_decide_eq_true hIllegal
  have hLexeme : t ∈ Token.lexemes source.toList := by
    rcases List.mem_append.1 ht with hLexeme | hEof
    · exact hLexeme
    · rw [List.mem_singleton.1 hEof] at hKind
      cases hKind
  have hDefect : t.defect? = some (.noOperand .illegal) := by
    rw [Token.defect?, hKind, if_pos (by decide)]
  have hMem := List.mem_filterMap.2 ⟨t, hLexeme, hDefect⟩
  rw [← filter_errors_parse] at hMem
  exact List.ne_nil_of_mem (List.mem_filter.1 hMem).1

/-- The syntax errors of a source text that are defects of single tokens are those of its tokens in
order.  Hence a text that cannot be listed without stray characters is neither shown nor run. -/
theorem parse_reports (source : String) :
    (parse source).errors.filter SyntaxError.reportsToken =
        (Token.lexemes source.toList).filterMap Token.defect? ∧
      ∀ json, (Cli.tokenize json source).code = 65 → ∀ json' fuel,
        (Cli.parse json' source).code = 65 ∧
          ∃ exit, Cli.run fuel source = some exit ∧ exit.code = 65 := by
  refine ⟨filter_errors_parse source, fun json h json' fuel => ?_⟩
  have hParse := parse?_of_errors_ne_nil (errors_ne_nil_of_tokenize h)
  constructor
  · rw [Cli.parse, hParse]
    rfl
  · refine ⟨Cli.rejected (parse source).errors, ?_, rfl⟩
    rw [Cli.run, hParse]

/-- A text with defects of single tokens in a block, in a call in it and behind a `let`. -/
def malformedSource : String :=
  "if (x) \x7b f(1, # let 9223372036854775808 <= \\"

/-- Each of them is reported among the errors that the text has besides. -/
theorem parse_reports_malformed :
    (Cli.tokenize false malformedSource).code = 65 ∧
      (parse malformedSource).errors.filter SyntaxError.reportsToken =
        [.noOperand .illegal, .invalidInteger "9223372036854775808", .noOperand .ltEq,
          .noOperand .backslash] ∧
      (Cli.parse false malformedSource).code = 65 := by
  have hTokens : Token.lexemes malformedSource.toList =
      [⟨.ifWord, "if"⟩, ⟨.lparen, "("⟩, ⟨.ident, "x"⟩, ⟨.rparen, ")"⟩, ⟨.lbrace, "\x7b"⟩,
        ⟨.ident, "f"⟩, ⟨.lparen, "("⟩, ⟨.int, "1"⟩, ⟨.comma, ","⟩, ⟨.illegal, "#"⟩,
        ⟨.letWord, "let"⟩, ⟨.int, "9223372036854775808"⟩, ⟨.ltEq, "<="⟩, ⟨.backslash, "\\"⟩] := by
    decide +kernel
  have hCode : (Cli.tokenize false malformedSource).code = 65 := by
    simp [Cli.tokenize, Token.ofString, hTokens]
  have hReports := parse_reports malformedSource
  rw [hTokens] at hReports
  exact ⟨hCode, hReports.1.trans (by decide), (hReports.2 false hCode false 0).1⟩

end MonkeyLang
