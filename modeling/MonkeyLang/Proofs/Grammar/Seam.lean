import MonkeyLang.Proofs.Grammar.Concatenation
import MonkeyLang.Proofs.Grammar.Passage

/-!
# Seam — where one program ends and another one begins

Behind a program that ends with a semicolon, with no block open, other tokens are read as a program
of their own (`Grammar.program_append`).  The cursor shows why: when it has read the statements of
the first program, it stands in front of the other tokens just as one that starts there, without a
defect noticed, and goes on as that one does (`Walk.exists_seam`).  So a text without errors can be
cut behind any semicolon that ends a statement at top level, and its two parts read one by one.
-/

namespace MonkeyLang

namespace Walk

variable {c₀ c : Cursor} {all ts us : List Token} {j : Nat}

/-- Between the statements of a program and the tokens behind it the cursor comes to a place from
which it goes on as if it had read nothing before. -/
theorem exists_seam (hAll : ∀ t ∈ all, t.kind ≠ .eof) (hErrors : (Grammar.program ts).errors = [])
    (hBalanced : Grammar.Balanced ts) (hEnds : Grammar.EndsStatement ts)
    (hl : all.drop j = ts ++ us) (hc : c₀.Passed all j c) :
    ∃ c', c'.Stands us ∧ c'.errors = c.errors ∧
      ∀ ss c'', Ends program c' ss c'' →
        Ends program c ((Grammar.program ts).value ++ ss) c'' := by
  induction ts using Grammar.program.induct generalizing c j with
  | case1 =>
      have hStands := hc.stands
      rw [hl] at hStands
      refine ⟨c, hStands, rfl, fun ss c'' h => ?_⟩
      rw [Grammar.program]
      exact h
  | case2 t rest ih =>
      rw [Grammar.program, Reading.errors_shift, Reading.errors_bind, Reading.errors_map,
        List.append_eq_nil_iff] at hErrors
      rw [List.cons_append] at hl
      have ht : t.kind ≠ .eof := hAll t (List.mem_of_mem_drop (hl ▸ List.mem_cons_self))
      have hOpen : closesProgram c.current.kind = false := by
        rw [hc.current_eq hl]
        simp [closesProgram, ht]
      -- the first statement is read as if nothing stood behind its program
      rcases statement_follows hAll hl hc (.nil all j) with ⟨c₁, k, hFirst, hc₁, -, hl₁, hErrors₁⟩
      rw [Grammar.stmt_append hErrors.1 hBalanced hEnds us] at hFirst hl₁ hErrors₁
      rw [List.drop_append_of_le_length (Grammar.used_stmt_le t rest)] at hl₁
      have hTail : Grammar.EndsStatement (rest.drop (Grammar.stmt t rest).used) :=
        hEnds.drop ((Grammar.stmt t rest).used + 1)
      rcases ih _ hErrors.2 (Grammar.balanced_drop_stmt hErrors.1 hBalanced) hTail hl₁ hc₁.next
        with ⟨c', hStands, hSame, hBehind⟩
      refine ⟨c', hStands, ?_, fun ss c'' h => ?_⟩
      · rw [hSame]
        show c₁.errors = c.errors
        rw [hErrors₁, hErrors.1, List.map_nil, List.append_nil]
      · have hRest := ends_statements_cons hOpen hFirst (hBehind ss c'' h)
        rw [← List.append_assoc] at hRest
        rw [Grammar.program]
        exact hRest

end Walk

/-- Behind a text without errors that ends with a semicolon, with no block open, any text is read as
if it stood alone: its statements come behind those of the first text, and its defects, each as far
from the end as before, are all there are.  Between the two texts the cursor is as one that starts
in front of the second. -/
theorem parse_append_of_semicolon {a : String} (hErrors : (parse a).errors = [])
    (hBraces : ((Token.lexemes a.toList).map Token.kind).count .lbrace =
      ((Token.lexemes a.toList).map Token.kind).count .rbrace)
    (hLast : (Token.lexemes a.toList).getLast?.map Token.kind = some .semicolon) (b : String) :
    (parse (a ++ b)).program.statements =
        (parse a).program.statements ++ (parse b).program.statements ∧
      (parse (a ++ b)).errors = (parse b).errors ∧
      (parse (a ++ b)).diagnostics = (parse b).diagnostics ∧
      ∃ c : Cursor, c.Stands (Token.lexemes b.toList) ∧ c.errors = [] ∧
        ∀ ss c', Walk.Ends Walk.program c ss c' →
          Walk.Ends Walk.program (.ofTokens (Token.lexemes (a ++ b).toList))
            ((parse a).program.statements ++ ss) c' := by
  have hWhole : Whole a := ⟨hErrors, hBraces, hLast⟩
  have hLexemes : Token.lexemes (a ++ b).toList =
      Token.lexemes a.toList ++ Token.lexemes b.toList := by
    rw [String.toList_append, Token.lexemes_append_of_semicolon hWhole.endsStatement]
  rw [hWhole.parse_append b]
  refine ⟨rfl, rfl, rfl, ?_⟩
  have hTokens : ∀ t ∈ Token.lexemes (a ++ b).toList, t.kind ≠ .eof := fun t ht =>
    ((Token.segmented_lexemes _).proper t ht).2
  have hStart := Cursor.Passed.start (Cursor.stands_ofTokens (Token.lexemes (a ++ b).toList))
  exact Walk.exists_seam hTokens hWhole.program_errors hWhole.balanced hWhole.endsStatement
    (hLexemes ▸ List.drop_zero) hStart

/-- A function with a conditional in its body, and behind it a text that begins with a brace and
breaks off in a call. -/
theorem parse_append_of_semicolon_malformed :
    (parse ("let f = fn(x) \x7b if (x) \x7b return 1; \x7d \x7d;" ++ "\x7d f(1, ; let 5")).errors =
      [.noOperand .rbrace, .noOperand .semicolon, .unexpected .ident .int] := by
  have hErrors : (parse "let f = fn(x) \x7b if (x) \x7b return 1; \x7d \x7d;").errors = [] := by
    with_unfolding_all rfl
  have hOther : (parse "\x7d f(1, ; let 5").errors =
      [.noOperand .rbrace, .noOperand .semicolon, .unexpected .ident .int] := by
    with_unfolding_all rfl
  have hAppend := parse_append_of_semicolon hErrors (by decide +kernel) (by decide +kernel)
    "\x7d f(1, ; let 5"
  exact hAppend.2.1.trans hOther

end MonkeyLang
