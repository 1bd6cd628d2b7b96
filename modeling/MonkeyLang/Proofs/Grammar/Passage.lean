import MonkeyLang.Proofs.Grammar.Following

/-!
# Passage — every token is in hand once

The cursor comes to an end on every list of tokens, with the statements and the defects that the
reader finds.  On the way it has each token in hand once, one after the other, and then the end of
input; and every statement lets go of the token it begins with.
-/

namespace MonkeyLang
namespace Walk

variable {c c' c'' c₀ : Cursor} {ts l : List Token} {j : Nat}

/-! ## Programs -/

/-- Statements that end at once. -/
theorem ends_statements_nil {closes : Kind → Bool} {around : List Nat}
    (h : closes c.current.kind = true) : Ends (statements closes around) c [] c := by
  refine .step ?_
  simp only [statements]
  refine .get ?_
  simp only [if_pos h]
  exact .of_eq rfl

theorem ends_statements_cons {closes : Kind → Bool} {around : List Nat} {s : Option Stmt}
    {ss : List Stmt} (h : closes c.current.kind = false) (hFirst : Ends (statement around) c s c')
    (hRest : Ends (statements closes around) c'.next ss c'') :
    Ends (statements closes around) c (s.toList ++ ss) c'' := by
  refine .step ?_
  simp only [statements]
  refine .get ?_
  simp only [h, Bool.false_eq_true, if_false]
  have hNext : Ends (fun _ => nextToken) c' () c'.next := .of_eq (nextToken_eq c')
  exact hFirst.bind (hNext.bind (hRest.bind (.of_eq rfl)))

/-- The statements of a program are read to the end of input. -/
theorem exists_ends_program (hts : ∀ t ∈ ts, t.kind ≠ .eof) (hl : ts.drop j = l)
    (hc : c₀.Passed ts j c) :
    ∃ c' k, Ends program c (Grammar.program l).value c' ∧ c₀.Passed ts k c' ∧ ts.length ≤ k ∧
      c'.errors = c.errors ++ (Grammar.program l).errors.map Diagnostic.error := by
  induction l using Grammar.program.induct generalizing c j with
  | case1 =>
      have hClosed : closesProgram c.current.kind = true := by
        rw [hc.stands.current, hl]
        rfl
      rw [Grammar.program]
      exact ⟨c, j, ends_statements_nil hClosed, hc, List.drop_eq_nil_iff.1 hl,
        (List.append_nil _).symm⟩
  | case2 t rest ih =>
      have ht : t.kind ≠ .eof := hts t (List.mem_of_mem_drop (hl ▸ List.mem_cons_self))
      have hOpen : closesProgram c.current.kind = false := by
        rw [hc.current_eq hl]
        simp [closesProgram, ht]
      have hFirst := statement_follows hts hl hc (.nil ts j)
      rcases hFirst with ⟨c₁, k₁, hEnds₁, hc₁, -, hl₁, hErrors₁⟩
      rcases ih _ hl₁ hc₁.next with ⟨c₂, k₂, hEnds₂, hc₂, hEnd, hErrors₂⟩
      rw [Grammar.program]
      refine ⟨c₂, k₂, ends_statements_cons hOpen hEnds₁ hEnds₂, hc₂, hEnd, ?_⟩
      have hNext : c₁.next.errors = c₁.errors := rfl
      rw [hErrors₂, hNext, hErrors₁, List.append_assoc, ← List.map_append]
      rfl

end Walk

/-! ## All tokens -/

/-- The tokens at the first places, and behind the last token the end of input. -/
theorem map_headD_drop (ts : List Token) {n : Nat} (h : ts.length ≤ n) :
    (List.range n).map (fun i => (ts.drop i).headD .eof) =
      ts ++ List.replicate (n - ts.length) .eof := by
  induction ts generalizing n with
  | nil => simp [List.map_const']
  | cons t ts ih =>
      cases n with
      | zero => exact absurd h (Nat.not_succ_le_zero _)
      | succ n =>
          have hRest := ih (Nat.le_of_succ_le_succ h)
          rw [List.range_succ_eq_map, List.map_cons, List.map_map, List.length_cons,
            Nat.add_sub_add_right, List.cons_append, ← hRest]
          rfl

/-- On every list of tokens the cursor comes to the end of input, with what the reader finds.  On
the way there each token is in hand once and in order, and wherever an expression or a block begins
inside of expressions, fewer tokens are left than where those began.  A statement, with the token
behind it, leaves fewer tokens than there were. -/
theorem walk_passes_tokens {ts : List Token} (hts : ∀ t ∈ ts, t.kind ≠ .eof) :
    (∃ c, Walk.Ends Walk.program (.ofTokens ts) (Parsed.ofTokens ts).program.statements c ∧
      c.errors = (Parsed.ofTokens ts).errors ∧ c.current = .eof ∧
      (∃ n, c.seen = ts ++ List.replicate (n + 1) .eof) ∧ ∀ e ∈ c.entries, e.Shrinks) ∧
    (∀ c : Cursor, c.Stands ts → c.current.kind ≠ .eof →
      ∀ around, (∀ n ∈ around, c.unread < n) →
        ∃ s c', Walk.Ends (Walk.statement around) c s c' ∧ c'.next.unread < c.unread) := by
  constructor
  · have hStart := Cursor.Passed.start (Cursor.stands_ofTokens ts)
    have hProgram := Walk.exists_ends_program hts List.drop_zero hStart
    rcases hProgram with ⟨c, k, hEnds, hc, hEnd, hErrors⟩
    refine ⟨c, hEnds, hErrors, ?_, ⟨k - ts.length, ?_⟩, ?_⟩
    · rw [hc.stands.current, List.drop_eq_nil_iff.2 hEnd]
      rfl
    · have hAll := map_headD_drop ts (Nat.le_succ_of_le hEnd)
      rw [List.range_succ_eq_map, List.map_cons, List.map_map] at hAll
      rw [hc.seen, ← Nat.sub_add_comm hEnd, ← hAll]
      rfl
    · intro e he
      rcases hc.entries e he with hOld | hShrinks
      · cases hOld
      · exact hShrinks
  · intro c hStands hCurrent around hAround
    have hUnread := hStands.unread_eq hts
    cases ts with
    | nil =>
        rw [hStands.current] at hCurrent
        exact absurd rfl hCurrent
    | cons t l =>
        have hFresh : Cursor.Fresh (t :: l) around 0 := by
          intro n hn
          rw [Nat.sub_zero, ← hUnread]
          exact hAround n hn
        have hStatement := Walk.statement_follows hts rfl (.start hStands) hFresh
        rcases hStatement with ⟨c', k, hEnds, hc', -, -, -⟩
        refine ⟨_, c', hEnds, ?_⟩
        -- the token in hand at the beginning is behind the cursor
        rw [hc'.next.unread_eq hts, hUnread]
        exact Nat.sub_lt (Nat.succ_pos _) (Nat.succ_pos k)

/-- What is recorded for `f(!`, where the operand behind the mark is missing. -/
example :
    (Walk.program 12 (.ofTokens [⟨.ident, "f"⟩, ⟨.lparen, "("⟩, ⟨.bang, "!"⟩])).map
        (fun p => p.2.entries.map fun e => (e.unread, e.around)) =
      some [(3, []), (1, [3]), (0, [1, 3])] := by
  decide +kernel

/-- A call in which a function literal, its block and an operand are not finished. -/
def unfinishedTokens : List Token :=
  [⟨.ident, "f"⟩, ⟨.lparen, "("⟩, ⟨.fnWord, "fn"⟩, ⟨.lparen, "("⟩, ⟨.rparen, ")"⟩,
    ⟨.lbrace, "\x7b"⟩, ⟨.minus, "-"⟩]

/-- The cursor comes to the end of them, also when they are read within other expressions. -/
theorem walk_passes_tokens_unfinished :
    (∃ c, Walk.Ends Walk.program (.ofTokens unfinishedTokens)
        (Parsed.ofTokens unfinishedTokens).program.statements c ∧
      c.errors = (Parsed.ofTokens unfinishedTokens).errors ∧ c.current = .eof ∧
      (∃ n, c.seen = unfinishedTokens ++ List.replicate (n + 1) .eof) ∧
      ∀ e ∈ c.entries, e.Shrinks) ∧
    (∃ s c', Walk.Ends (Walk.statement [8, 9]) (.ofTokens unfinishedTokens) s c' ∧
      c'.next.unread < 7) := by
  have hTokens : ∀ t ∈ unfinishedTokens, t.kind ≠ .eof := by decide
  have hPasses := walk_passes_tokens hTokens
  exact ⟨hPasses.1, hPasses.2 (.ofTokens unfinishedTokens) (Cursor.stands_ofTokens _) (by decide)
    [8, 9] (by decide)⟩

end MonkeyLang
