import MonkeyLang.Proofs.Eval.InTurn
import MonkeyLang.Proofs.Grammar.Concatenation
import MonkeyLang.Proofs.Repl.Lines

/-!
# Joined — line by line, and all at once

A persistent loop that is given lines of whole statements does what a single run of all of them
does.  A line is read as it is in the text of all lines together, since its last token is a semicolon
and it leaves no block open; and what the loop keeps between lines is what a run keeps between
statements.  Only, the loop goes on behind a line that fails or returns, and the run does not.
-/

namespace MonkeyLang
namespace Repl

open Text
open Run (Ends)

/-! ## Lines as they are read -/

theorem isBlank_of_isLineBreak {c : Char} (h : isLineBreak c = true) : Token.isBlank c = true := by
  simp only [isLineBreak, Bool.or_eq_true, decide_eq_true_eq] at h
  rcases h with rfl | rfl <;> rfl

/-- The tokens of a line are those of the line without its line breaks. -/
theorem lexemes_trimmed (line : String) :
    Token.lexemes (trimmed line).toList = Token.lexemes line.toList := by
  have hText : line.toList = (line.toList.reverse.dropWhile isLineBreak).reverse ++
      (line.toList.reverse.takeWhile isLineBreak).reverse := by
    rw [← List.reverse_append, List.takeWhile_append_dropWhile, List.reverse_reverse]
  have hBreaks : ∀ c ∈ (line.toList.reverse.takeWhile isLineBreak).reverse,
      Token.isBlank c = true := by
    intro c hc
    rw [List.mem_reverse] at hc
    exact isBlank_of_isLineBreak (List.all_eq_true.1 List.all_takeWhile c hc)
  rw [trimmed, String.toList_ofList, ← Token.lexemes_append_blanks hBreaks, ← hText]

theorem parse_of_lexemes {a b : String} (h : Token.lexemes a.toList = Token.lexemes b.toList) :
    parse? a = parse? b := by
  have hParse : parse a = parse b := by rw [parse, parse, h]
  rw [parse?, parse?, hParse]

theorem lexemes_newline (l : String) :
    Token.lexemes (l ++ "\n").toList = Token.lexemes l.toList := by
  rw [String.toList_append]
  have hBlank : "\n".toList.all Token.isBlank = true := by decide
  exact Token.lexemes_append_blanks (List.all_eq_true.1 hBlank) _

theorem trimmed_ne_of_lexemes {line : String} (h : Token.lexemes line.toList ≠ []) :
    trimmed line ≠ "" := by
  intro hEmpty
  rw [← lexemes_trimmed, hEmpty] at h
  exact h (Token.lexemes_of_segmented (.nil (List.forall_mem_nil _)))

/-- The input consists of the lines in order; there may be no line feed behind the last one. -/
inductive Feeds : List String → String → Prop
  | open (l : String) : Feeds [l] l
  | ended (l : String) : Feeds [l] (l ++ "\n")
  | cons (l : String) {ls : List String} {rest : String} (h : Feeds ls rest) :
      Feeds (l :: ls) (l ++ "\n" ++ rest)

/-- The lines that are answered are the lines given, and each is read as it is. -/
theorem Feeds.map_parse {ls : List String} {input : String} (h : Feeds ls input)
    (hLines : ∀ l ∈ ls, '\n' ∉ l.toList ∧ Whole l) :
    (spoken input).map (fun line => parse? (trimmed line)) =
      (ls.map fun l => (parse l).program).map .ok := by
  have hRead : ∀ l line, Whole l → Token.lexemes line.toList = Token.lexemes l.toList →
      parse? (trimmed line) = .ok (parse l).program ∧ trimmed line ≠ "" := by
    intro l line hWhole hLexemes
    refine ⟨?_, trimmed_ne_of_lexemes (hLexemes ▸ hWhole.lexemes_ne_nil)⟩
    rw [parse_of_lexemes ((lexemes_trimmed line).trans hLexemes),
      parse?_of_errors_eq_nil hWhole.parses]
  induction h with
  | «open» l =>
      rw [List.forall_mem_singleton] at hLines
      have hLine := hRead l l hLines.2 rfl
      rw [spoken_of_not_mem hLines.1 hLine.2, List.map_singleton, hLine.1]
      rfl
  | ended l =>
      rw [List.forall_mem_singleton] at hLines
      have hLine := hRead l (l ++ "\n") hLines.2 (lexemes_newline l)
      have hSpoken := Ended.spoken_append ⟨l, hLines.1, rfl⟩ hLine.2 ""
      rw [String.append_empty] at hSpoken
      rw [hSpoken, List.map_cons, hLine.1]
      rfl
  | cons l _ ih =>
      rw [List.forall_mem_cons] at hLines
      have hLine := hRead l (l ++ "\n") hLines.1.2 (lexemes_newline l)
      rw [Ended.spoken_append ⟨l, hLines.1.1, rfl⟩ hLine.2, List.map_cons, hLine.1, ih hLines.2]
      rfl

theorem Feeds.ne_nil {ls : List String} {input : String} (h : Feeds ls input) : ls ≠ [] := by
  cases h <;> exact List.cons_ne_nil _ _

/-! ## Lines as they are evaluated -/

/-- What a persistent loop answers are the results of the programs, run in turn in its scope. -/
theorem Answers.inTurn {fuel : Nat} {st last : State} {lines replies : List String}
    (h : Answers fuel st lines replies last) (hPersist : st.persist = true) {ps : List Program}
    (hParse : lines.map (fun line => parse? (trimmed line)) = ps.map .ok) :
    ∃ cs σ, InTurn st.scope st.store ps cs σ ∧
      replies = cs.map fun c => resultAnswer c.result := by
  induction h generalizing ps with
  | nil =>
      rw [List.map_nil, eq_comm, List.map_eq_nil_iff] at hParse
      subst hParse
      exact ⟨[], _, .nil, rfl⟩
  | @cons st next last line reply lines replies _ hReply _ ih =>
      cases ps with
      | nil => cases hParse
      | cons p ps =>
          rw [List.map_cons, List.map_cons, List.cons.injEq] at hParse
          simp only [answer, hParse.1, hPersist, if_true] at hReply
          rcases Option.map_eq_some_iff.1 hReply with ⟨⟨r, τ⟩, hEval, hTurn⟩
          rcases Option.map_eq_some_iff.1 hEval with ⟨⟨c, υ⟩, hRun, hResult⟩
          cases hTurn
          cases hResult
          have hFirst : Ends (fun n => evalStmts n st.scope .null p.statements) st.store c τ :=
            ⟨fuel, fun k hk => evalStmts_of_le hk st.scope .null p.statements st.store _ hRun⟩
          rcases ih rfl hParse.2 with ⟨cs, σ, hRest, rfl⟩
          exact ⟨c :: cs, σ, .cons hFirst hRest, rfl⟩

/-- A persistent loop over lines of whole statements writes the results of their programs, run in
turn.  All lines together, run as one text, come to the result of the first of them that fails or
returns, and of the last one if there is none. -/
theorem run_join_of_writes {ls : List String} {input text : String}
    (hLines : ∀ l ∈ ls, '\n' ∉ l.toList ∧ Whole l) (hFeeds : Feeds ls input)
    (hWrites : Writes true input text) :
    ∃ cs c σ,
      InTurn Store.fresh.1 Store.fresh.2 (ls.map fun l => (parse l).program) cs σ ∧
      text = transcript (cs.map fun c => resultAnswer c.result) ∧
      Decisive cs c ∧
      ∃ n, ∀ fuel, n ≤ fuel →
        run fuel (String.join ls) = some (c.result.mapError RunError.eval) := by
  have hWhole : ∀ l ∈ ls, Whole l := fun l hl => (hLines l hl).2
  rcases writes_iff.1 hWrites with ⟨fuel, replies, last, hAnswers, rfl⟩
  rcases hAnswers.inTurn rfl (hFeeds.map_parse hLines) with ⟨cs, σ, hTurns, rfl⟩
  have hNonempty : (ls.map fun l => (parse l).program) ≠ [] := by
    rw [ne_eq, List.map_eq_nil_iff]
    exact hFeeds.ne_nil
  have hStatements : ∀ p ∈ ls.map fun l => (parse l).program, p.statements ≠ [] := by
    rw [List.forall_mem_map]
    exact fun l hl => (hWhole l hl).statements_ne_nil
  rcases BigStep.exists_executesAll_flatMap hTurns hNonempty hStatements with
    ⟨c, τ, hDecisive, hAll⟩
  refine ⟨cs, c, σ, hTurns, rfl, hDecisive, ?_⟩
  have hJoin := parse_join hWhole
  have hJoined : BigStep.ExecutesAll Store.fresh.1 Store.fresh.2
      (parse (String.join ls)).program.statements c τ := by
    rw [hJoin]
    exact hAll
  rcases BigStep.evalFresh_of_executesAll hJoined with ⟨n, hEval⟩
  refine ⟨n, fun fuel hFuel => ?_⟩
  rw [run, parse?_of_errors_eq_nil (congrArg Parsed.errors hJoin)]
  simp only [hEval fuel hFuel, Option.map_some]

/-- The second line returns and ends in a carriage return, the third fails with no line feed behind
it. -/
theorem run_join_of_writes_sample :
    ∃ cs c n,
      transcript (cs.map fun c : Completion Value => resultAnswer c.result) =
        ">> 5\n>> 5\n>> ERROR: identifier not found: b\n>> " ∧
      Decisive cs c ∧
      ∀ fuel, n ≤ fuel →
        run fuel "let a = 5;return a;\ra + b;" = some (c.result.mapError RunError.eval) := by
  have hLines : ∀ l ∈ ["let a = 5;", "return a;\r", "a + b;"], '\n' ∉ l.toList ∧ Whole l := by
    simp only [List.forall_mem_cons]
    refine ⟨⟨by decide, ?_⟩, ⟨by decide, ?_⟩, ⟨by decide, ?_⟩, List.forall_mem_nil _⟩ <;>
      exact ⟨by with_unfolding_all rfl, by decide +kernel, by decide +kernel⟩
  have hFeeds : Feeds ["let a = 5;", "return a;\r", "a + b;"] "let a = 5;\nreturn a;\r\na + b;" :=
    .cons _ (.cons _ (.open _))
  have hWrites : Writes true "let a = 5;\nreturn a;\r\na + b;"
      ">> 5\n>> 5\n>> ERROR: identifier not found: b\n>> " := ⟨9, by decide +kernel⟩
  rcases run_join_of_writes hLines hFeeds hWrites with ⟨cs, c, _, _, hText, hDecisive, n, hRun⟩
  exact ⟨cs, c, n, hText.symm, hDecisive, hRun⟩

end Repl
end MonkeyLang
