import MonkeyLang.Cli.Basic
import MonkeyLang.Proofs.Grammar.Reports
import MonkeyLang.Proofs.Repl.Joined

/-!
# Front ends — one verdict on a source text

A source text can be read and run as it is, shown or run from a file by a command, and typed in as a
line of the interactive loop.  All of these see the same syntax errors in the same order, or none of
them sees any; and then the text comes to the same value or the same error wherever it is run.  They
differ in how they say so.

The loop reads a line without the line breaks at its end, and a persistent one keeps a scope from
line to line.  Line breaks are blanks and the first scope is empty, so neither makes a difference.
-/

namespace MonkeyLang

open Text

/-! ## Lines of errors -/

/-- The literal of a token holds no blank. -/
theorem Token.Segmented.isBlank_eq_false {cs : List Char} {ts : List Token}
    (h : Token.Segmented cs ts) : ∀ t ∈ ts, ∀ c ∈ t.literal.toList, Token.isBlank c = false := by
  induction h with
  | nil => exact List.forall_mem_nil _
  | cons _ ht _ ih => exact List.forall_mem_cons.2 ⟨ht.isBlank_eq_false, ih⟩

/-- Digits that are reported are those of a token. -/
theorem exists_token_of_invalidInteger {source digits : String}
    (h : .invalidInteger digits ∈ (parse source).errors) :
    ∃ t ∈ Token.lexemes source.toList, t.literal = digits := by
  have hReported := List.mem_filter.2 ⟨h, (rfl : SyntaxError.reportsToken _ = true)⟩
  rw [filter_errors_parse] at hReported
  rcases List.mem_filterMap.1 hReported with ⟨t, ht, hDefect⟩
  refine ⟨t, ht, ?_⟩
  unfold Token.defect? at hDefect
  split at hDefect
  · cases hDefect
  · split at hDefect
    · cases hDefect
      rfl
    · cases hDefect

theorem newline_not_mem_append {s t : String} (hs : '\n' ∉ s.toList) (ht : '\n' ∉ t.toList) :
    '\n' ∉ (s ++ t).toList := by
  rw [String.toList_append, List.mem_append, not_or]
  exact ⟨hs, ht⟩

/-- Every syntax error of a text is reported on one line. -/
theorem newline_not_mem_message {source : String} {e : SyntaxError}
    (h : e ∈ (parse source).errors) : '\n' ∉ e.message.toList := by
  have hSymbol : ∀ k : Kind, '\n' ∉ k.symbol.toList := by
    intro k
    cases k <;> decide
  cases e with
  | unexpected expected actual =>
      refine newline_not_mem_append (newline_not_mem_append ?_ (hSymbol actual)) (by decide)
      exact newline_not_mem_append (newline_not_mem_append (by decide) (hSymbol expected))
        (by decide)
  | noOperand found =>
      exact newline_not_mem_append (newline_not_mem_append (by decide) (hSymbol found)) (by decide)
  | invalidInteger digits =>
      rcases exists_token_of_invalidInteger h with ⟨t, ht, rfl⟩
      have hDigits : '\n' ∉ t.literal.toList := fun hMem =>
        absurd ((Token.segmented_lexemes _).isBlank_eq_false t ht _ hMem) (by decide)
      exact newline_not_mem_append (newline_not_mem_append (by decide) hDigits) (by decide)

/-- Texts on lines of their own, each behind a margin. -/
def linesOf (margin : String) (texts : List String) : String :=
  String.join (texts.map fun text => margin ++ text ++ "\n")

theorem printedLines_eq (texts : List String) : Cli.printedLines texts = linesOf "" texts := by
  induction texts with
  | nil => rfl
  | cons text texts ih => simp [Cli.printedLines, linesOf, ih, String.join_cons]

theorem errorLines_eq (errors : List SyntaxError) :
    Repl.errorLines errors = linesOf "\t" (errors.map SyntaxError.message) := by
  induction errors with
  | nil => rfl
  | cons e errors ih => simp [Repl.errorLines, linesOf, ih, String.join_cons]

/-! ## A line as the only one -/

namespace Repl

theorem trimmed_newline (line : String) : trimmed (line ++ "\n") = trimmed line := by
  have hLine : (line ++ "\n").toList.reverse = '\n' :: line.toList.reverse := by
    simp [String.toList_append]
  rw [trimmed, trimmed, hLine, List.dropWhile_cons_of_pos rfl]

/-- With a single line to read, the loop reads that line as it is. -/
theorem Feeds.exists_lines {source input : String} (h : Feeds [source] input)
    (hOpen : '\n' ∉ source.toList) (hSpeaks : trimmed source ≠ "") :
    ∃ line, lines (bytes input) = [bytes line] ∧ trimmed line = trimmed source := by
  cases h with
  | «open» =>
      have hNonempty : source.toList ≠ [] := by
        intro hNil
        rw [String.toList_eq_nil_iff.1 hNil] at hSpeaks
        exact hSpeaks rfl
      refine ⟨source, ?_, rfl⟩
      rw [lines_bytes, textLines, cutLines_of_not_mem hOpen hNonempty, List.map_singleton,
        String.ofList_toList, List.map_singleton]
  | ended =>
      refine ⟨source ++ "\n", ?_, trimmed_newline source⟩
      have hEnded : Ended (source ++ "\n") := ⟨source, hOpen, rfl⟩
      have hLines := hEnded.textLines_append ""
      rw [String.append_empty] at hLines
      rw [lines_bytes, hLines]
      rfl
  | cons _ h => exact absurd rfl h.ne_nil

/-- In its first state a persistent loop answers as one that is not. -/
theorem answer_start (fuel : Nat) (persist : Bool) (line : String) :
    Option.Rel (fun turn reply => ∃ next, turn = .answer reply next)
      (answer fuel (State.start persist) (trimmed line)) (lineReply fuel line) := by
  cases persist with
  | false =>
      rw [answer_of_not_persist rfl]
      cases lineReply fuel line with
      | none => exact .none
      | some reply => exact .some ⟨_, rfl⟩
  | true =>
      unfold answer lineReply
      cases parse? (trimmed line) with
      | error errors => exact .some ⟨_, rfl⟩
      | ok p =>
          -- both evaluate the line in the first scope of a store
          simp only [State.start, if_true, evalFresh]
          cases eval fuel p Store.fresh.1 Store.fresh.2 with
          | none => exact .none
          | some end_ => exact .some ⟨_, rfl⟩

/-- The answer to a line that is not trimmed. -/
theorem lineReply_eq (fuel : Nat) (source : String) :
    lineReply fuel source =
      match parse? source with
      | .error errors => some (parseAnswer errors)
      | .ok p => (evalFresh fuel p).map resultAnswer := by
  change (match parse? (trimmed source) with
    | .error errors => some (parseAnswer errors)
    | .ok p => (evalFresh fuel p).map resultAnswer) = _
  rw [parse_of_lexemes (lexemes_trimmed source)]

/-- A loop with a single line to read writes a prompt, the answer to it, and one prompt more. -/
theorem start_single {source input : String} (h : Feeds [source] input)
    (hOpen : '\n' ∉ source.toList) (hSpeaks : trimmed source ≠ "") (fuel : Nat) (persist : Bool) :
    start fuel persist (bytes input) (Sink.ofRoom none) =
      (lineReply fuel source).map fun reply =>
        (.finished, ⟨bytes (prompt ++ reply ++ prompt), none⟩) := by
  rcases h.exists_lines hOpen hSpeaks with ⟨line, hLines, hTrimmed⟩
  have hAnswer := answer_start fuel persist source
  rw [← hTrimmed] at hAnswer hSpeaks
  rw [start, hLines]
  generalize hTurn : answer fuel (State.start persist) (trimmed line) = turn,
    lineReply fuel source = reply at hAnswer
  cases hAnswer with
  | none =>
      rw [converse_eq]
      simp only [turn_bytes, if_neg hSpeaks, hTurn]
      rfl
  | some hReply =>
      rcases hReply with ⟨next, rfl⟩
      have hAnswers : Answers fuel (State.start persist) [line] [_] next :=
        .cons hSpeaks hTurn .nil
      have hWhole := converse_of_answers hAnswers .endOfInput (Sink.ofRoom none)
      rw [List.map_singleton, List.append_nil] at hWhole
      rw [hWhole, transcript, exchanges, exchanges, String.append_empty]
      rfl

end Repl

/-! ## All front ends -/

namespace Cli

/-- What the front ends give for a source text: the commands that show and run a file with the text,
and the loop, persistent or not, for the text as its only line. -/
structure FrontEnds (fuel : Nat) (source : String) (shown : Exit) (ran : Option Exit)
    (reply : Option String) : Prop where
  parse : ∀ path stdin,
    perform fuel ⟨.parse false, some path⟩ (.ok (bytes source)) stdin = some shown
  run : ∀ path stdin, perform fuel ⟨.run, some path⟩ (.ok (bytes source)) stdin = ran
  repl : '\n' ∉ source.toList → Repl.trimmed source ≠ "" →
    ∀ persist input, Repl.Feeds [source] input →
      Repl.start fuel persist (bytes input) (Sink.ofRoom none) = reply.map fun text =>
        (.finished, ⟨bytes (Repl.prompt ++ text ++ Repl.prompt), none⟩)

theorem frontEnds (fuel : Nat) (source : String) :
    FrontEnds fuel source (Cli.parse false source) (Cli.run fuel source)
      (Repl.lineReply fuel source) where
  parse path stdin := by simp only [perform, sourceOf, fromUTF8?_bytes]
  run path stdin := by simp only [perform, sourceOf, fromUTF8?_bytes]
  repl hOpen hSpeaks persist input h := Repl.start_single h hOpen hSpeaks fuel persist

end Cli

/-- On every source text the front ends are of one mind.  Either all see the same syntax errors,
each of which takes one line; or none sees any, and the text is shown in its canonical form and
comes to the same value, to the same error, or to no end with so many nested steps. -/
theorem frontEnds_agree (fuel : Nat) (source : String) :
    (∃ errors texts, (parse source).errors = errors ∧ errors ≠ [] ∧
      texts = errors.map SyntaxError.message ∧ (∀ text ∈ texts, '\n' ∉ text.toList) ∧
      run fuel source = some (.error (.parse errors)) ∧
      Cli.FrontEnds fuel source ⟨65, "", linesOf "" texts⟩ (some ⟨65, "", linesOf "" texts⟩)
        (some (Repl.monkeyFace ++ "Woops! We ran into some monkey business here!\n" ++
          " parser errors:\n" ++ linesOf "\t" texts))) ∨
    (parse source).errors = [] ∧ ∃ ran reply,
      Cli.FrontEnds fuel source ⟨0, (parse source).program.text ++ "\n", ""⟩ ran reply ∧
      ((∃ v, run fuel source = some (.ok v) ∧ ran = some ⟨0, v.text ++ "\n", ""⟩ ∧
          reply = some (v.text ++ "\n")) ∨
        (∃ e, run fuel source = some (.error (.eval e)) ∧ ran = some ⟨70, "", e.message ++ "\n"⟩ ∧
          reply = some ("ERROR: " ++ e.message ++ "\n")) ∨
        run fuel source = none ∧ ran = none ∧ reply = none) := by
  have hFrontEnds := Cli.frontEnds fuel source
  rw [Repl.lineReply_eq, Cli.parse, Cli.run] at hFrontEnds
  by_cases hErrors : (parse source).errors = []
  · right
    have hParse := parse?_of_errors_eq_nil hErrors
    simp only [hParse] at hFrontEnds
    refine ⟨hErrors, _, _, hFrontEnds, ?_⟩
    simp only [run, hParse]
    -- no end, a failure, or a value
    rcases evalFresh fuel (parse source).program with _ | e | v
    · exact .inr (.inr ⟨rfl, rfl, rfl⟩)
    · exact .inr (.inl ⟨e, rfl, rfl, rfl⟩)
    · exact .inl ⟨v, rfl, rfl, rfl⟩
  · left
    have hParse := parse?_of_errors_ne_nil hErrors
    simp only [hParse, Cli.rejected, printedLines_eq, Repl.parseAnswer, errorLines_eq] at hFrontEnds
    refine ⟨_, _, rfl, hErrors, rfl, ?_, ?_, hFrontEnds⟩
    · rw [List.forall_mem_map]
      exact fun e he => newline_not_mem_message he
    · rw [run, hParse]

/-- A line that fails, with a carriage return at its end that the loop takes away. -/
theorem frontEnds_agree_sample :
    Cli.perform 9 ⟨.run, some "f"⟩ (.ok (bytes "6 / 0\r")) [] =
        some ⟨70, "", "division by zero\n"⟩ ∧
      Repl.start 9 true (bytes "6 / 0\r\n") (Sink.ofRoom none) =
        some (.finished, ⟨bytes ">> ERROR: division by zero\n>> ", none⟩) := by
  have hRun : run 9 "6 / 0\r" = some (.error (.eval .divisionByZero)) := by
    with_unfolding_all rfl
  rcases frontEnds_agree 9 "6 / 0\r" with
    ⟨errors, _, -, -, -, -, hOther, -⟩ | ⟨-, ran, reply, h, hEnds⟩
  · rw [hRun] at hOther
    cases hOther
  · rcases hEnds with ⟨v, hOther, -⟩ | ⟨e, hSame, rfl, rfl⟩ | ⟨hOther, -⟩
    · rw [hRun] at hOther
      cases hOther
    · rw [hRun] at hSame
      cases hSame
      exact ⟨h.run "f" [], h.repl (by decide) (by decide) true _ (.ended _)⟩
    · rw [hRun] at hOther
      cases hOther

end MonkeyLang
