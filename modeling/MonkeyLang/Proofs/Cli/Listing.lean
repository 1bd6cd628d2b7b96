import MonkeyLang.Proofs.Cli.FrontEnds

/-!
# Listing — tokens read back from their lines

A token is listed on a line of its own: the name of its kind, a space, and its literal.  Whatever
characters a text holds, no literal holds a line feed and no name of a kind a space.  So the lines
of a listing, each taken apart at its first space, are the tokens again, and no two lists of tokens
are listed alike.

A listing ends in failure exactly if the text holds a character that nothing is written with
(`Token.Foreign`), wherever that stands.
-/

namespace MonkeyLang

open Text

/-! ## Lines taken apart -/

/-- The word before the first space of a line, and all that stands behind that space. -/
def cutAtSpace (line : List Char) : String × String :=
  (String.ofList (line.takeWhile (· ≠ ' ')), String.ofList ((line.dropWhile (· ≠ ' ')).drop 1))

theorem cutAtSpace_append {word : List Char} (h : ' ' ∉ word) (rest : List Char) :
    cutAtSpace (word ++ ' ' :: rest) = (String.ofList word, String.ofList rest) := by
  have hWord : ∀ c ∈ word, decide (c ≠ ' ') = true := fun c hc =>
    decide_eq_true fun hSpace => h (hSpace ▸ hc)
  rw [cutAtSpace, List.takeWhile_append_of_pos hWord, List.dropWhile_append_of_pos hWord]
  simp

/-- Texts on lines of their own, cut at the line feeds; behind the last one stands nothing. -/
theorem splitOn_printedLines {texts : List String} (h : ∀ text ∈ texts, '\n' ∉ text.toList) :
    (Cli.printedLines texts).toList.splitOn '\n' = texts.map String.toList ++ [[]] := by
  induction texts with
  | nil => rfl
  | cons text texts ih =>
      rw [List.forall_mem_cons] at h
      have hLines : (Cli.printedLines (text :: texts)).toList =
          text.toList ++ '\n' :: (Cli.printedLines texts).toList := by
        simp [Cli.printedLines]
      rw [hLines, List.splitOn_append_cons_self_of_not_mem h.1, ih h.2, List.map_cons,
        List.cons_append]

/-! ## Tokens on lines -/

namespace Token

/-- What the line of a token says: the name of its kind, and its literal. -/
def entry (t : Token) : String × String :=
  (t.kind.name, t.literal)

theorem entry_injective : Function.Injective entry := by
  rintro ⟨k, literal⟩ ⟨l, literal'⟩ h
  rcases Prod.mk.inj h with ⟨hName, rfl⟩
  have hKind : k = l := Kind.name_injective hName
  rw [hKind]

theorem toList_display (t : Token) :
    t.display.toList = t.kind.name.toList ++ ' ' :: t.literal.toList := by
  simp [display]

theorem space_not_mem_name (k : Kind) : ' ' ∉ k.name.toList := by
  cases k <;> decide

theorem cutAtSpace_display (t : Token) : cutAtSpace t.display.toList = t.entry := by
  rw [toList_display, cutAtSpace_append (space_not_mem_name t.kind), String.ofList_toList,
    String.ofList_toList, entry]

theorem newline_not_mem_display {t : Token} (h : '\n' ∉ t.literal.toList) :
    '\n' ∉ t.display.toList := by
  have hName : '\n' ∉ t.kind.name.toList := by
    cases t.kind <;> decide
  rw [display]
  exact newline_not_mem_append (newline_not_mem_append hName (by decide)) h

/-- No token of a text holds a line feed. -/
theorem newline_not_mem_literal {source : String} {t : Token} (h : t ∈ ofString source) :
    '\n' ∉ t.literal.toList := by
  intro hMem
  rcases List.mem_append.1 h with hLexeme | hEof
  · have hBlank := (segmented_lexemes _).isBlank_eq_false t hLexeme _ hMem
    exact absurd hBlank (by decide)
  · rw [List.mem_singleton.1 hEof] at hMem
    cases hMem

/-! ## Characters that nothing is written with -/

/-- The characters of marks. -/
def signs : List Char :=
  ['=', '!', '<', '>', '*', '+', '-', '/', '\\', ';', '(', ')', ',', '{', '}']

/-- A character that is no white space, no letter, no digit and no mark. -/
structure Foreign (c : Char) : Prop where
  space : c ∉ [' ', '\t', '\n', '\r']
  letter : Text.isAlphabetic c = false ∧ c ≠ '_'
  digit : ¬ ('0' ≤ c ∧ c ≤ '9')
  sign : c ∉ signs

theorem mem_signs_iff {c : Char} : c ∈ signs ↔ mark? c ≠ none ∨ joining? c ≠ none := by
  constructor
  · have hTables : (signs.all fun c => (mark? c).isSome || (joining? c).isSome) = true := by decide
    intro h
    have hTable := List.all_eq_true.1 hTables c h
    rwa [Bool.or_eq_true, Option.isSome_iff_ne_none, Option.isSome_iff_ne_none] at hTable
  · rintro (h | h)
    · unfold mark? at h
      split at h <;> first | decide | exact absurd rfl h
    · unfold joining? at h
      split at h <;> first | decide | exact absurd rfl h

theorem foreign_iff_isStray {c : Char} : Foreign c ↔ IsStray c := by
  have hSigns : c ∉ signs ↔ mark? c = none ∧ joining? c = none := by
    rw [mem_signs_iff, not_or, not_not, not_not]
  have hBlank : c ∉ [' ', '\t', '\n', '\r'] ↔ isBlank c = false := by
    simp [isBlank, and_assoc]
  have hLetter : (Text.isAlphabetic c = false ∧ c ≠ '_') ↔ isLetter c = false := by
    change _ ↔ (Text.isAlphabetic c || c = '_') = false
    simp
  have hDigit : ¬ ('0' ≤ c ∧ c ≤ '9') ↔ isDigit c = false := by
    simp [isDigit]
  rw [isStray_iff]
  constructor
  · rintro ⟨h₁, h₂, h₃, h₄⟩
    exact ⟨hBlank.1 h₁, hDigit.1 h₃, hLetter.1 h₂, hSigns.1 h₄⟩
  · rintro ⟨h₁, h₃, h₂, h₄⟩
    exact ⟨hBlank.2 h₁, hLetter.2 h₂, hDigit.2 h₃, hSigns.2 h₄⟩

/-! ## Stray tokens -/

theorem not_isStray_of_symbol {k : Kind} {c : Char}
    (hk : k ∈ markKinds ++ joiningKinds.map Prod.fst) (hSymbol : k.symbol = String.ofList [c]) :
    ¬ IsStray c :=
  fun h => h.mark k hk hSymbol

/-- Only a stray token holds a foreign character. -/
theorem Demanded.illegal_iff {t : Token} {rest : List Char} (h : Demanded t rest) :
    t.kind = .illegal ↔ ∃ c ∈ t.literal.toList, IsStray c := by
  have hKeywords : ∀ entry ∈ Kind.keywords, entry.2 ≠ .illegal := by decide
  have hMarks : ∀ k ∈ markKinds, k ≠ .illegal := by decide
  have hJoining : ∀ ks ∈ joiningKinds, ks.1 ≠ .illegal ∧ ks.2 ≠ .illegal := by decide
  -- a token of another kind holds no foreign character
  have hOther : ∀ {t : Token}, t.kind ≠ .illegal → (∀ c ∈ t.literal.toList, ¬ IsStray c) →
      (t.kind = .illegal ↔ ∃ c ∈ t.literal.toList, IsStray c) := by
    intro t hKind hNone
    refine iff_of_false hKind ?_
    rintro ⟨c, hc, hStray⟩
    exact hNone c hc hStray
  have hDigit : ∀ {c : Char}, isDigit c = true → ¬ IsStray c := by
    intro c hc hStray
    rw [hStray.digit] at hc
    cases hc
  have hLetter : ∀ {c : Char}, isLetter c = true → ¬ IsStray c := by
    intro c hc hStray
    rw [hStray.letter] at hc
    cases hc
  cases h with
  | @number digits _ _ h _ =>
      refine hOther (show Kind.int ≠ .illegal by decide) fun c hc => hDigit (h c ?_)
      rwa [ofChars, String.toList_ofList] at hc
  | @reserved word _ k _ h _ hk =>
      refine hOther (hKeywords _ hk) fun c hc => hLetter (h c ?_)
      rwa [ofChars, String.toList_ofList] at hc
  | @name word _ _ h _ _ =>
      refine hOther (show Kind.ident ≠ .illegal by decide) fun c hc => hLetter (h c ?_)
      rwa [ofChars, String.toList_ofList] at hc
  | @mark k _ hk =>
      rcases mark?_of_mem hk with ⟨d, hSymbol, -⟩
      refine hOther (hMarks k hk) fun c hc => ?_
      rw [hSymbol, String.toList_ofList, List.mem_singleton] at hc
      rw [hc]
      exact not_isStray_of_symbol (List.mem_append_left _ hk) hSymbol
  | @joined alone pair _ hk =>
      rcases joining?_of_mem hk with ⟨d, hAlone, hSymbol, -⟩
      have hMem : ∀ ks ∈ joiningKinds, ks.1 ∈ markKinds ++ joiningKinds.map Prod.fst :=
        fun ks hks => List.mem_append_right _ (List.mem_map_of_mem hks)
      have hEquals : (Kind.assign, Kind.eq) ∈ joiningKinds := by decide
      refine hOther (hJoining _ hk).2 fun c hc => ?_
      rw [hSymbol, String.toList_ofList, List.mem_cons, List.mem_singleton] at hc
      rcases hc with rfl | rfl
      · exact not_isStray_of_symbol (hMem _ hk) hAlone
      · exact not_isStray_of_symbol (hMem _ hEquals) rfl
  | @alone alone pair _ hk _ =>
      rcases joining?_of_mem hk with ⟨d, hSymbol, -, -⟩
      refine hOther (hJoining _ hk).1 fun c hc => ?_
      rw [hSymbol, String.toList_ofList, List.mem_singleton] at hc
      rw [hc]
      exact not_isStray_of_symbol (List.mem_append_right _ (List.mem_map_of_mem hk)) hSymbol
  | @stray c _ hc =>
      refine iff_of_true rfl ⟨c, ?_, hc⟩
      rw [ofChars, String.toList_ofList, List.mem_singleton]

theorem not_isStray_of_isBlank {c : Char} (h : isBlank c = true) : ¬ IsStray c := by
  intro hStray
  rw [hStray.blank] at h
  cases h

/-- A text with a foreign character has a stray token, and no other text has one. -/
theorem Segmented.exists_illegal_iff {cs : List Char} {ts : List Token} (h : Segmented cs ts) :
    (∃ t ∈ ts, t.kind = .illegal) ↔ ∃ c ∈ cs, IsStray c := by
  induction h with
  | nil hGap =>
      constructor
      · rintro ⟨t, ht, -⟩
        cases ht
      · rintro ⟨c, hc, hStray⟩
        exact absurd hStray (not_isStray_of_isBlank (hGap c hc))
  | @cons gap rest t ts hGap ht _ ih =>
      have hBlanks : ¬ ∃ c ∈ gap, IsStray c := by
        rintro ⟨c, hc, hStray⟩
        exact not_isStray_of_isBlank (hGap c hc) hStray
      simp only [List.mem_append, or_and_right, exists_or, List.exists_mem_cons_iff, hBlanks,
        false_or, ih, ht.illegal_iff]

theorem any_illegal_iff (source : String) :
    ((ofString source).any fun t => t.kind = .illegal) = true ↔
      ∃ c ∈ source.toList, Foreign c := by
  have hEof : ¬ ∃ t ∈ [eof], t.kind = .illegal := by decide
  simp only [List.any_eq_true, decide_eq_true_eq, ofString, List.mem_append, or_and_right,
    exists_or, hEof, or_false, (segmented_lexemes _).exists_illegal_iff, foreign_iff_isStray]

end Token

/-! ## Whole listings -/

theorem splitOn_listing (source : String) :
    (Cli.tokenize false source).stdout.toList.splitOn '\n' =
      ((Token.ofString source).map fun t => t.display.toList) ++ [[]] := by
  have hClean : ∀ text ∈ (Token.ofString source).map Token.display, '\n' ∉ text.toList := by
    rw [List.forall_mem_map]
    exact fun t ht => Token.newline_not_mem_display (Token.newline_not_mem_literal ht)
  have hLines := splitOn_printedLines hClean
  rw [List.map_map] at hLines
  exact hLines

theorem collect_ofString (source : String) :
    (Lexer.ofString source).collect.1 = Token.ofString source := by
  rw [Lexer.ofString, Lexer.collect_of_rest, Token.ofString]

/-- The listing of a text, cut at its line feeds and each line at its first space, gives back the
tokens that the lexer gives, with one end of input behind them, and no other ones.  So texts with
other tokens are listed otherwise.  The listing fails exactly for a foreign character. -/
theorem listing_determines_tokens (source : String) :
    ∃ exit lines,
      (∀ fuel path stdin,
        Cli.perform fuel ⟨.tokenize false, some path⟩ (.ok (bytes source)) stdin = some exit) ∧
      exit.stdout.toList.splitOn '\n' = lines ++ [[]] ∧
      (∀ ts, lines.map cutAtSpace = ts.map Token.entry ↔
        ts = (Lexer.ofString source).collect.1) ∧
      (∃ ts, (Lexer.ofString source).collect.1 = ts ++ [.eof] ∧ ∀ t ∈ ts, t.kind ≠ .eof) ∧
      (∀ source', (Cli.tokenize false source').stdout = exit.stdout →
        (Lexer.ofString source').collect.1 = (Lexer.ofString source).collect.1) ∧
      (exit.code = 65 ∧ (∃ c ∈ source.toList, Token.Foreign c) ∨
        exit.code = 0 ∧ ¬ ∃ c ∈ source.toList, Token.Foreign c) := by
  have hEntries : ∀ source : String,
      ((Token.ofString source).map fun t => t.display.toList).map cutAtSpace =
        (Token.ofString source).map Token.entry := by
    intro source
    rw [List.map_map]
    exact List.map_congr_left fun t _ => Token.cutAtSpace_display t
  have hInjective := List.map_injective_iff.2 Token.entry_injective
  refine ⟨Cli.tokenize false source, (Token.ofString source).map fun t => t.display.toList, ?_,
    splitOn_listing source, ?_, ?_, ?_, ?_⟩
  · intro fuel path stdin
    simp only [Cli.perform, Cli.sourceOf, fromUTF8?_bytes]
  · intro ts
    rw [hEntries, collect_ofString, hInjective.eq_iff, eq_comm]
  · exact ⟨Token.lexemes source.toList, collect_ofString source,
      fun t ht => ((Token.segmented_lexemes _).proper t ht).2⟩
  · intro source' hSame
    have hLines := splitOn_listing source
    rw [← hSame, splitOn_listing, List.append_left_inj] at hLines
    have hSameEntries := congrArg (List.map cutAtSpace) hLines
    rw [hEntries, hEntries] at hSameEntries
    rw [collect_ofString, collect_ofString, hInjective hSameEntries]
  · rw [← Token.any_illegal_iff, Cli.tokenize]
    cases (Token.ofString source).any fun t => t.kind = .illegal with
    | true => exact .inl ⟨rfl, rfl⟩
    | false => exact .inr ⟨rfl, Bool.false_ne_true⟩

/-- Texts that differ in their blanks only are listed alike, and so have the same tokens; and a
listing with a foreign character fails. -/
theorem listing_determines_tokens_sample :
    (Lexer.ofString "a\t(b)").collect.1 = (Lexer.ofString "a (b)").collect.1 ∧
    ∃ exit,
      (∀ fuel path stdin, Cli.perform fuel ⟨.tokenize false, some path⟩ (.ok (bytes "a.b")) stdin =
        some exit) ∧
      exit.code = 65 := by
  constructor
  · obtain ⟨exit, -, hPerform, -, -, -, hSame, -⟩ := listing_determines_tokens "a (b)"
    have hExit := hPerform 0 "" []
    simp only [Cli.perform, Cli.sourceOf, fromUTF8?_bytes, Option.some.injEq] at hExit
    refine hSame _ ?_
    rw [← hExit]
    decide +kernel
  · obtain ⟨exit, -, hPerform, -, -, -, -, hCode⟩ := listing_determines_tokens "a.b"
    have hForeign : ∃ c ∈ "a.b".toList, Token.Foreign c :=
      ⟨'.', by decide, by decide, by decide +kernel, by decide, by decide⟩
    rcases hCode with ⟨hCode, -⟩ | ⟨-, hNone⟩
    · exact ⟨exit, hPerform, hCode⟩
    · exact absurd hForeign hNone

/-- A line separator and a space without break are no blanks, so they are listed as they stand. -/
example : (Cli.tokenize false "a\u2028 \u00a0").stdout =
    "IDENT a\nILLEGAL \u2028\nILLEGAL \u00a0\nEOF \n" := by
  decide +kernel

end MonkeyLang
