import MonkeyLang.Proofs.Token.Spelling
import MonkeyLang.Token.Lexer

/-!
# Segmentation — a text is its tokens and the blanks between them

What a piece of text is as a token is said without the scanner (`Token.Demanded`): by the piece
itself, and for runs and for the marks that may be joined with an equals sign by the character
behind it.  A segmentation of a text writes it as pieces of this kind with blanks around them.
Every text has exactly one segmentation, and it is what the scanner gives (`segmented_iff`).

Nothing is used of the letters but that no blank, no digit and no mark is one of them.
-/

namespace MonkeyLang
namespace Token

/-! ## The tables of marks -/

/-- The kinds of marks that are tokens whatever stands behind them. -/
def markKinds : List Kind :=
  [.asterisk, .plus, .minus, .slash, .backslash, .semicolon, .lparen, .rparen, .comma, .lbrace,
    .rbrace]

/-- The kinds of marks that may be joined with an equals sign, and the kinds of the pairs. -/
def joiningKinds : List (Kind × Kind) :=
  [(.assign, .eq), (.bang, .notEq), (.lt, .ltEq), (.gt, .gtEq)]

theorem mark?_eq_some {c : Char} {k : Kind} (h : mark? c = some k) :
    k ∈ markKinds ∧ k.symbol = String.ofList [c] := by
  unfold mark? at h
  split at h <;> cases h <;> exact ⟨by decide, rfl⟩

theorem mark?_of_mem {k : Kind} (hk : k ∈ markKinds) :
    ∃ c, k.symbol = String.ofList [c] ∧ mark? c = some k := by
  simp only [markKinds, List.mem_cons, List.not_mem_nil, or_false] at hk
  rcases hk with rfl | rfl | rfl | rfl | rfl | rfl | rfl | rfl | rfl | rfl | rfl
  · exact ⟨'*', rfl, rfl⟩
  · exact ⟨'+', rfl, rfl⟩
  · exact ⟨'-', rfl, rfl⟩
  · exact ⟨'/', rfl, rfl⟩
  · exact ⟨'\\', rfl, rfl⟩
  · exact ⟨';', rfl, rfl⟩
  · exact ⟨'(', rfl, rfl⟩
  · exact ⟨')', rfl, rfl⟩
  · exact ⟨',', rfl, rfl⟩
  · exact ⟨'{', rfl, rfl⟩
  · exact ⟨'}', rfl, rfl⟩

theorem joining?_eq_some {c : Char} {alone pair : Kind} (h : joining? c = some (alone, pair)) :
    (alone, pair) ∈ joiningKinds ∧ alone.symbol = String.ofList [c] ∧
      pair.symbol = String.ofList [c, '='] := by
  unfold joining? at h
  split at h <;> cases h <;> exact ⟨by decide, rfl, rfl⟩

theorem joining?_of_mem {ks : Kind × Kind} (hks : ks ∈ joiningKinds) :
    ∃ c, ks.1.symbol = String.ofList [c] ∧ ks.2.symbol = String.ofList [c, '='] ∧
      joining? c = some ks := by
  simp only [joiningKinds, List.mem_cons, List.not_mem_nil, or_false] at hks
  rcases hks with rfl | rfl | rfl | rfl
  · exact ⟨'=', rfl, rfl, rfl⟩
  · exact ⟨'!', rfl, rfl, rfl⟩
  · exact ⟨'<', rfl, rfl, rfl⟩
  · exact ⟨'>', rfl, rfl, rfl⟩

theorem ofList_singleton_inj {c d : Char} (h : String.ofList [c] = String.ofList [d]) : c = d :=
  List.singleton_inj.1 (String.ofList_injective h)

theorem ofList_cons_ne (c : Char) (cs : List Char) : String.ofList (c :: cs) ≠ "" := by
  simp

/-! ## Words and runs -/

theorem ofWord_eq_of_mem {word : String} {k : Kind} (h : (word, k) ∈ Kind.keywords) :
    Kind.ofWord word = k := by
  simp only [Kind.keywords, List.mem_cons, Prod.mk.injEq, List.not_mem_nil, or_false] at h
  rcases h with ⟨rfl, rfl⟩ | ⟨rfl, rfl⟩ | ⟨rfl, rfl⟩ | ⟨rfl, rfl⟩ | ⟨rfl, rfl⟩ | ⟨rfl, rfl⟩ |
    ⟨rfl, rfl⟩ <;> decide

theorem endsRun_dropWhile (p : Char → Bool) (cs : List Char) : EndsRun p (cs.dropWhile p) := by
  intro c hc
  have hHead := List.head?_dropWhile_not p cs
  rw [Option.mem_def.1 hc] at hHead
  exact hHead

theorem mem_run {p : Char → Bool} {c : Char} (hc : p c = true) (cs : List Char) :
    ∀ d ∈ c :: cs.takeWhile p, p d = true :=
  List.forall_mem_cons.2 ⟨hc, List.all_eq_true.1 List.all_takeWhile⟩

section

variable [Alphabet]

/-! ## Pieces of text -/

/-- A character that is neither between tokens nor part of a token of any other kind. -/
structure IsStray (c : Char) : Prop where
  blank : isBlank c = false
  digit : isDigit c = false
  letter : isLetter c = false
  mark : ∀ k ∈ markKinds ++ joiningKinds.map Prod.fst, k.symbol ≠ String.ofList [c]

/-- The token that its own text demands, where `rest` stands behind it. -/
inductive Demanded : Token → List Char → Prop
  | number {digits rest : List Char} (hne : digits ≠ []) (h : ∀ c ∈ digits, isDigit c = true)
      (hEnd : EndsRun isDigit rest) : Demanded (ofChars .int digits) rest
  | reserved {word rest : List Char} {k : Kind} (hne : word ≠ [])
      (h : ∀ c ∈ word, isLetter c = true) (hEnd : EndsRun isLetter rest)
      (hk : (String.ofList word, k) ∈ Kind.keywords) : Demanded (ofChars k word) rest
  | name {word rest : List Char} (hne : word ≠ []) (h : ∀ c ∈ word, isLetter c = true)
      (hEnd : EndsRun isLetter rest) (hk : String.ofList word ∉ Kind.keywords.map Prod.fst) :
      Demanded (ofChars .ident word) rest
  | mark {k : Kind} {rest : List Char} (hk : k ∈ markKinds) : Demanded ⟨k, k.symbol⟩ rest
  | joined {alone pair : Kind} {rest : List Char} (hk : (alone, pair) ∈ joiningKinds) :
      Demanded ⟨pair, pair.symbol⟩ rest
  | alone {alone pair : Kind} {rest : List Char} (hk : (alone, pair) ∈ joiningKinds)
      (hEnd : rest.head? ≠ some '=') : Demanded ⟨alone, alone.symbol⟩ rest
  | stray {c : Char} {rest : List Char} (hc : IsStray c) : Demanded (ofChars .illegal [c]) rest

/-- The text consists of the literals of the tokens in order, each of which is demanded where it
stands, and of blanks in front of, between and behind them. -/
inductive Segmented : List Char → List Token → Prop
  | nil {gap : List Char} (hGap : ∀ c ∈ gap, isBlank c = true) : Segmented gap []
  | cons {gap rest : List Char} {t : Token} {ts : List Token} (hGap : ∀ c ∈ gap, isBlank c = true)
      (ht : Demanded t rest) (hRest : Segmented rest ts) :
      Segmented (gap ++ (t.literal.toList ++ rest)) (t :: ts)

/-! ## Stray characters -/

/-- A character is stray exactly if it starts no token of another kind. -/
theorem isStray_iff {c : Char} :
    IsStray c ↔ isBlank c = false ∧ isDigit c = false ∧ isLetter c = false ∧ mark? c = none ∧
      joining? c = none := by
  constructor
  · intro h
    refine ⟨h.blank, h.digit, h.letter, ?_, ?_⟩
    · cases hMark : mark? c with
      | none => rfl
      | some k =>
          have hKind := mark?_eq_some hMark
          exact absurd hKind.2 (h.mark k (List.mem_append_left _ hKind.1))
    · cases hJoining : joining? c with
      | none => rfl
      | some ks =>
          have hKinds := joining?_eq_some hJoining
          have hMem : ks.1 ∈ joiningKinds.map Prod.fst := List.mem_map_of_mem hKinds.1
          exact absurd hKinds.2.1 (h.mark ks.1 (List.mem_append_right _ hMem))
  · rintro ⟨hBlank, hDigit, hLetter, hMark, hJoining⟩
    refine ⟨hBlank, hDigit, hLetter, fun k hk hSymbol => ?_⟩
    -- the symbol of a kind of either table is that of one character only
    rcases List.mem_append.1 hk with hk | hk
    · rcases mark?_of_mem hk with ⟨d, hOther, hd⟩
      rw [ofList_singleton_inj (hSymbol.symm.trans hOther), hd] at hMark
      cases hMark
    · rcases List.mem_map.1 hk with ⟨ks, hks, rfl⟩
      rcases joining?_of_mem hks with ⟨d, hOther, -, hd⟩
      rw [ofList_singleton_inj (hSymbol.symm.trans hOther), hd] at hJoining
      cases hJoining

/-! ## Words -/

theorem demanded_word {word rest : List Char} (hne : word ≠ [])
    (h : ∀ c ∈ word, isLetter c = true) (hEnd : EndsRun isLetter rest) :
    Demanded (ofWord word) rest := by
  by_cases hk : String.ofList word ∈ Kind.keywords.map Prod.fst
  · rcases List.mem_map.1 hk with ⟨⟨_, k⟩, hMem, rfl⟩
    have hKind : Kind.ofWord (String.ofList word) = k := ofWord_eq_of_mem hMem
    have hWord : ofWord word = ofChars k word := by
      rw [ofWord, hKind, ofChars]
    rw [hWord]
    exact .reserved hne h hEnd hMem
  · have hWord : ofWord word = ofChars .ident word := by
      rw [ofWord, Kind.ofWord_of_not_mem hk, ofChars]
    rw [hWord]
    exact .name hne h hEnd hk

/-! ## One token -/

/-- What is cut off a text is demanded in front of what is left of it, and nothing is lost. -/
theorem demanded_cut {c : Char} (hBlank : isBlank c = false) (cs : List Char) :
    Demanded (cut c cs).1 (cut c cs).2 ∧
      (cut c cs).1.literal.toList ++ (cut c cs).2 = c :: cs := by
  unfold cut
  split
  · next k hMark =>
      have hKind := mark?_eq_some hMark
      have hToken : ofChars k [c] = ⟨k, k.symbol⟩ := by rw [ofChars, hKind.2]
      refine ⟨?_, by simp [ofChars]⟩
      rw [hToken]
      exact .mark hKind.1
  · next alone pair hMark hJoining =>
      have hKinds := joining?_eq_some hJoining
      have hPair : ofChars pair [c, '='] = ⟨pair, pair.symbol⟩ := by rw [ofChars, hKinds.2.2]
      have hAlone : ofChars alone [c] = ⟨alone, alone.symbol⟩ := by rw [ofChars, hKinds.2.1]
      split
      · next rest =>
          refine ⟨?_, by simp [ofChars]⟩
          rw [hPair]
          exact .joined hKinds.1
      · next hNot =>
          refine ⟨?_, by simp [ofChars]⟩
          rw [hAlone]
          refine .alone hKinds.1 fun hHead => ?_
          cases cs with
          | nil => cases hHead
          | cons d ds =>
              cases hHead
              exact hNot ds rfl
  · next hMark hJoining =>
      by_cases hDigit : isDigit c = true
      · rw [if_pos hDigit]
        refine ⟨.number (List.cons_ne_nil _ _) (mem_run hDigit cs) (endsRun_dropWhile _ cs), ?_⟩
        simp [ofChars]
      · rw [if_neg hDigit]
        by_cases hLetter : isLetter c = true
        · rw [if_pos hLetter]
          have hWord := demanded_word (List.cons_ne_nil _ _) (mem_run hLetter cs)
            (endsRun_dropWhile _ cs)
          exact ⟨hWord, by simp [ofWord]⟩
        · rw [if_neg hLetter]
          have hStray : IsStray c :=
            isStray_iff.2 ⟨hBlank, by simpa using hDigit, by simpa using hLetter, hMark, hJoining⟩
          exact ⟨.stray hStray, by simp [ofChars]⟩

/-- A token that is demanded is cut off. -/
theorem cut_of_demanded {t : Token} {rest : List Char} (h : Demanded t rest) :
    ∃ c cs, t.literal.toList ++ rest = c :: cs ∧ isBlank c = false ∧ cut c cs = (t, rest) := by
  cases h with
  | @number digits rest hne h hEnd =>
      cases digits with
      | nil => exact absurd rfl hne
      | cons c cs =>
          have hDigits := List.forall_mem_cons.1 h
          refine ⟨c, cs ++ rest, by simp [ofChars], isBlank_of_isDigit hDigits.1, ?_⟩
          exact cut_number hDigits.1 hDigits.2 hEnd
  | @reserved word rest k hne h hEnd hk =>
      cases word with
      | nil => exact absurd rfl hne
      | cons c cs =>
          have hLetters := List.forall_mem_cons.1 h
          have hWord : ofWord (c :: cs) = ofChars k (c :: cs) := by
            rw [ofWord, ofWord_eq_of_mem hk, ofChars]
          refine ⟨c, cs ++ rest, by simp [ofChars], isBlank_of_isLetter hLetters.1, ?_⟩
          rw [← hWord]
          exact cut_word hLetters.1 hLetters.2 hEnd
  | @name word rest hne h hEnd hk =>
      cases word with
      | nil => exact absurd rfl hne
      | cons c cs =>
          have hLetters := List.forall_mem_cons.1 h
          have hWord : ofWord (c :: cs) = ofChars .ident (c :: cs) := by
            rw [ofWord, Kind.ofWord_of_not_mem hk, ofChars]
          refine ⟨c, cs ++ rest, by simp [ofChars], isBlank_of_isLetter hLetters.1, ?_⟩
          rw [← hWord]
          exact cut_word hLetters.1 hLetters.2 hEnd
  | @mark k rest hk =>
      rcases mark?_of_mem hk with ⟨c, hSymbol, hMark⟩
      refine ⟨c, rest, by simp [hSymbol], isBlank_of_mark? hMark, ?_⟩
      simp [cut, hMark, ofChars, hSymbol]
  | @joined alone pair rest hk =>
      rcases joining?_of_mem hk with ⟨c, -, hSymbol, hJoining⟩
      refine ⟨c, '=' :: rest, by simp [hSymbol], isBlank_of_joining? hJoining, ?_⟩
      simp [cut, mark?_of_joining? hJoining, hJoining, ofChars, hSymbol]
  | @alone alone pair rest hk hEnd =>
      rcases joining?_of_mem hk with ⟨c, hSymbol, -, hJoining⟩
      refine ⟨c, rest, by simp [hSymbol], isBlank_of_joining? hJoining, ?_⟩
      have hToken : ofChars alone [c] = ⟨alone, alone.symbol⟩ := by rw [ofChars, hSymbol]
      simp only [cut, mark?_of_joining? hJoining, hJoining, hToken]
      split
      · exact absurd rfl hEnd
      · rfl
  | @stray c rest hc =>
      rcases isStray_iff.1 hc with ⟨hBlank, hDigit, hLetter, hMark, hJoining⟩
      refine ⟨c, rest, by simp [ofChars], hBlank, ?_⟩
      simp [cut, hMark, hJoining, hDigit, hLetter]

/-- A demanded token is a piece of the text, and never the end of it. -/
theorem Demanded.proper {t : Token} {rest : List Char} (h : Demanded t rest) :
    t.literal ≠ "" ∧ t.kind ≠ .eof := by
  have hMarks : ∀ k ∈ markKinds, k ≠ .eof := by decide
  have hJoining : ∀ ks ∈ joiningKinds, ks.1 ≠ .eof ∧ ks.2 ≠ .eof := by decide
  have hKeywords : ∀ entry ∈ Kind.keywords, entry.2 ≠ .eof := by decide
  cases h with
  | number hne => exact ⟨by simpa [ofChars] using hne, nofun⟩
  | reserved hne h hEnd hk => exact ⟨by simpa [ofChars] using hne, hKeywords _ hk⟩
  | name hne => exact ⟨by simpa [ofChars] using hne, nofun⟩
  | @mark k rest hk =>
      rcases mark?_of_mem hk with ⟨c, hSymbol, -⟩
      exact ⟨hSymbol ▸ ofList_cons_ne c [], hMarks k hk⟩
  | joined hk =>
      rcases joining?_of_mem hk with ⟨c, -, hSymbol, -⟩
      exact ⟨hSymbol ▸ ofList_cons_ne c ['='], (hJoining _ hk).2⟩
  | alone hk =>
      rcases joining?_of_mem hk with ⟨c, hSymbol, -, -⟩
      exact ⟨hSymbol ▸ ofList_cons_ne c [], (hJoining _ hk).1⟩
  | stray => exact ⟨ofList_cons_ne _ _, nofun⟩

/-! ## The whole text -/

/-- Blanks in front of a text are skipped. -/
theorem next?_append {gap : List Char} (hGap : ∀ c ∈ gap, isBlank c = true) (cs : List Char) :
    next? (gap ++ cs) = next? cs := by
  induction gap with
  | nil => rfl
  | cons c gap ih =>
      have hBlanks := List.forall_mem_cons.1 hGap
      rw [List.cons_append, next?, if_pos hBlanks.1, ih hBlanks.2]

/-- What stands in front of the first token, and the token as it is demanded. -/
theorem demanded_of_next? {cs rest : List Char} {t : Token} (h : next? cs = some (t, rest)) :
    ∃ gap, (∀ c ∈ gap, isBlank c = true) ∧ cs = gap ++ (t.literal.toList ++ rest) ∧
      Demanded t rest := by
  induction cs with
  | nil => cases h
  | cons c cs ih =>
      by_cases hBlank : isBlank c = true
      · rw [next?, if_pos hBlank] at h
        rcases ih h with ⟨gap, hGap, rfl, ht⟩
        exact ⟨c :: gap, List.forall_mem_cons.2 ⟨hBlank, hGap⟩, rfl, ht⟩
      · rw [next?, if_neg hBlank] at h
        have hCut := demanded_cut (by simpa using hBlank) cs
        rw [Option.some.inj h] at hCut
        exact ⟨[], List.forall_mem_nil _, hCut.2.symm, hCut.1⟩

theorem isBlank_of_next?_eq_none {cs : List Char} (h : next? cs = none) :
    ∀ c ∈ cs, isBlank c = true := by
  induction cs with
  | nil => exact List.forall_mem_nil _
  | cons c cs ih =>
      by_cases hBlank : isBlank c = true
      · rw [next?, if_pos hBlank] at h
        exact List.forall_mem_cons.2 ⟨hBlank, ih h⟩
      · rw [next?, if_neg hBlank] at h
        cases h

/-- The scanner finds a segmentation. -/
theorem segmented_lexemes (cs : List Char) : Segmented cs (lexemes cs) := by
  induction cs using lexemes.induct with
  | case1 cs h =>
      rw [lexemes_of_next?_eq_none h]
      exact .nil (isBlank_of_next?_eq_none h)
  | case2 cs t rest h ih =>
      rcases demanded_of_next? h with ⟨gap, hGap, hText, ht⟩
      rw [lexemes_of_next? h, hText]
      exact .cons hGap ht ih

/-- The scanner finds every segmentation, so there is no other one. -/
theorem lexemes_of_segmented {cs : List Char} {ts : List Token} (h : Segmented cs ts) :
    lexemes cs = ts := by
  induction h with
  | @nil gap hGap =>
      have hNone : next? gap = none := by
        have hSkip := next?_append hGap []
        rwa [List.append_nil] at hSkip
      exact lexemes_of_next?_eq_none hNone
  | @cons gap rest t ts hGap ht hRest ih =>
      rcases cut_of_demanded ht with ⟨c, cs, hText, hBlank, hCut⟩
      have hNext : next? (gap ++ (t.literal.toList ++ rest)) = some (t, rest) := by
        rw [next?_append hGap, hText, next?_of_not_isBlank hBlank, hCut]
      rw [lexemes_of_next? hNext, ih]

/-- The tokens of a text are its only segmentation. -/
theorem segmented_iff {cs : List Char} {ts : List Token} : Segmented cs ts ↔ lexemes cs = ts := by
  constructor
  · exact lexemes_of_segmented
  · rintro rfl
    exact segmented_lexemes cs

/-- Blanks in front of a text are in front of its first token. -/
theorem Segmented.blanks {gap rest : List Char} {us : List Token} (h : Segmented rest us)
    (hGap : ∀ c ∈ gap, isBlank c = true) : Segmented (gap ++ rest) us := by
  cases h with
  | nil hRest => exact .nil (List.forall_mem_append.2 ⟨hGap, hRest⟩)
  | cons hMore ht hRest =>
      rw [← List.append_assoc]
      exact .cons (List.forall_mem_append.2 ⟨hGap, hMore⟩) ht hRest

theorem Segmented.proper {cs : List Char} {ts : List Token} (h : Segmented cs ts) :
    ∀ t ∈ ts, t.literal ≠ "" ∧ t.kind ≠ .eof := by
  induction h with
  | nil => exact List.forall_mem_nil _
  | cons _ ht _ ih => exact List.forall_mem_cons.2 ⟨ht.proper, ih⟩

end

end Token

/-! ## Asking a lexer -/

section

variable [Token.Alphabet]

theorem Lexer.finished_nextToken (l : Lexer) : l.nextToken.2.finished = l.finished := by
  rw [nextToken]
  cases Token.next? l.rest <;> rfl

theorem Lexer.next?_of_finished {l : Lexer} (h : l.finished = true) : l.next? = (none, l) := by
  rw [next?, if_pos h]

/-- Before it has given the end of input, `next?` does what `nextToken` does, and takes note of an
end of input. -/
theorem Lexer.next?_of_not_finished {l : Lexer} (h : l.finished = false) :
    l.next? = (some l.nextToken.1, ⟨l.nextToken.2.rest, l.nextToken.1.kind = .eof⟩) := by
  rw [next?, if_neg (by simp [h]), nextToken]
  cases hNext : Token.next? l.rest with
  | none => rfl
  | some r =>
      rcases Token.demanded_of_next? hNext with ⟨_, -, -, ht⟩
      simp [h, ht.proper.2]

theorem Lexer.collect_of_none {l l' : Lexer} (h : l.next? = (none, l')) :
    l.collect = ([], l') := by
  rw [Lexer.collect]
  split
  · next hNext =>
      rw [h] at hNext
      cases hNext
      rfl
  · next hNext =>
      rw [h] at hNext
      cases hNext

theorem Lexer.collect_of_some {l l' : Lexer} {t : Token} (h : l.next? = (some t, l')) :
    l.collect = (t :: l'.collect.1, l'.collect.2) := by
  rw [Lexer.collect]
  split
  · next hNext =>
      rw [h] at hNext
      cases hNext
  · next hNext =>
      rw [h] at hNext
      cases hNext
      rfl

/-- A lexer that is asked until it has nothing more to give ends, with the tokens of the text left
and the end of input behind them. -/
theorem Lexer.collect_of_rest (cs : List Char) :
    Lexer.collect ⟨cs, false⟩ = (Token.lexemes cs ++ [.eof], ⟨[], true⟩) := by
  induction cs using Token.lexemes.induct with
  | case1 cs h =>
      have hEnd : Lexer.next? ⟨cs, false⟩ = (some .eof, ⟨[], true⟩) := by
        simp [Lexer.next?, h]
      have hNothing : Lexer.next? ⟨[], true⟩ = (none, ⟨[], true⟩) := rfl
      rw [Token.lexemes_of_next?_eq_none h, Lexer.collect_of_some hEnd,
        Lexer.collect_of_none hNothing]
      rfl
  | case2 cs t rest h ih =>
      have hNext : Lexer.next? ⟨cs, false⟩ = (some t, ⟨rest, false⟩) := by
        simp [Lexer.next?, h]
      rw [Token.lexemes_of_next? h, Lexer.collect_of_some hNext, ih]
      rfl

end

/-- Characters of several bytes, marks that may be joined, and a character that starts no token. -/
example : Token.lexemes "été<==!\x00 07x".toList =
    [⟨.ident, "été"⟩, ⟨.ltEq, "<="⟩, ⟨.assign, "="⟩, ⟨.bang, "!"⟩, ⟨.illegal, "\x00"⟩,
      ⟨.int, "07"⟩, ⟨.ident, "x"⟩] := by
  decide +kernel

end MonkeyLang
