import MonkeyLang.Token.Scan

/-!
# Spelling — tokens that are read from their own text

A token is spelled by its literal if the scanner reads it back from that literal and stops at a
blank behind it (`Token.Spelled`).  Marks, operators, words and numbers are; so a list of such
tokens, written with blanks between them, is read back as it was (`lexemes_spelling`).
-/

namespace MonkeyLang

/-- A word that is not reserved is a name. -/
theorem Kind.ofWord_of_not_mem {word : String} (h : word ∉ keywords.map Prod.fst) :
    ofWord word = .ident := by
  have hLookup : keywords.lookup word = none := by
    rw [List.lookup_eq_none_iff]
    intro entry hEntry
    rw [bne_iff_ne]
    rintro rfl
    exact h (List.mem_map_of_mem hEntry)
  rw [ofWord, hLookup, Option.getD_none]

namespace Token

/-! ## Letters and digits are nothing else -/

section

variable [Alphabet]

/-- A letter is in no class of characters that keeps clear of the alphabet and the underscore. -/
theorem eq_false_of_isLetter (p : Char → Bool) {c : Char} (h : isLetter c = true)
    (hp : p c = true → Alphabet.isAlphabetic c = false) (hUnderscore : p '_' = false) :
    p c = false := by
  cases hc : p c with
  | false => rfl
  | true =>
      have hne : c ≠ '_' := by
        rintro rfl
        rw [hUnderscore] at hc
        cases hc
      simp [isLetter, hp hc, hne] at h

theorem isBlank_of_isLetter {c : Char} (h : isLetter c = true) : isBlank c = false :=
  eq_false_of_isLetter isBlank h Alphabet.blank (by decide)

theorem isDigit_of_isLetter {c : Char} (h : isLetter c = true) : isDigit c = false :=
  eq_false_of_isLetter isDigit h Alphabet.digit (by decide)

theorem mark?_of_isLetter {c : Char} (h : isLetter c = true) : mark? c = none :=
  Option.isNone_iff_eq_none.1 (by
    simpa using eq_false_of_isLetter (fun d => (mark? d).isSome) h Alphabet.mark (by decide))

theorem joining?_of_isLetter {c : Char} (h : isLetter c = true) : joining? c = none :=
  Option.isNone_iff_eq_none.1 (by
    simpa using eq_false_of_isLetter (fun d => (joining? d).isSome) h Alphabet.joining (by decide))

end

/-- A character of a class that no blank belongs to is no blank. -/
theorem isBlank_eq_false (p : Char → Bool) {c : Char} (hc : p c = true)
    (hp : [' ', '\t', '\n', '\r'].all (fun b => !p b) = true) : isBlank c = false := by
  cases hBlank : isBlank c with
  | false => rfl
  | true =>
      have hMem : c ∈ [' ', '\t', '\n', '\r'] := by
        simpa [isBlank, or_assoc] using hBlank
      have hNot : (!p c) = true := List.all_eq_true.1 hp c hMem
      rw [hc] at hNot
      cases hNot

theorem isBlank_of_isDigit {c : Char} (h : isDigit c = true) : isBlank c = false :=
  isBlank_eq_false isDigit h (by decide)

theorem mark?_of_isDigit {c : Char} (h : isDigit c = true) : mark? c = none := by
  unfold mark?
  split <;> first | rfl | exact absurd h (by decide)

theorem joining?_of_isDigit {c : Char} (h : isDigit c = true) : joining? c = none := by
  unfold joining?
  split <;> first | rfl | exact absurd h (by decide)

/-! ## Tokens before a blank -/

/-- The scanner reads the token from its literal and stops at the blank behind it. -/
def Spelled (t : Token) : Prop :=
  ∀ rest, next? (t.literal.toList ++ ' ' :: rest) = some (t, ' ' :: rest)

theorem next?_of_not_isBlank [Alphabet] {c : Char} (h : isBlank c = false) (cs : List Char) :
    next? (c :: cs) = some (cut c cs) := by
  simp [next?, h]

/-- The run of characters of a class is not continued by what stands behind it. -/
def EndsRun (p : Char → Bool) (rest : List Char) : Prop :=
  ∀ c ∈ rest.head?, p c = false

theorem takeWhile_run {p : Char → Bool} {cs rest : List Char} (hcs : ∀ c ∈ cs, p c = true)
    (hEnd : EndsRun p rest) :
    (cs ++ rest).takeWhile p = cs ∧ (cs ++ rest).dropWhile p = rest := by
  rw [List.takeWhile_append_of_pos hcs, List.dropWhile_append_of_pos hcs]
  cases rest with
  | nil => exact ⟨List.append_nil cs, rfl⟩
  | cons c rest =>
      have hc : p c = false := hEnd c rfl
      simp [hc]

theorem endsRun_cons {p : Char → Bool} {c : Char} (hc : p c = false) (rest : List Char) :
    EndsRun p (c :: rest) := by
  intro d hd
  rw [← Option.some.inj hd]
  exact hc

/-- A run of letters is cut off as one word. -/
theorem cut_word [Alphabet] {c : Char} {cs rest : List Char} (hc : isLetter c = true)
    (hcs : ∀ d ∈ cs, isLetter d = true) (hEnd : EndsRun isLetter rest) :
    cut c (cs ++ rest) = (ofWord (c :: cs), rest) := by
  have hRun := takeWhile_run hcs hEnd
  simp [cut, mark?_of_isLetter hc, joining?_of_isLetter hc, isDigit_of_isLetter hc, hc, hRun]

/-- A run of digits is cut off as one number. -/
theorem cut_number [Alphabet] {c : Char} {cs rest : List Char} (hc : isDigit c = true)
    (hcs : ∀ d ∈ cs, isDigit d = true) (hEnd : EndsRun isDigit rest) :
    cut c (cs ++ rest) = (ofChars .int (c :: cs), rest) := by
  have hRun := takeWhile_run hcs hEnd
  simp [cut, mark?_of_isDigit hc, joining?_of_isDigit hc, hc, hRun]

theorem spelled_word {c : Char} {cs : List Char} (hc : isLetter c = true)
    (hcs : ∀ d ∈ cs, isLetter d = true) : Spelled (ofWord (c :: cs)) := by
  intro rest
  have hCut := cut_word hc hcs (endsRun_cons (c := ' ') (by decide) rest)
  have hText : (ofWord (c :: cs)).literal.toList = c :: cs := String.toList_ofList
  rw [hText, List.cons_append, next?_of_not_isBlank (isBlank_of_isLetter hc), hCut]

theorem spelled_number {c : Char} {cs : List Char} (hc : isDigit c = true)
    (hcs : ∀ d ∈ cs, isDigit d = true) : Spelled (ofChars .int (c :: cs)) := by
  intro rest
  have hCut := cut_number hc hcs (endsRun_cons (c := ' ') (by decide) rest)
  have hText : (ofChars .int (c :: cs)).literal.toList = c :: cs := String.toList_ofList
  rw [hText, List.cons_append, next?_of_not_isBlank (isBlank_of_isDigit hc), hCut]

theorem isBlank_of_mark? {c : Char} {k : Kind} (h : mark? c = some k) : isBlank c = false :=
  isBlank_eq_false (fun d => (mark? d).isSome) (by simp [h]) (by decide)

theorem spelled_mark {c : Char} {k : Kind} (h : mark? c = some k) : Spelled (ofChars k [c]) := by
  intro rest
  have hText : (ofChars k [c]).literal.toList = [c] := String.toList_ofList
  rw [hText, List.singleton_append, next?_of_not_isBlank (isBlank_of_mark? h), cut, h]

theorem mark?_of_joining? {c : Char} {ks : Kind × Kind} (h : joining? c = some ks) :
    mark? c = none := by
  unfold joining? at h
  split at h <;> first | rfl | cases h

theorem isBlank_of_joining? {c : Char} {ks : Kind × Kind} (h : joining? c = some ks) :
    isBlank c = false :=
  isBlank_eq_false (fun d => (joining? d).isSome) (by simp [h]) (by decide)

theorem spelled_alone {c : Char} {k k' : Kind} (h : joining? c = some (k, k')) :
    Spelled (ofChars k [c]) := by
  intro rest
  have hText : (ofChars k [c]).literal.toList = [c] := String.toList_ofList
  rw [hText, List.singleton_append, next?_of_not_isBlank (isBlank_of_joining? h), cut,
    mark?_of_joining? h, h]
  rfl

theorem spelled_joined {c : Char} {k k' : Kind} (h : joining? c = some (k, k')) :
    Spelled (ofChars k' [c, '=']) := by
  intro rest
  have hText : (ofChars k' [c, '=']).literal.toList = [c, '='] := String.toList_ofList
  rw [hText, List.cons_append, List.singleton_append,
    next?_of_not_isBlank (isBlank_of_joining? h), cut, mark?_of_joining? h, h]
  rfl

theorem exists_spelled_word (c : Char) (cs : List Char) {k : Kind}
    (hLetters : (c :: cs).all isLetter = true) (hk : (ofWord (c :: cs)).kind = k) :
    ∃ t : Token, t.kind = k ∧ t.Spelled := by
  have hAll : isLetter c = true ∧ ∀ d ∈ cs, isLetter d = true :=
    List.forall_mem_cons.1 (List.all_eq_true.1 hLetters)
  exact ⟨ofWord (c :: cs), hk, spelled_word hAll.1 hAll.2⟩

/-- Of every kind that source text can have there is a token spelled by its literal. -/
theorem exists_spelled {k : Kind} (hIllegal : k ≠ .illegal) (hEof : k ≠ .eof) :
    ∃ t : Token, t.kind = k ∧ t.Spelled := by
  cases k with
  | illegal => exact absurd rfl hIllegal
  | eof => exact absurd rfl hEof
  | int => exact ⟨ofChars .int ['0'], rfl, spelled_number rfl (by simp)⟩
  | ident => exact exists_spelled_word 'x' [] (by decide) (by decide)
  | comma => exact ⟨_, rfl, spelled_mark (c := ',') rfl⟩
  | semicolon => exact ⟨_, rfl, spelled_mark (c := ';') rfl⟩
  | lparen => exact ⟨_, rfl, spelled_mark (c := '(') rfl⟩
  | rparen => exact ⟨_, rfl, spelled_mark (c := ')') rfl⟩
  | lbrace => exact ⟨_, rfl, spelled_mark (c := '{') rfl⟩
  | rbrace => exact ⟨_, rfl, spelled_mark (c := '}') rfl⟩
  | assign => exact ⟨_, rfl, spelled_alone (c := '=') rfl⟩
  | plus => exact ⟨_, rfl, spelled_mark (c := '+') rfl⟩
  | minus => exact ⟨_, rfl, spelled_mark (c := '-') rfl⟩
  | bang => exact ⟨_, rfl, spelled_alone (c := '!') rfl⟩
  | asterisk => exact ⟨_, rfl, spelled_mark (c := '*') rfl⟩
  | slash => exact ⟨_, rfl, spelled_mark (c := '/') rfl⟩
  | backslash => exact ⟨_, rfl, spelled_mark (c := '\\') rfl⟩
  | eq => exact ⟨_, rfl, spelled_joined (c := '=') rfl⟩
  | notEq => exact ⟨_, rfl, spelled_joined (c := '!') rfl⟩
  | lt => exact ⟨_, rfl, spelled_alone (c := '<') rfl⟩
  | gt => exact ⟨_, rfl, spelled_alone (c := '>') rfl⟩
  | ltEq => exact ⟨_, rfl, spelled_joined (c := '<') rfl⟩
  | gtEq => exact ⟨_, rfl, spelled_joined (c := '>') rfl⟩
  | fnWord => exact exists_spelled_word 'f' ['n'] (by decide) (by decide)
  | letWord => exact exists_spelled_word 'l' ['e', 't'] (by decide) (by decide)
  | returnWord => exact exists_spelled_word 'r' ['e', 't', 'u', 'r', 'n'] (by decide) (by decide)
  | trueWord => exact exists_spelled_word 't' ['r', 'u', 'e'] (by decide) (by decide)
  | falseWord => exact exists_spelled_word 'f' ['a', 'l', 's', 'e'] (by decide) (by decide)
  | ifWord => exact exists_spelled_word 'i' ['f'] (by decide) (by decide)
  | elseWord => exact exists_spelled_word 'e' ['l', 's', 'e'] (by decide) (by decide)

/-! ## Lists of tokens -/

/-- The literals of tokens, each with a blank behind it. -/
def spelling (ts : List Token) : List Char :=
  ts.flatMap fun t => t.literal.toList ++ [' ']

theorem lexemes_of_next?_eq_none [Alphabet] {cs : List Char} (h : next? cs = none) : lexemes cs = [] := by
  rw [lexemes]
  split
  · rfl
  · next t rest hSome =>
      rw [h] at hSome
      cases hSome

theorem lexemes_of_next? [Alphabet] {cs rest : List Char} {t : Token} (h : next? cs = some (t, rest)) :
    lexemes cs = t :: lexemes rest := by
  rw [lexemes]
  split
  · next hNone =>
      rw [h] at hNone
      cases hNone
  · next u us hSome =>
      rw [h] at hSome
      cases hSome
      rfl

theorem lexemes_blank (cs : List Char) : lexemes (' ' :: cs) = lexemes cs := by
  have hSkip : next? (' ' :: cs) = next? cs := by
    simp [next?, isBlank]
  cases hNext : next? cs with
  | none =>
      rw [lexemes_of_next?_eq_none (hSkip.trans hNext), lexemes_of_next?_eq_none hNext]
  | some r =>
      rw [lexemes_of_next? (hSkip.trans hNext), lexemes_of_next? hNext]

/-- Tokens that are written with blanks between them are read back. -/
theorem lexemes_spelling {ts : List Token} (h : ∀ t ∈ ts, t.Spelled) :
    lexemes (spelling ts) = ts := by
  induction ts with
  | nil =>
      rw [lexemes]
      rfl
  | cons t ts ih =>
      have hText : spelling (t :: ts) = t.literal.toList ++ ' ' :: spelling ts := by
        simp [spelling]
      have hHead : next? (spelling (t :: ts)) = some (t, ' ' :: spelling ts) := by
        rw [hText]
        exact h t (List.mem_cons_self ..) _
      rw [lexemes_of_next? hHead, lexemes_blank, ih fun u hu => h u (List.mem_cons_of_mem t hu)]

end Token
end MonkeyLang
