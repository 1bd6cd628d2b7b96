import Mathlib.Data.List.TakeWhile
import MonkeyLang.Proofs.Text.Places
import MonkeyLang.Proofs.Token.Segmentation
import MonkeyLang.Token.ByteScanner

/-!
# Boundary — a byte scanner stops between two characters

A byte scanner takes single bytes of a text, but wherever it stops it stands behind a whole
character.  So it never breaks down, and it gives what a lexer gives that goes through the
characters (`ByteScanner.nextToken_of_follows`, `ByteScanner.next?_of_follows`).

Only words and stray characters may be longer than one byte.  A word is read again from its first
character on, and a stray character is left at the next boundary; the bytes of all other lexemes are
ASCII characters (`ByteScanner.classifies_cut`).
-/

namespace MonkeyLang
namespace Token

/-! ## Classes of ASCII characters -/

theorem isBlank_of_le {c : Char} (h : 128 ≤ c.toNat) : isBlank c = false := by
  cases hBlank : isBlank c with
  | false => rfl
  | true =>
      simp only [isBlank, Bool.or_eq_true, decide_eq_true_eq] at hBlank
      rcases hBlank with ((rfl | rfl) | rfl) | rfl <;> exact absurd h (by decide)

theorem isDigit_of_le {c : Char} (h : 128 ≤ c.toNat) : isDigit c = false := by
  cases hDigit : isDigit c with
  | false => rfl
  | true =>
      simp only [isDigit, Bool.and_eq_true, decide_eq_true_eq] at hDigit
      have hNine : c.toNat ≤ 57 := hDigit.2
      omega

theorem mark?_of_le {c : Char} (h : 128 ≤ c.toNat) : mark? c = none := by
  unfold mark?
  split <;> first | rfl | exact absurd h (by decide)

theorem joining?_of_le {c : Char} (h : 128 ≤ c.toNat) : joining? c = none := by
  unfold joining?
  split <;> first | rfl | exact absurd h (by decide)

end Token

namespace ByteScanner

open Text

variable {s : ByteScanner} {before after word : List Char} {c : Char}

/-! ## Single bytes -/

/-- The scanner, with its place right behind some characters of the text. -/
def behind (s : ByteScanner) (cs : List Char) : ByteScanner :=
  { s with curr := width cs }

theorem isAtEnd_behind (h : s.source.toList = before ++ after) :
    (s.behind before).isAtEnd = after.isEmpty := by
  have hSize : s.bytes.size = width before + width after := size_eq h
  have hEnd : (s.behind before).isAtEnd = decide (s.bytes.size ≤ width before) := rfl
  rw [hEnd, hSize]
  cases after with
  | nil => simp
  | cons c cs =>
      have hPos := c.utf8Size_pos
      refine decide_eq_false ?_
      rw [width_cons]
      omega

theorem lt_size (h : s.source.toList = before ++ c :: after) {i : Nat}
    (hi : i < width before + c.utf8Size) : i < s.bytes.size := by
  have hSize : s.bytes.size = width before + width (c :: after) := size_eq h
  rw [hSize, width_cons]
  omega

theorem peek_behind (h : s.source.toList = before ++ c :: after) :
    (s.behind before).peek = firstByte c := by
  have hLt : width before < s.bytes.size :=
    lt_size h (Nat.lt_add_of_pos_right c.utf8Size_pos)
  exact (dif_pos hLt).trans (getElem_width h hLt)

theorem peek_behind_nil (h : s.source.toList = before) : (s.behind before).peek = 0 := by
  have hEnd : s.bytes.size ≤ width before := by
    have hSize : s.bytes.size = width before + width [] := size_eq (by simpa using h)
    exact Nat.le_of_eq hSize
  exact dif_neg (Nat.not_lt.2 hEnd)

theorem advance_of_lt {i : Nat} (h : i < s.bytes.size) :
    advance { s with curr := i } = .ok (s.bytes[i], { s with curr := i + 1 }) :=
  dif_pos h

theorem advance_behind (h : s.source.toList = before ++ c :: after) :
    (s.behind before).advance = .ok (firstByte c, { s with curr := width before + 1 }) := by
  have hLt : width before < s.bytes.size :=
    lt_size h (Nat.lt_add_of_pos_right c.utf8Size_pos)
  have hByte : s.bytes[width before] = firstByte c := getElem_width h hLt
  rw [behind, advance_of_lt hLt, hByte]

/-- A single byte leads past an ASCII character. -/
theorem behind_ascii (h : c.toNat < 128) :
    { s with curr := width before + 1 } = s.behind (before ++ [c]) := by
  have hSize : c.utf8Size = 1 := Char.utf8Size_eq_one_iff.2 (Nat.le_of_lt_succ h)
  rw [behind, width_append, width_cons, width_nil, hSize]

/-- The byte 0 that stands for the end is told from a 0 in the text by the end. -/
theorem isOf_peek {p : Char → Bool} (hp : ∀ c, 128 ≤ c.toNat → p c = false)
    (h : s.source.toList = before ++ after) :
    (isOf p (s.behind before).peek && !(s.behind before).isAtEnd) = after.head?.any p := by
  rw [isAtEnd_behind h]
  cases after with
  | nil => simp
  | cons c cs =>
      rw [peek_behind h, isOf, apply_firstByte hp]
      simp

theorem mark?_firstByte (c : Char) :
    Token.mark? (.ofUInt8 (firstByte c)) = Token.mark? c :=
  apply_firstByte (fun _ => Token.mark?_of_le) c

theorem joining?_firstByte (c : Char) :
    Token.joining? (.ofUInt8 (firstByte c)) = Token.joining? c :=
  apply_firstByte (fun _ => Token.joining?_of_le) c

theorem isDigit_firstByte (c : Char) : isOf Token.isDigit (firstByte c) = Token.isDigit c :=
  apply_firstByte (fun _ => Token.isDigit_of_le) c

/-! ## Runs of an ASCII class -/

theorem advanceWhile_of_true {goesOn : ByteScanner → Bool} {s' : ByteScanner} {b : UInt8}
    (h : goesOn s = true) (hAdvance : s.advance = .ok (b, s')) :
    s.advanceWhile goesOn = s'.advanceWhile goesOn := by
  rw [advanceWhile, if_pos h]
  split
  · next hNext =>
      rw [hAdvance] at hNext
      cases hNext
      rfl
  · next hNext =>
      rw [hAdvance] at hNext
      cases hNext

theorem advanceWhile_of_false {goesOn : ByteScanner → Bool} (h : goesOn s = false) :
    s.advanceWhile goesOn = .ok s := by
  rw [advanceWhile, if_neg (by simp [h])]

/-- Single bytes lead past a run of ASCII characters. -/
theorem advanceWhile_behind {p : Char → Bool} (hp : ∀ c, 128 ≤ c.toNat → p c = false)
    {goesOn : ByteScanner → Bool}
    (hGoesOn : ∀ {before after}, s.source.toList = before ++ after →
      goesOn (s.behind before) = after.head?.any p)
    (h : s.source.toList = before ++ after) :
    (s.behind before).advanceWhile goesOn = .ok (s.behind (before ++ after.takeWhile p)) := by
  induction after generalizing before with
  | nil =>
      rw [advanceWhile_of_false (hGoesOn h), List.takeWhile_nil, List.append_nil]
  | cons c cs ih =>
      cases hc : p c with
      | false =>
          have hStop := (hGoesOn h).trans hc
          rw [advanceWhile_of_false hStop, List.takeWhile_cons, hc]
          simp
      | true =>
          have hAscii : c.toNat < 128 := lt_of_apply_ne (hp _) (by simp [hc])
          have hMore := (hGoesOn h).trans hc
          have hNext : s.source.toList = (before ++ [c]) ++ cs := by simp [h]
          rw [advanceWhile_of_true hMore (advance_behind h), behind_ascii hAscii, ih hNext,
            List.takeWhile_cons, hc]
          simp

theorem skipBlanks_behind (h : s.source.toList = before ++ after) :
    (s.behind before).skipBlanks = .ok (s.behind (before ++ after.takeWhile Token.isBlank)) :=
  advanceWhile_behind (fun _ => Token.isBlank_of_le) (isOf_peek fun _ => Token.isBlank_of_le) h

theorem passDigits_behind (h : s.source.toList = before ++ after) :
    (s.behind before).passDigits = .ok (s.behind (before ++ after.takeWhile Token.isDigit)) := by
  refine advanceWhile_behind (fun _ => Token.isDigit_of_le) (fun {before after} h => ?_) h
  cases after with
  | nil =>
      rw [peek_behind_nil (by simpa using h)]
      rfl
  | cons c cs =>
      rw [peek_behind h, isDigit_firstByte]
      rfl

/-! ## Joined symbols -/

theorem firstByte_eq_iff : firstByte c = '='.toUInt8 ↔ c = '=' := by
  constructor
  · intro h
    have hClass : decide (Char.ofUInt8 (firstByte c) = '=') = decide (c = '=') :=
      apply_firstByte (f := fun d => decide (d = '=')) (a := false) (fun d hd => by
        refine decide_eq_false ?_
        rintro rfl
        exact absurd hd (by decide)) c
    have hEq : decide (Char.ofUInt8 (firstByte c) = '=') = true := by
      rw [h]
      decide
    exact of_decide_eq_true (hClass.symm.trans hEq)
  · rintro rfl
    decide

theorem matchByte_of_head (h : s.source.toList = before ++ '=' :: after) :
    (s.behind before).matchByte '='.toUInt8 = .ok (true, s.behind (before ++ ['='])) := by
  have hPeek : (s.behind before).peek = '='.toUInt8 := (peek_behind h).trans (by decide)
  have hAscii : '='.toNat < 128 := by decide
  rw [matchByte, if_pos ⟨hPeek, isAtEnd_behind h⟩, advance_behind h, ← behind_ascii hAscii]
  rfl

theorem matchByte_of_not (h : s.source.toList = before ++ after)
    (hHead : after.head? ≠ some '=') :
    (s.behind before).matchByte '='.toUInt8 = .ok (false, s.behind before) := by
  have hNot : ¬((s.behind before).peek = '='.toUInt8 ∧ (s.behind before).isAtEnd = false) := by
    rintro ⟨hPeek, hEnd⟩
    cases after with
    | nil =>
        rw [isAtEnd_behind h] at hEnd
        cases hEnd
    | cons c cs =>
        rw [peek_behind h, firstByte_eq_iff] at hPeek
        exact hHead (congrArg some hPeek)
  rw [matchByte, if_neg hNot]
  rfl

/-! ## Characters -/

theorem charAt_width (h : s.source.toList = before ++ after) :
    s.charAt (width before) = .ok after.head? := by
  rw [charAt, if_pos (isValid_width h)]
  exact congrArg Except.ok (utf8DecodeChar?_width h)

theorem lexeme_behind (h : s.source.toList = before ++ (word ++ after))
    (hStart : s.start = width before) :
    (s.behind (before ++ word)).lexeme = .ok (.ofList word) := by
  have hEnd : s.source.toList = (before ++ word) ++ after := by simp [h]
  have hFrom : (s.behind (before ++ word)).IsBoundary s.start := by
    rw [hStart]
    exact isValid_width h
  have hOrder : s.start ≤ width (before ++ word) := by
    rw [hStart, width_append]
    exact Nat.le_add_right _ _
  have hLexeme : (s.behind (before ++ word)).lexeme =
      .ok (s.source.extract ⟨⟨s.start⟩, hFrom⟩ ⟨⟨width (before ++ word)⟩, isValid_width hEnd⟩) :=
    dif_pos ⟨hOrder, hFrom, isValid_width hEnd⟩
  rw [hLexeme]
  refine congrArg Except.ok ?_
  rw [← extract_width h (isValid_width h) (isValid_width hEnd)]
  congr

/-- From inside of a character, single bytes lead to its end. -/
theorem passCharacter_inside (h : s.source.toList = before ++ c :: after)
    (hIn : width before < s.curr) (hLe : s.curr ≤ width before + c.utf8Size) :
    s.passCharacter = .ok (s.behind (before ++ [c])) := by
  obtain ⟨n, hn⟩ := Nat.exists_eq_add_of_le hLe
  induction n generalizing s with
  | zero =>
      have hEnd : s.curr = width (before ++ [c]) := by simp [hn]
      have hBoundary : s.IsBoundary s.curr := (isValid_inside h hIn hLe).2 hn.symm
      rw [passCharacter, advanceWhile_of_false (by simp [hBoundary]), behind, ← hEnd]
  | succ n ih =>
      have hNot : ¬s.IsBoundary s.curr := by
        intro hBoundary
        have hEnd := (isValid_inside h hIn hLe).1 hBoundary
        omega
      have hLt : s.curr < s.bytes.size := lt_size h (by omega)
      have hMore : (!s.isAtEnd && !decide (s.IsBoundary s.curr)) = true := by
        simp [hNot, isAtEnd, hLt]
      rw [passCharacter, advanceWhile_of_true hMore (advance_of_lt hLt)]
      exact ih h (by simp only; omega) (by simp only; omega) (by simp only; omega)

section

variable [Token.Alphabet]

/-! ## Words -/

theorem passLetters_of_letter (h : s.charAt s.curr = .ok (some c))
    (hc : Token.isLetter c = true) :
    s.passLetters = passLetters { s with curr := s.curr + c.utf8Size } := by
  rw [passLetters]
  split
  · next d hNext =>
      rw [h] at hNext
      cases hNext
      rw [if_pos hc]
  · next hNext =>
      rw [h] at hNext
      cases hNext
  · next hNext =>
      rw [h] at hNext
      cases hNext

theorem passLetters_of_stop {c? : Option Char} (h : s.charAt s.curr = .ok c?)
    (hc : c?.any Token.isLetter = false) : s.passLetters = .ok s := by
  rw [passLetters]
  split
  · next d hNext =>
      rw [h] at hNext
      cases hNext
      rw [if_neg (by simpa using hc)]
  · rfl
  · next hNext =>
      rw [h] at hNext
      cases hNext

theorem passLetters_behind (h : s.source.toList = before ++ after) :
    (s.behind before).passLetters =
      .ok (s.behind (before ++ after.takeWhile Token.isLetter)) := by
  induction after generalizing before with
  | nil =>
      rw [passLetters_of_stop (charAt_width (s := s.behind before) h) rfl, List.takeWhile_nil,
        List.append_nil]
  | cons c cs ih =>
      have hAt := charAt_width (s := s.behind before) h
      cases hc : Token.isLetter c with
      | false =>
          rw [passLetters_of_stop hAt hc, List.takeWhile_cons, hc]
          simp
      | true =>
          have hNext : s.source.toList = (before ++ [c]) ++ cs := by simp [h]
          have hStep : { s.behind before with curr := (s.behind before).curr + c.utf8Size } =
              s.behind (before ++ [c]) := by simp [behind]
          rw [passLetters_of_letter hAt hc, hStep, ih hNext, List.takeWhile_cons, hc]
          simp

theorem readWord_behind (h : s.source.toList = before ++ after) (hStart : s.start = width before)
    (i : Nat) :
    readWord { s with curr := i } =
      .ok (Kind.ofWord (.ofList (after.takeWhile Token.isLetter)),
        s.behind (before ++ after.takeWhile Token.isLetter)) := by
  have hBack : { s with curr := s.start } = s.behind before :=
    congrArg (fun n => { s with curr := n }) hStart
  have hSplit : s.source.toList =
      before ++ (after.takeWhile Token.isLetter ++ after.dropWhile Token.isLetter) := by
    rw [List.takeWhile_append_dropWhile, h]
  simp only [readWord, hBack, passLetters_behind h, lexeme_behind hSplit hStart,
    bind, Except.bind, pure, Except.pure]

/-! ## The kind of a lexeme -/

/-- The first byte of a character, when it has been taken, makes the scanner go on to the end of the
token and give its kind. -/
def Classifies (s : ByteScanner) (before : List Char) (c : Char) (t : Token) : Prop :=
  classify (firstByte c) { s with curr := width before + 1 } =
    .ok (t.kind, s.behind (before ++ t.literal.toList))

theorem classifies_mark {k : Kind} (hMark : Token.mark? c = some k) :
    s.Classifies before c (.ofChars k [c]) := by
  have hAscii : c.toNat < 128 := lt_of_apply_ne Token.mark?_of_le (by simp [hMark])
  rw [Classifies, classify, mark?_firstByte, hMark, behind_ascii hAscii, Token.ofChars,
    String.toList_ofList]
  rfl

theorem classify_joining {ks : Kind × Kind} (hMark : Token.mark? c = none)
    (hJoining : Token.joining? c = some ks) :
    classify (firstByte c) { s with curr := width before + 1 } = (do
      let (isJoined, s) ← (s.behind (before ++ [c])).matchByte '='.toUInt8
      return (if isJoined then ks.2 else ks.1, s)) := by
  have hAscii : c.toNat < 128 := lt_of_apply_ne Token.joining?_of_le (by simp [hJoining])
  rw [classify, mark?_firstByte, joining?_firstByte, hMark, hJoining, behind_ascii hAscii]

theorem classifies_joined {ks : Kind × Kind} (h : s.source.toList = before ++ c :: '=' :: after)
    (hMark : Token.mark? c = none) (hJoining : Token.joining? c = some ks) :
    s.Classifies before c (.ofChars ks.2 [c, '=']) := by
  have hNext : s.source.toList = (before ++ [c]) ++ '=' :: after := by simp [h]
  rw [Classifies, classify_joining hMark hJoining, matchByte_of_head hNext, Token.ofChars,
    String.toList_ofList, List.append_assoc]
  rfl

theorem classifies_alone {ks : Kind × Kind} (h : s.source.toList = before ++ c :: after)
    (hHead : after.head? ≠ some '=') (hMark : Token.mark? c = none)
    (hJoining : Token.joining? c = some ks) :
    s.Classifies before c (.ofChars ks.1 [c]) := by
  have hNext : s.source.toList = (before ++ [c]) ++ after := by simp [h]
  rw [Classifies, classify_joining hMark hJoining, matchByte_of_not hNext hHead, Token.ofChars,
    String.toList_ofList]
  rfl

theorem classifies_number (h : s.source.toList = before ++ c :: after)
    (hDigit : Token.isDigit c = true) :
    s.Classifies before c (.ofChars .int (c :: after.takeWhile Token.isDigit)) := by
  have hNext : s.source.toList = (before ++ [c]) ++ after := by simp [h]
  have hAscii : c.toNat < 128 := lt_of_apply_ne Token.isDigit_of_le (by simp [hDigit])
  have hText : before ++ c :: after.takeWhile Token.isDigit =
      (before ++ [c]) ++ after.takeWhile Token.isDigit := by simp
  rw [Classifies, classify, mark?_firstByte, joining?_firstByte, Token.mark?_of_isDigit hDigit,
    Token.joining?_of_isDigit hDigit, isDigit_firstByte, if_pos hDigit, behind_ascii hAscii,
    passDigits_behind hNext, Token.ofChars, String.toList_ofList, hText]
  rfl

/-- A character that is no symbol and no digit is decoded. -/
theorem classify_decoded (h : s.source.toList = before ++ c :: after)
    (hStart : s.start = width before) (hMark : Token.mark? c = none)
    (hJoining : Token.joining? c = none) (hDigit : Token.isDigit c = false) :
    classify (firstByte c) { s with curr := width before + 1 } =
      if Token.isLetter c then readWord { s with curr := width before + 1 }
      else do return (.illegal, ← passCharacter { s with curr := width before + 1 }) := by
  have hAt : charAt { s with curr := width before + 1 } s.start = .ok (some c) := by
    rw [hStart]
    exact charAt_width h
  rw [classify, mark?_firstByte, joining?_firstByte, hMark, hJoining, isDigit_firstByte, hDigit,
    if_neg Bool.false_ne_true, hAt]
  rfl

theorem classifies_word (h : s.source.toList = before ++ c :: after)
    (hStart : s.start = width before) (hLetter : Token.isLetter c = true) :
    s.Classifies before c (.ofWord (c :: after.takeWhile Token.isLetter)) := by
  have hRun : (c :: after).takeWhile Token.isLetter = c :: after.takeWhile Token.isLetter := by
    rw [List.takeWhile_cons, if_pos hLetter]
  rw [Classifies, classify_decoded h hStart (Token.mark?_of_isLetter hLetter)
    (Token.joining?_of_isLetter hLetter) (Token.isDigit_of_isLetter hLetter), if_pos hLetter,
    readWord_behind h hStart, hRun, Token.ofWord, String.toList_ofList]

theorem classifies_stray (h : s.source.toList = before ++ c :: after)
    (hStart : s.start = width before) (hMark : Token.mark? c = none)
    (hJoining : Token.joining? c = none) (hDigit : Token.isDigit c = false)
    (hLetter : Token.isLetter c = false) :
    s.Classifies before c (.ofChars .illegal [c]) := by
  have hPass : passCharacter { s with curr := width before + 1 } =
      .ok (s.behind (before ++ [c])) :=
    passCharacter_inside h (Nat.lt_succ_self _) (Nat.add_le_add_left c.utf8Size_pos _)
  rw [Classifies, classify_decoded h hStart hMark hJoining hDigit, hLetter,
    if_neg Bool.false_ne_true, hPass, Token.ofChars, String.toList_ofList]
  rfl

/-- A first byte decides as its character does. -/
theorem classifies_cut (h : s.source.toList = before ++ c :: after)
    (hStart : s.start = width before) : s.Classifies before c (Token.cut c after).1 := by
  unfold Token.cut
  split
  · next hMark => exact classifies_mark hMark
  · next hMark hJoining =>
      split
      · exact classifies_joined h hMark hJoining
      · next hNot =>
          refine classifies_alone h (fun hHead => ?_) hMark hJoining
          rcases List.head?_eq_some_iff.1 hHead with ⟨rest, hRest⟩
          exact hNot rest hRest
  · next hMark hJoining =>
      split
      · next hDigit => exact classifies_number h hDigit
      · next hDigit =>
          split
          · next hLetter => exact classifies_word h hStart hLetter
          · next hLetter =>
              exact classifies_stray h hStart hMark hJoining (by simpa using hDigit)
                (by simpa using hLetter)

/-! ## Following a lexer -/

end

/-- The scanner stands where the lexer does: both have the same characters in front of them. -/
structure Follows (s : ByteScanner) (l : Lexer) : Prop where
  place : ∃ before, s.source.toList = before ++ l.rest ∧ s.curr = width before
  finished : s.finished = l.finished

theorem follows_ofString (source : String) : (ofString source).Follows (.ofString source) :=
  ⟨⟨[], rfl, rfl⟩, rfl⟩

section

variable [Token.Alphabet]

theorem nextToken_of_blanks (h : s.source.toList = before ++ after)
    (hBlank : ∀ c ∈ after, Token.isBlank c = true) :
    (s.behind before).nextToken = .ok (.eof, s.behind (before ++ after)) := by
  have hRun : after.takeWhile Token.isBlank = after := List.takeWhile_eq_self_iff.2 hBlank
  have hAll : s.source.toList = (before ++ after) ++ [] := by simp [h]
  have hEnd : (s.behind (before ++ after)).isAtEnd = true := isAtEnd_behind hAll
  rw [nextToken, skipBlanks_behind h, hRun]
  simp only [bind, Except.bind, hEnd, if_true]
  rfl

/-- A token is read in five steps, and none of them may fail. -/
theorem nextToken_of_steps {s₁ s₂ s₃ : ByteScanner} {b : UInt8} {kind : Kind} {literal : String}
    (hSkip : s.skipBlanks = .ok s₁) (hMore : s₁.isAtEnd = false)
    (hAdvance : advance { s₁ with start := s₁.curr } = .ok (b, s₂))
    (hClassify : s₂.classify b = .ok (kind, s₃)) (hLexeme : s₃.lexeme = .ok literal) :
    s.nextToken = .ok (⟨kind, literal⟩, s₃) := by
  rw [nextToken, hSkip]
  simp only [bind, Except.bind, hMore, hAdvance, hClassify, hLexeme]
  rfl

theorem nextToken_of_blanks_append {gap : List Char}
    (h : s.source.toList = before ++ (gap ++ c :: after))
    (hGap : ∀ d ∈ gap, Token.isBlank d = true) (hc : Token.isBlank c = false) :
    (s.behind before).nextToken =
      .ok ((Token.cut c after).1, behind { s with start := width (before ++ gap) }
        (before ++ gap ++ (Token.cut c after).1.literal.toList)) := by
  have hRun : (gap ++ c :: after).takeWhile Token.isBlank = gap :=
    (Token.takeWhile_run hGap (Token.endsRun_cons hc after)).1
  have hSkip := skipBlanks_behind h
  rw [hRun] at hSkip
  have hText : s.source.toList = (before ++ gap) ++ c :: after :=
    h.trans (List.append_assoc _ _ _).symm
  have hSplit := hText
  rw [← (Token.demanded_cut hc after).2] at hSplit
  have hLexeme := lexeme_behind (s := { s with start := width (before ++ gap) }) hSplit rfl
  rw [String.ofList_toList] at hLexeme
  exact nextToken_of_steps hSkip (isAtEnd_behind hText)
    (advance_behind (s := { s with start := width (before ++ gap) }) hText)
    (classifies_cut (s := { s with start := width (before ++ gap) }) hText rfl) hLexeme

/-- Asked for a token, the scanner gives what the lexer gives, and goes on following it. -/
theorem nextToken_of_follows {l : Lexer} (h : s.Follows l) :
    ∃ s', s.nextToken = .ok (l.nextToken.1, s') ∧ s'.Follows l.nextToken.2 := by
  rcases h with ⟨⟨before, hText, hPlace⟩, hFinished⟩
  have hBehind : s = s.behind before := by rw [behind, ← hPlace]
  rw [hBehind, Lexer.nextToken]
  cases hNext : Token.next? l.rest with
  | none =>
      have hEnd : s.source.toList = (before ++ l.rest) ++ [] := by rw [List.append_nil, hText]
      have hBlank := Token.isBlank_of_next?_eq_none hNext
      exact ⟨_, nextToken_of_blanks hText hBlank, ⟨_, hEnd, rfl⟩, hFinished⟩
  | some r =>
      rcases r with ⟨t, rest⟩
      rcases Token.demanded_of_next? hNext with ⟨gap, hGap, hRest, ht⟩
      rcases Token.cut_of_demanded ht with ⟨c, cs, hLexeme, hc, hCut⟩
      have hStart : s.source.toList = before ++ (gap ++ c :: cs) := by
        rw [hText, hRest, hLexeme]
      have hEnd : s.source.toList = (before ++ gap ++ t.literal.toList) ++ rest := by
        rw [hText, hRest, List.append_assoc, List.append_assoc]
      have hToken := nextToken_of_blanks_append hStart hGap hc
      rw [hCut] at hToken
      exact ⟨_, hToken, ⟨_, hEnd, rfl⟩, hFinished⟩

/-- Asked as an iterator, the scanner gives what the lexer gives, and goes on following it. -/
theorem next?_of_follows {l : Lexer} (h : s.Follows l) :
    ∃ s', s.next? = .ok (l.next?.1, s') ∧ s'.Follows l.next?.2 := by
  cases hFinished : l.finished with
  | true =>
      have hDone : s.next? = .ok (none, s) := by
        rw [next?, if_pos (h.finished.trans hFinished)]
        rfl
      rw [Lexer.next?_of_finished hFinished]
      exact ⟨s, hDone, h⟩
  | false =>
      rcases nextToken_of_follows h with ⟨s', hToken, hFollows⟩
      have hItem : s.next? = .ok (some l.nextToken.1,
          if l.nextToken.1.kind = .eof then { s' with finished := true } else s') := by
        rw [next?, h.finished, hFinished, if_neg Bool.false_ne_true, hToken]
        rfl
      rw [Lexer.next?_of_not_finished hFinished]
      refine ⟨_, hItem, ?_⟩
      by_cases hEof : l.nextToken.1.kind = .eof
      · rw [if_pos hEof]
        exact ⟨hFollows.place, (decide_eq_true hEof).symm⟩
      · have hGoesOn : s'.finished = false := by
          rw [hFollows.finished, Lexer.finished_nextToken, hFinished]
        rw [if_neg hEof]
        exact ⟨hFollows.place, hGoesOn.trans (decide_eq_false hEof).symm⟩

/-! ## Asking for all tokens -/

/-- The tokens that a scanner gives, asked as an iterator until it has nothing more to give. -/
inductive Collects : ByteScanner → List Token → Prop
  | stop {s s' : ByteScanner} (h : s.next? = .ok (none, s')) : Collects s []
  | more {s s' : ByteScanner} {t : Token} {ts : List Token} (h : s.next? = .ok (some t, s'))
      (hRest : Collects s' ts) : Collects s (t :: ts)

theorem Collects.unique {ts us : List Token} (hts : s.Collects ts) (hus : s.Collects us) :
    us = ts := by
  induction hts generalizing us with
  | stop h =>
      cases hus with
      | stop => rfl
      | more hMore =>
          rw [h] at hMore
          cases hMore
  | more h _ ih =>
      cases hus with
      | stop hStop =>
          rw [h] at hStop
          cases hStop
      | more hMore hRest =>
          rw [h] at hMore
          cases hMore
          rw [ih hRest]

/-- The scanner gives all that the lexer gives, without breaking down. -/
theorem collects_of_follows {l : Lexer} (h : s.Follows l) : s.Collects l.collect.1 := by
  induction l using Lexer.collect.induct generalizing s with
  | case1 l l' hNext =>
      rcases next?_of_follows h with ⟨s', hItem, -⟩
      rw [hNext] at hItem
      rw [Lexer.collect_of_none hNext]
      exact .stop hItem
  | case2 l t l' hNext _ _ _ ih =>
      rcases next?_of_follows h with ⟨s', hItem, hFollows⟩
      rw [hNext] at hItem hFollows
      rw [Lexer.collect_of_some hNext]
      exact .more hItem (ih hFollows)

theorem collects_iff {source : String} {us : List Token} :
    (ofString source).Collects us ↔ us = (Lexer.ofString source).collect.1 := by
  have hAll := collects_of_follows (follows_ofString source)
  constructor
  · exact hAll.unique
  · rintro rfl
    exact hAll

end

end ByteScanner

/-- A text is scanned byte by byte to its end, whatever its letters are.  The tokens found, with the
end of input behind them, are the only ones that the scanner gives; the text is those tokens with
blanks around them, in no other way; and no token is empty. -/
theorem collect_segmented [Token.Alphabet] (source : String) :
    ∃ ts : List Token,
      (∀ us, (ByteScanner.ofString source).Collects us ↔ us = ts ++ [.eof]) ∧
      (Lexer.ofString source).collect = (ts ++ [.eof], ⟨[], true⟩) ∧
      (∀ us, Token.Segmented source.toList us ↔ us = ts) ∧
      ∀ t ∈ ts, t.literal ≠ "" ∧ t.kind ≠ .eof := by
  have hCollect : (Lexer.ofString source).collect =
      (Token.lexemes source.toList ++ [.eof], ⟨[], true⟩) := Lexer.collect_of_rest source.toList
  refine ⟨Token.lexemes source.toList, fun us => ?_, hCollect, fun us => ?_, ?_⟩
  · rw [ByteScanner.collects_iff, hCollect]
  · rw [Token.segmented_iff, eq_comm]
  · exact (Token.segmented_lexemes source.toList).proper

end MonkeyLang
