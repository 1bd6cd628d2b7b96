import MonkeyLang.Text.Alphabetic
import MonkeyLang.Token.Basic

/-!
# Scan — cutting source text into tokens

One primitive, `Token.next?`, skips blanks and cuts off the longest token that the text starts
with.  Scanning never fails: a character that starts no token becomes an illegal token of its
own.  `Token.lexemes` repeats the primitive to the end of the text, and every step leaves a
shorter text (`Token.next?_length_lt`).

Words are made of the characters of an alphabet (`Token.Alphabet`).  Any will do that keeps clear of
blanks, digits and symbols; unless another one is given, it is that of all scripts.
-/

namespace MonkeyLang
namespace Token

/-! ## Character classes -/

/-- The characters between tokens: space, tab, line feed and carriage return, and no other. -/
def isBlank (c : Char) : Bool :=
  c = ' ' || c = '\t' || c = '\n' || c = '\r'

/-- The characters of numbers: the ten ASCII digits. -/
def isDigit (c : Char) : Bool :=
  '0' ≤ c && c ≤ '9'

/-! ## Symbols -/

/-- The kind of a character that is a token on its own, whatever follows it. -/
def mark? : Char → Option Kind
  | '*' => some .asterisk
  | '+' => some .plus
  | '-' => some .minus
  | '/' => some .slash
  | '\\' => some .backslash
  | ';' => some .semicolon
  | '(' => some .lparen
  | ')' => some .rparen
  | ',' => some .comma
  | '{' => some .lbrace
  | '}' => some .rbrace
  | _ => none

/-- The two kinds of a character that may be joined with an equals sign: the kind it has alone,
and the kind of the pair. -/
def joining? : Char → Option (Kind × Kind)
  | '=' => some (.assign, .eq)
  | '!' => some (.bang, .notEq)
  | '<' => some (.lt, .ltEq)
  | '>' => some (.gt, .gtEq)
  | _ => none

/-! ## Letters -/

/-- The alphabetic characters.  No blank, no digit and no symbol is one of them. -/
class Alphabet where
  isAlphabetic : Char → Bool
  blank {c : Char} (h : isBlank c = true) : isAlphabetic c = false
  digit {c : Char} (h : isDigit c = true) : isAlphabetic c = false
  mark {c : Char} (h : (mark? c).isSome = true) : isAlphabetic c = false
  joining {c : Char} (h : (joining? c).isSome = true) : isAlphabetic c = false

/-- The alphabetic characters of all scripts. -/
instance : Alphabet where
  isAlphabetic := Text.isAlphabetic
  blank {c} h := by
    simp only [isBlank, Bool.or_eq_true, decide_eq_true_eq] at h
    rcases h with ((rfl | rfl) | rfl) | rfl <;> decide
  digit {c} h := by
    simp only [isDigit, Bool.and_eq_true, decide_eq_true_eq] at h
    have hRange : 48 ≤ c.toNat ∧ c.toNat ≤ 57 := h
    rw [Text.isAlphabetic_of_ascii c (by omega)]
    exact decide_eq_false (by omega)
  mark {c} h := by
    unfold mark? at h
    split at h <;> first | decide | cases h
  joining {c} h := by
    unfold joining? at h
    split at h <;> first | decide | cases h

section

variable [Alphabet]

/-- The characters of names and keywords: those of the alphabet, and the underscore. -/
def isLetter (c : Char) : Bool :=
  Alphabet.isAlphabetic c || c = '_'

/-! ## One token -/

/-- A token read from the given characters. -/
def ofChars (kind : Kind) (cs : List Char) : Token :=
  ⟨kind, String.ofList cs⟩

/-- The token of a word, reserved or not. -/
def ofWord (cs : List Char) : Token :=
  ⟨Kind.ofWord (String.ofList cs), String.ofList cs⟩

/-- The longest token at the start of `c :: cs`, where `c` is no blank, and the text behind
it. -/
def cut (c : Char) (cs : List Char) : Token × List Char :=
  match mark? c, joining? c with
  | some kind, _ => (ofChars kind [c], cs)
  | none, some (alone, joined) =>
      match cs with
      | '=' :: rest => (ofChars joined [c, '='], rest)
      | _ => (ofChars alone [c], cs)
  | none, none =>
      if isDigit c then (ofChars .int (c :: cs.takeWhile isDigit), cs.dropWhile isDigit)
      else if isLetter c then (ofWord (c :: cs.takeWhile isLetter), cs.dropWhile isLetter)
      else (ofChars .illegal [c], cs)

/-- The first token of a text and the text behind it; nothing when only blanks are left. -/
def next? : List Char → Option (Token × List Char)
  | [] => none
  | c :: cs => if isBlank c then next? cs else some (cut c cs)

/-! ## Progress -/

theorem cut_length_le (c : Char) (cs : List Char) : (cut c cs).2.length ≤ cs.length := by
  unfold cut
  split
  · exact Nat.le_refl _
  · split
    · simp
    · exact Nat.le_refl _
  · split
    · exact (List.dropWhile_sublist _).length_le
    · split
      · exact (List.dropWhile_sublist _).length_le
      · exact Nat.le_refl _

/-- A token is never empty: the text behind it is shorter. -/
theorem next?_length_lt {cs rest : List Char} {t : Token} (h : next? cs = some (t, rest)) :
    rest.length < cs.length := by
  induction cs with
  | nil => simp [next?] at h
  | cons c cs ih =>
      rw [next?] at h
      split at h
      · exact Nat.lt_succ_of_lt (ih h)
      · have hcut := cut_length_le c cs
        rw [Option.some.inj h] at hcut
        exact Nat.lt_succ_of_le hcut

/-! ## All tokens -/

/-- The tokens of a text in order, without the end of input. -/
def lexemes (cs : List Char) : List Token :=
  match _h : next? cs with
  | none => []
  | some (t, rest) => t :: lexemes rest
termination_by cs.length
decreasing_by exact next?_length_lt _h

/-- The tokens of a text in order, closed by one end of input. -/
def ofString (source : String) : List Token :=
  lexemes source.toList ++ [eof]

end

end Token
end MonkeyLang
