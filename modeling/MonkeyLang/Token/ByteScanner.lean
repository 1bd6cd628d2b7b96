import MonkeyLang.Token.Scan

/-!
# ByteScanner — tokens cut off the bytes of a text

A byte scanner goes through the UTF-8 bytes of a text and keeps two places in them: where the
lexeme begins, and the first byte that was not looked at.  It decides by single bytes where it can,
and decodes a character only to find the end of a word.  Behind the last byte it sees the byte 0,
which may as well stand in the text.

Two things cannot be done: taking a byte behind the end, and cutting the text inside of a character.
A scanner that tries to breaks down (`ByteScanner.Fault`).
-/

namespace MonkeyLang

/-- A text, the first byte of the lexeme, the first byte not looked at, and whether
`ByteScanner.next?` has given the end of input. -/
structure ByteScanner where
  source : String
  start : Nat
  curr : Nat
  finished : Bool

namespace ByteScanner

/-- Why a scanner breaks down. -/
inductive Fault
  | behindEnd
  | insideCharacter

/-- A scanner in front of a text. -/
def ofString (source : String) : ByteScanner :=
  ⟨source, 0, 0, false⟩

/-! ## Single bytes -/

def bytes (s : ByteScanner) : ByteArray :=
  s.source.toByteArray

def isAtEnd (s : ByteScanner) : Bool :=
  s.bytes.size ≤ s.curr

/-- Take the next byte. -/
def advance (s : ByteScanner) : Except Fault (UInt8 × ByteScanner) :=
  if h : s.curr < s.bytes.size then .ok (s.bytes[s.curr], { s with curr := s.curr + 1 })
  else .error .behindEnd

/-- The next byte, which is not taken; 0 at the end. -/
def peek (s : ByteScanner) : UInt8 :=
  if h : s.curr < s.bytes.size then s.bytes[s.curr] else 0

/-- Take the next byte if it is the expected one. -/
def matchByte (expected : UInt8) (s : ByteScanner) : Except Fault (Bool × ByteScanner) :=
  if s.peek = expected ∧ s.isAtEnd = false then do
    let (_, s) ← s.advance
    return (true, s)
  else return (false, s)

theorem lt_of_advance {s s' : ByteScanner} {b : UInt8} (h : s.advance = .ok (b, s')) :
    s'.bytes.size - s'.curr < s.bytes.size - s.curr := by
  unfold advance at h
  split at h
  · next hLt =>
      cases h
      exact Nat.sub_succ_lt_self _ _ hLt
  · cases h

/-- Take bytes as long as the condition holds. -/
def advanceWhile (goesOn : ByteScanner → Bool) (s : ByteScanner) : Except Fault ByteScanner :=
  if goesOn s then
    match _h : s.advance with
    | .ok (_, s') => advanceWhile goesOn s'
    | .error fault => .error fault
  else .ok s
termination_by s.bytes.size - s.curr
decreasing_by exact lt_of_advance _h

/-! ## Characters -/

/-- A character of the text begins at byte `i`, or the text ends there. -/
abbrev IsBoundary (s : ByteScanner) (i : Nat) : Prop :=
  String.Pos.Raw.IsValid s.source ⟨i⟩

/-- The character that begins at byte `i`; none at the end. -/
def charAt (s : ByteScanner) (i : Nat) : Except Fault (Option Char) :=
  if s.IsBoundary i then .ok (s.bytes.utf8DecodeChar? i) else .error .insideCharacter

/-- The text from the beginning of the lexeme to the first byte not looked at. -/
def lexeme (s : ByteScanner) : Except Fault String :=
  if h : s.start ≤ s.curr ∧ s.IsBoundary s.start ∧ s.IsBoundary s.curr then
    .ok (s.source.extract ⟨⟨s.start⟩, h.2.1⟩ ⟨⟨s.curr⟩, h.2.2⟩)
  else .error .insideCharacter

theorem lt_of_charAt {s : ByteScanner} {c : Char} (h : s.charAt s.curr = .ok (some c)) :
    s.bytes.size - (s.curr + c.utf8Size) < s.bytes.size - s.curr := by
  unfold charAt at h
  split at h
  · have hLt : s.curr < s.bytes.size := by
      refine ByteArray.lt_size_of_isSome_utf8DecodeChar? ?_
      rw [Except.ok.inj h, Option.isSome_some]
    have hSize := c.utf8Size_pos
    omega
  · cases h

/-! ## Runs of bytes and characters -/

/-- Whether the byte, as a character of its own, is of the class. -/
def isOf (p : Char → Bool) (b : UInt8) : Bool :=
  p (.ofUInt8 b)

def skipBlanks : ByteScanner → Except Fault ByteScanner :=
  advanceWhile fun s => isOf Token.isBlank s.peek && !s.isAtEnd

/-- Go on to the end of a number.  The end of the text ends it too, for 0 is no digit. -/
def passDigits : ByteScanner → Except Fault ByteScanner :=
  advanceWhile fun s => isOf Token.isDigit s.peek

/-- Go on to the end of a character. -/
def passCharacter : ByteScanner → Except Fault ByteScanner :=
  advanceWhile fun s => !s.isAtEnd && !decide (s.IsBoundary s.curr)

section

variable [Token.Alphabet]

/-- Go on to the end of a word. -/
def passLetters (s : ByteScanner) : Except Fault ByteScanner :=
  match _h : s.charAt s.curr with
  | .ok (some c) =>
      if Token.isLetter c then passLetters { s with curr := s.curr + c.utf8Size } else .ok s
  | .ok none => .ok s
  | .error fault => .error fault
termination_by s.bytes.size - s.curr
decreasing_by exact lt_of_charAt _h

/-- The kind of the word that the lexeme begins.  The word is read from its first character on, of
which one byte has been taken already. -/
def readWord (s : ByteScanner) : Except Fault (Kind × ByteScanner) := do
  let s ← passLetters { s with curr := s.start }
  return (Kind.ofWord (← s.lexeme), s)

/-! ## Tokens -/

/-- The kind of the lexeme that begins with the byte `b`, which has been taken, and the scanner
behind the lexeme. -/
def classify (b : UInt8) (s : ByteScanner) : Except Fault (Kind × ByteScanner) :=
  match Token.mark? (.ofUInt8 b), Token.joining? (.ofUInt8 b) with
  | some kind, _ => return (kind, s)
  | none, some (alone, joined) => do
      let (isJoined, s) ← s.matchByte '='.toUInt8
      return (if isJoined then joined else alone, s)
  | none, none => do
      if isOf Token.isDigit b then return (.int, ← s.passDigits)
      else if (← s.charAt s.start).any Token.isLetter then s.readWord
      else return (.illegal, ← s.passCharacter)

/-- The next token; at the end of the text, the end of input every time. -/
def nextToken (s : ByteScanner) : Except Fault (Token × ByteScanner) := do
  let s ← s.skipBlanks
  if s.isAtEnd then return (.eof, s)
  else
    let (b, s) ← advance { s with start := s.curr }
    let (kind, s) ← s.classify b
    return (⟨kind, ← s.lexeme⟩, s)

/-- The next token; the end of input once, and nothing after it. -/
def next? (s : ByteScanner) : Except Fault (Option Token × ByteScanner) :=
  if s.finished then return (none, s)
  else do
    let (t, s) ← s.nextToken
    return (some t, if t.kind = .eof then { s with finished := true } else s)

end

end ByteScanner
end MonkeyLang
