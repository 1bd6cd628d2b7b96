import MonkeyLang.Token.Scan

/-!
# Lexer — tokens one at a time

A lexer is a text together with the place reached in it.  It can be asked in two ways:
`Lexer.nextToken` gives the end of input again and again once the text is used up, while
`Lexer.next?` gives it once and nothing afterwards.  Both ways share one place in the text, but
only `Lexer.next?` remembers that it has given the end of input.
-/

namespace MonkeyLang

/-- The text not read yet, and whether `Lexer.next?` has given the end of input. -/
structure Lexer where
  rest : List Char
  finished : Bool

namespace Lexer

/-- A lexer at the start of a text. -/
def ofString (source : String) : Lexer :=
  ⟨source.toList, false⟩

section

variable [Token.Alphabet]

/-! ## Asking for one token -/

/-- The next token; at the end of the text, the end of input every time. -/
def nextToken (l : Lexer) : Token × Lexer :=
  match Token.next? l.rest with
  | some (t, rest) => (t, { l with rest := rest })
  | none => (.eof, { l with rest := [] })

/-- The next token; the end of input once, and nothing after it. -/
def next? (l : Lexer) : Option Token × Lexer :=
  if l.finished then (none, l)
  else
    match Token.next? l.rest with
    | some (t, rest) => (some t, { l with rest := rest })
    | none => (some .eof, ⟨[], true⟩)

/-- How many tokens `next?` can still give at most. -/
def remaining (l : Lexer) : Nat :=
  if l.finished then 0 else l.rest.length + 1

theorem remaining_next?_lt {l l' : Lexer} {t : Token} (h : l.next? = (some t, l')) :
    l'.remaining < l.remaining := by
  unfold next? at h
  cases hf : l.finished with
  | true => simp [hf] at h
  | false =>
      simp only [hf, Bool.false_eq_true, if_false] at h
      split at h
      · next u rest hu =>
          have := Token.next?_length_lt hu
          cases h
          simp [remaining, hf, this]
      · cases h
        simp [remaining, hf]

/-! ## Asking for the rest -/

/-- Every token that `next?` still gives. -/
def collect (l : Lexer) : List Token × Lexer :=
  match _h : l.next? with
  | (none, l') => ([], l')
  | (some t, l') =>
      let (ts, l'') := collect l'
      (t :: ts, l'')
termination_by l.remaining
decreasing_by exact remaining_next?_lt _h

/-! ## Interleaving the ways to ask -/

/-- A way to ask a lexer. -/
inductive Pull
  | token
  | item
  | items
  deriving DecidableEq

/-- What a lexer gives for a pull. -/
inductive Pulled
  | token (t : Token)
  | item (t? : Option Token)
  | items (ts : List Token)

/-- Answer one pull. -/
def pull (l : Lexer) : Pull → Pulled × Lexer
  | .token => (.token l.nextToken.1, l.nextToken.2)
  | .item => (.item l.next?.1, l.next?.2)
  | .items => (.items l.collect.1, l.collect.2)

/-- Answer pulls one after the other. -/
def pulls (l : Lexer) : List Pull → List Pulled
  | [] => []
  | p :: ps => (l.pull p).1 :: (l.pull p).2.pulls ps

end

end Lexer
end MonkeyLang
