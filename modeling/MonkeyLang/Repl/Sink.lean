/-!
# Sink — a byte writer that may have limited room

A sink takes what fits and then fails.  What it took before the failure, the front of the last
text included, stays taken.
-/

namespace MonkeyLang

/-- The bytes taken so far, and how many more fit; no number means that all do. -/
structure Sink where
  taken : List UInt8
  room : Option Nat
  deriving DecidableEq

namespace Sink

/-- A sink that has taken nothing yet. -/
def ofRoom (room : Option Nat) : Sink :=
  ⟨[], room⟩

/-- Offer bytes to a sink.  It says whether it took all of them. -/
def write (bytes : List UInt8) (out : Sink) : Bool × Sink :=
  match out.room with
  | none => (true, { out with taken := out.taken ++ bytes })
  | some room =>
      if bytes.length ≤ room then (true, ⟨out.taken ++ bytes, some (room - bytes.length)⟩)
      else (false, ⟨out.taken ++ bytes.take room, some 0⟩)

/-- Offer the bytes of a text. -/
def writeText (text : String) (out : Sink) : Bool × Sink :=
  out.write text.toUTF8.toList

/-- The text that was taken, if the bytes taken are a text. -/
def text? (out : Sink) : Option String :=
  String.fromUTF8? ⟨out.taken.toArray⟩

/-! ## What a sink takes -/

/-- Bytes may be offered in one piece or in two. -/
theorem write_append (bytes more : List UInt8) (out : Sink) :
    out.write (bytes ++ more) =
      match out.write bytes with
      | (true, out) => out.write more
      | (false, out) => (false, out) := by
  unfold write
  cases hRoom : out.room with
  | none => simp
  | some room =>
      by_cases hFirst : bytes.length ≤ room
      · by_cases hBoth : bytes.length + more.length ≤ room
        · have hSecond : more.length ≤ room - bytes.length := by omega
          simp [hFirst, hBoth, hSecond, Nat.sub_sub]
        · have hSecond : ¬ more.length ≤ room - bytes.length := by omega
          simp [hFirst, hBoth, hSecond, List.take_append, List.take_of_length_le hFirst]
      · -- what follows the piece that does not fit is not looked at
        have hBoth : ¬ bytes.length + more.length ≤ room := by omega
        have hNone : room - bytes.length = 0 := by omega
        simp [hFirst, hBoth, List.take_append, hNone]

end Sink
end MonkeyLang
