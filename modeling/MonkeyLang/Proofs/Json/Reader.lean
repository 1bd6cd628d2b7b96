import MonkeyLang.Json.Basic
import MonkeyLang.Proofs.Text.Decimal
import Mathlib.Data.List.DropRight

/-!
# Reader — JSON text read back

A reader of JSON texts, written for the notation and not for one writer of it: blanks may stand
between any two parts, a character of a string may stand for itself or be written in any of its
escaped forms, surrogate pairs included, and what is not JSON is refused.  Numbers are whole, as
the values are.  What `Json.pretty` writes is then read back as the value it was written for
(`read?_pretty_append`).

Readers return what they read and the text behind it.  `value?` and its companions take steps
from a supply; `read?` grants one for every character and one more, and a text never needs as
many as that, since every step reads a character of its own, be it a mark in front of other steps
or one behind them.
-/

namespace MonkeyLang
namespace Json

/-! ## Blanks -/

def isBlank (c : Char) : Bool :=
  c == ' ' || c == '\t' || c == '\n' || c == '\r'

def skipBlanks (cs : List Char) : List Char :=
  cs.dropWhile isBlank

/-! ## Strings -/

def hexValue? (c : Char) : Option Nat :=
  if '0' ≤ c ∧ c ≤ '9' then some (c.toNat - '0'.toNat)
  else if 'a' ≤ c ∧ c ≤ 'f' then some (c.toNat - 'a'.toNat + 10)
  else if 'A' ≤ c ∧ c ≤ 'F' then some (c.toNat - 'A'.toNat + 10)
  else none

/-- A number of sixteen bits, written with four hexadecimal digits. -/
def unit? : List Char → Option (Nat × List Char)
  | a :: b :: c :: d :: cs => do
      let a ← hexValue? a
      let b ← hexValue? b
      let c ← hexValue? c
      let d ← hexValue? d
      return (((a * 16 + b) * 16 + c) * 16 + d, cs)
  | _ => none

/-- A character given by its number.  Those past the sixteenth bit take two units, a high
surrogate and a low one; a surrogate without its partner stands for nothing. -/
def numbered? (cs : List Char) : Option (Char × List Char) := do
  let (high, cs) ← unit? cs
  if high < 0xd800 ∨ 0xe000 ≤ high then
    return (Char.ofNat high, cs)
  else if high < 0xdc00 then
    match cs with
    | '\\' :: 'u' :: cs => do
        let (low, cs) ← unit? cs
        if 0xdc00 ≤ low ∧ low < 0xe000 then
          return (Char.ofNat (0x10000 + (high - 0xd800) * 0x400 + (low - 0xdc00)), cs)
        else none
    | _ => none
  else none

/-- What a backslash and this character stand for. -/
def shortForm? : Char → Option Char
  | '\x22' => some '\x22'
  | '\\' => some '\\'
  | '/' => some '/'
  | 'b' => some '\x08'
  | 'f' => some '\x0c'
  | 'n' => some '\n'
  | 'r' => some '\r'
  | 't' => some '\t'
  | _ => none

/-- One character of a string.  A quote or a control character does not stand for itself. -/
def char? : List Char → Option (Char × List Char)
  | [] => none
  | '\\' :: 'u' :: cs => numbered? cs
  | '\\' :: c :: cs => (shortForm? c).map fun c => (c, cs)
  | c :: cs => if c = '\x22' ∨ c = '\\' ∨ c.toNat < 32 then none else some (c, cs)

/-- The characters up to the closing quote, at most as many as the supply. -/
def chars? : Nat → List Char → Option (List Char × List Char)
  | 0, _ => none
  | _ + 1, '\x22' :: cs => some ([], cs)
  | n + 1, cs => do
      let (c, cs) ← char? cs
      let (s, cs) ← chars? n cs
      return (c :: s, cs)

/-- A string whose opening quote is behind us. -/
def string? (cs : List Char) : Option (String × List Char) :=
  (chars? cs.length cs).map fun (s, cs) => (String.ofList s, cs)

/-! ## Numbers -/

/-- A number without a sign.  Only zero starts with a zero. -/
def natural? (cs : List Char) : Option (Nat × List Char) :=
  match cs.takeWhile Char.isDigit with
  | [] => none
  | ['0'] => some (0, cs.dropWhile Char.isDigit)
  | '0' :: _ => none
  | ds => some (Nat.ofDigitChars 10 ds 0, cs.dropWhile Char.isDigit)

/-! ## Values -/

mutual

def value? : Nat → List Char → Option (Json × List Char)
  | 0, _ => none
  | n + 1, cs =>
      match skipBlanks cs with
      | 'n' :: 'u' :: 'l' :: 'l' :: cs => some (null, cs)
      | 't' :: 'r' :: 'u' :: 'e' :: cs => some (bool true, cs)
      | 'f' :: 'a' :: 'l' :: 's' :: 'e' :: cs => some (bool false, cs)
      | '\x22' :: cs => (string? cs).map fun (s, cs) => (str s, cs)
      | '[' :: cs =>
          match skipBlanks cs with
          | ']' :: cs => some (arr [], cs)
          | cs => (items? n cs).map fun (js, cs) => (arr js, cs)
      | '\x7b' :: cs =>
          match skipBlanks cs with
          | '\x7d' :: cs => some (obj [], cs)
          | cs => (members? n cs).map fun (ms, cs) => (obj ms, cs)
      | '-' :: cs => (natural? cs).map fun (m, cs) => (num (-m), cs)
      | cs => (natural? cs).map fun (m, cs) => (num m, cs)

/-- Items, at least one, and the end of their list. -/
def items? : Nat → List Char → Option (List Json × List Char)
  | 0, _ => none
  | n + 1, cs => do
      let (j, cs) ← value? n cs
      match skipBlanks cs with
      | ',' :: cs => do
          let (js, cs) ← items? n cs
          return (j :: js, cs)
      | ']' :: cs => return ([j], cs)
      | _ => none

/-- Members, at least one, and the end of their object. -/
def members? : Nat → List Char → Option (List (String × Json) × List Char)
  | 0, _ => none
  | n + 1, cs =>
      match skipBlanks cs with
      | '\x22' :: cs => do
          let (key, cs) ← string? cs
          match skipBlanks cs with
          | ':' :: cs => do
              let (j, cs) ← value? n cs
              match skipBlanks cs with
              | ',' :: cs => do
                  let (ms, cs) ← members? n cs
                  return ((key, j) :: ms, cs)
              | '\x7d' :: cs => return ([(key, j)], cs)
              | _ => none
          | _ => none
      | _ => none

end

/-- The value that a text is, if it is one value between blanks. -/
def read? (text : String) : Option Json := do
  let (j, cs) ← value? (text.length + 1) text.toList
  if cs.all isBlank then return j else none

/-! ## What is written is read back -/

/-! ### Blanks -/

theorem isBlank_eq_false_of_isDigit {c : Char} (h : c.isDigit = true) : isBlank c = false := by
  by_contra hc
  simp only [isBlank, Bool.not_eq_false, Bool.or_eq_true, beq_iff_eq] at hc
  obtain ((rfl | rfl) | rfl) | rfl := hc <;> cases h

theorem skipBlanks_append {gap : List Char} (h : gap.all isBlank = true) (cs : List Char) :
    skipBlanks (gap ++ cs) = skipBlanks cs :=
  List.dropWhile_append_of_pos fun c hc => List.all_eq_true.mp h c hc

theorem skipBlanks_cons {c : Char} (h : isBlank c = false) (cs : List Char) :
    skipBlanks (c :: cs) = c :: cs := by
  simp [skipBlanks, h]

theorem skipBlanks_skipBlanks (cs : List Char) : skipBlanks (skipBlanks cs) = skipBlanks cs :=
  List.dropWhile_idempotent isBlank cs

@[simp]
theorem length_newLine (level : Nat) : (newLine level).length = 2 * level + 1 := by
  simp only [newLine, String.length_append, String.length_ofList, List.length_replicate]
  exact Nat.add_comm 1 (2 * level)

theorem all_isBlank_newLine (level : Nat) : (newLine level).toList.all isBlank = true := by
  simp [newLine, isBlank]

theorem skipBlanks_newLine (level : Nat) (cs : List Char) :
    skipBlanks ((newLine level).toList ++ cs) = skipBlanks cs :=
  skipBlanks_append (all_isBlank_newLine level) cs

theorem takeWhile_isDigit_newLine (level : Nat) (cs : List Char) :
    ((newLine level).toList ++ cs).takeWhile Char.isDigit = [] := by
  simp [newLine]

/-! ### Strings -/

theorem hexValue?_hexDigit : ∀ n < 16, hexValue? (hexDigit n) = some n := by
  decide

theorem char?_escaped (c : Char) (cs : List Char) : char? (escaped c ++ cs) = some (c, cs) := by
  unfold escaped
  -- seven characters have a short form of their own
  iterate 7
    split
    · subst c
      rfl
  split
  · rename_i h
    have hHigh := hexValue?_hexDigit (c.toNat / 16) (by omega)
    have hLow := hexValue?_hexDigit (c.toNat % 16) (by omega)
    have hZero : hexValue? '0' = some 0 := by decide
    have hSum : c.toNat / 16 * 16 + c.toNat % 16 = c.toNat := by omega
    have hSmall : c.toNat < 0xd800 := by omega
    simp [char?, numbered?, unit?, hHigh, hLow, hZero, hSum, hSmall]
  · -- what is left stands for itself
    rw [List.singleton_append, char?.eq_def]
    split <;> simp_all

/-- Other ways of writing a character are read as well, such as a pair of surrogates. -/
example : char? ['\\', 'u', 'd', '8', '3', 'D', '\\', 'u', 'd', 'e', '0', '0'] =
    some ('😀', []) := by
  decide

theorem chars?_escaped (s : List Char) (n : Nat) (cs : List Char) (h : s.length < n) :
    chars? n (s.flatMap escaped ++ '\x22' :: cs) = some (s, cs) := by
  induction s generalizing n with
  | nil =>
      obtain ⟨n, rfl⟩ := Nat.exists_eq_add_one.mpr (Nat.zero_lt_of_lt h)
      rfl
  | cons c s ih =>
      obtain ⟨n, rfl⟩ := Nat.exists_eq_add_one.mpr (Nat.zero_lt_of_lt h)
      have hRead := char?_escaped c (s.flatMap escaped ++ '\x22' :: cs)
      -- the string does not end here: no character is read from a closing quote
      have hOpen : ∀ rest, escaped c ++ (s.flatMap escaped ++ '\x22' :: cs) ≠ '\x22' :: rest := by
        intro rest heq
        rw [heq] at hRead
        cases hRead
      rw [List.flatMap_cons, List.append_assoc, chars?.eq_3 _ _ hOpen, hRead]
      simp [ih n (by simpa using h)]

theorem toList_quoted (s : String) :
    (quoted s).toList = '\x22' :: (s.toList.flatMap escaped ++ ['\x22']) := by
  simp [quoted]

theorem length_le_length_flatMap_escaped (s : List Char) :
    s.length ≤ (s.flatMap escaped).length := by
  induction s with
  | nil => exact Nat.le_refl 0
  | cons c s ih =>
      have hPos : 0 < (escaped c).length := by
        unfold escaped
        repeat' split
        all_goals exact Nat.succ_pos _
      simp only [List.flatMap_cons, List.length_append, List.length_cons]
      omega

theorem string?_quoted (s : String) (cs : List Char) :
    string? (s.toList.flatMap escaped ++ '\x22' :: cs) = some (s, cs) := by
  have hLength := length_le_length_flatMap_escaped s.toList
  have hSupply : s.toList.length < (s.toList.flatMap escaped ++ '\x22' :: cs).length := by
    simp only [List.length_append, List.length_cons]
    omega
  rw [string?, chars?_escaped s.toList _ cs hSupply]
  simp

/-! ### Numbers -/

theorem natural?_toDigits (n : Nat) {cs : List Char} (h : cs.takeWhile Char.isDigit = []) :
    natural? (Nat.toDigits 10 n ++ cs) = some (n, cs) := by
  have hDigits : ∀ c ∈ Nat.toDigits 10 n, c.isDigit = true := fun c hc =>
    Nat.isDigit_of_mem_toDigits (by omega) (by omega) hc
  have hRest : cs.dropWhile Char.isDigit = cs := by
    simpa [h] using List.takeWhile_append_dropWhile (p := Char.isDigit) (l := cs)
  have hTake : (Nat.toDigits 10 n ++ cs).takeWhile Char.isDigit = Nat.toDigits 10 n := by
    rw [List.takeWhile_append_of_pos hDigits, h, List.append_nil]
  have hDrop : (Nat.toDigits 10 n ++ cs).dropWhile Char.isDigit = cs := by
    rw [List.dropWhile_append_of_pos hDigits, hRest]
  rw [natural?, hTake, hDrop]
  -- zero alone may start with a zero
  obtain rfl | hPos := Nat.eq_zero_or_pos n
  · rfl
  · obtain ⟨d, ds, heq, hd⟩ := Text.toDigits_eq_cons n hPos
    have hValue := Nat.ofDigitChars_ten_toDigits (n := n)
    rw [heq] at hValue ⊢
    split <;> simp_all

theorem value?_digit (n : Nat) {d : Char} (h : d.isDigit = true) (cs : List Char) :
    value? (n + 1) (d :: cs) = (natural? (d :: cs)).map fun (m, cs) => (num m, cs) := by
  rw [value?, skipBlanks_cons (isBlank_eq_false_of_isDigit h)]
  split <;> simp_all

theorem toList_numeral_ofNat (n : Nat) :
    (numeral (Int.ofNat n)).toList = Nat.toDigits 10 n :=
  Nat.toList_repr

theorem value?_numeral (n : Nat) (m : Int) {cs : List Char}
    (h : cs.takeWhile Char.isDigit = []) :
    value? (n + 1) ((numeral m).toList ++ cs) = some (num m, cs) := by
  cases m with
  | ofNat m =>
      have hRead := natural?_toDigits m h
      obtain ⟨d, ds, heq⟩ := List.exists_cons_of_ne_nil (Nat.toDigits_ne_nil (n := m) (b := 10))
      have hd : d.isDigit = true :=
        Nat.isDigit_of_mem_toDigits (b := 10) (n := m) (by omega) (by omega) (by simp [heq])
      rw [toList_numeral_ofNat, heq, List.cons_append, value?_digit n hd,
        ← List.cons_append, ← heq, hRead]
      rfl
  | negSucc m =>
      -- the sign is read apart from the digits
      have hRead := natural?_toDigits (m + 1) h
      have hText : (numeral (Int.negSucc m)).toList = '-' :: Nat.toDigits 10 (m + 1) := by
        simp [numeral, Nat.toList_repr]
      rw [hText, List.cons_append, value?, skipBlanks_cons (by decide)]
      simp [hRead, Int.negSucc_eq]

/-! ### Blanks before a value, and the ends of lists and objects -/

theorem value?_skipBlanks (n : Nat) (cs : List Char) : value? n (skipBlanks cs) = value? n cs := by
  cases n with
  | zero => rfl
  | succ n => rw [value?, value?, skipBlanks_skipBlanks]

theorem items?_skipBlanks (n : Nat) (cs : List Char) : items? n (skipBlanks cs) = items? n cs := by
  cases n with
  | zero => rfl
  | succ n => rw [items?, items?, value?_skipBlanks]

theorem members?_skipBlanks (n : Nat) (cs : List Char) :
    members? n (skipBlanks cs) = members? n cs := by
  cases n with
  | zero => rfl
  | succ n => rw [members?, members?, skipBlanks_skipBlanks]

/-- No value starts with the end of a list, so what does is no list of items. -/
theorem items?_close (n : Nat) {cs rest : List Char} (h : skipBlanks cs = ']' :: rest) :
    items? n cs = none := by
  rw [← items?_skipBlanks, h]
  obtain _ | _ | n := n <;> simp [items?, value?, skipBlanks, isBlank, natural?]

/-- No member starts with the end of an object. -/
theorem members?_close (n : Nat) {cs rest : List Char} (h : skipBlanks cs = '\x7d' :: rest) :
    members? n cs = none := by
  rw [← members?_skipBlanks, h]
  cases n <;> simp [members?, skipBlanks, isBlank]

theorem items?_newLine (n level : Nat) (cs : List Char) :
    items? n ((newLine level).toList ++ cs) = items? n cs := by
  rw [← items?_skipBlanks, skipBlanks_newLine, items?_skipBlanks]

theorem members?_newLine (n level : Nat) (cs : List Char) :
    members? n ((newLine level).toList ++ cs) = members? n cs := by
  rw [← members?_skipBlanks, skipBlanks_newLine, members?_skipBlanks]

theorem value?_space (n : Nat) (cs : List Char) : value? n (' ' :: cs) = value? n cs := by
  rw [← value?_skipBlanks n (' ' :: cs), ← value?_skipBlanks n cs]
  rfl

/-! ### Lists and objects, from their parts -/

variable {n level : Nat} {cs rest : List Char}

theorem value?_arr {js : List Json} (h : items? n cs = some (js, rest)) :
    value? (n + 1) ('[' :: cs) = some (arr js, rest) := by
  simp only [value?, skipBlanks_cons (show isBlank '[' = false by decide)]
  split
  · rename_i hClose
    rw [items?_close n hClose] at h
    cases h
  · simp [items?_skipBlanks, h]

theorem value?_obj {ms : List (String × Json)} (h : members? n cs = some (ms, rest)) :
    value? (n + 1) ('\x7b' :: cs) = some (obj ms, rest) := by
  simp only [value?, skipBlanks_cons (show isBlank '\x7b' = false by decide)]
  split
  · rename_i hClose
    rw [members?_close n hClose] at h
    cases h
  · simp [members?_skipBlanks, h]

theorem items?_last {j : Json}
    (hj : value? n cs = some (j, (newLine level).toList ++ ']' :: rest)) :
    items? (n + 1) cs = some ([j], rest) := by
  have hEnd : skipBlanks ((newLine level).toList ++ ']' :: rest) = ']' :: rest := by
    rw [skipBlanks_newLine, skipBlanks_cons (by decide)]
  simp [items?, hj, hEnd]

theorem items?_cons {j : Json} {js : List Json} {gap : List Char}
    (hj : value? n cs = some (j, ',' :: gap)) (hjs : items? n gap = some (js, rest)) :
    items? (n + 1) cs = some (j :: js, rest) := by
  have hComma : skipBlanks (',' :: gap) = ',' :: gap := skipBlanks_cons (by decide) gap
  simp [items?, hj, hComma, hjs]

theorem members?_last {key : String} {j : Json}
    (hj : value? n cs = some (j, (newLine level).toList ++ '\x7d' :: rest)) :
    members? (n + 1) ((quoted key).toList ++ ':' :: ' ' :: cs) = some ([(key, j)], rest) := by
  have hEnd : skipBlanks ((newLine level).toList ++ '\x7d' :: rest) = '\x7d' :: rest := by
    rw [skipBlanks_newLine, skipBlanks_cons (by decide)]
  simp [members?, toList_quoted, skipBlanks_cons, isBlank, string?_quoted, value?_space, hj, hEnd]

theorem members?_cons {key : String} {j : Json} {ms : List (String × Json)} {gap : List Char}
    (hj : value? n cs = some (j, ',' :: gap)) (hms : members? n gap = some (ms, rest)) :
    members? (n + 1) ((quoted key).toList ++ ':' :: ' ' :: cs) = some ((key, j) :: ms, rest) := by
  simp [members?, toList_quoted, skipBlanks_cons, isBlank, string?_quoted, value?_space, hj, hms]

/-! ### Values -/

/-- With this supply the readers read back every text, and every rest of a list or object, that
is shorter than the supply. -/
structure ReadsBack (n : Nat) : Prop where
  value : ∀ (level : Nat) (j : Json) (cs : List Char), (render level j).length < n →
    cs.takeWhile Char.isDigit = [] → value? n ((render level j).toList ++ cs) = some (j, cs)
  items : ∀ (level : Nat) (j : Json) (js : List Json) (cs : List Char),
    (render (level + 1) j).length + (renderItems level js).length < n →
    items? n ((render (level + 1) j).toList ++ ((renderItems level js).toList ++ cs))
      = some (j :: js, cs)
  members : ∀ (level : Nat) (key : String) (j : Json) (ms : List (String × Json))
    (cs : List Char), (render (level + 1) j).length + (renderMembers level ms).length < n →
    members? n ((quoted key).toList ++ ':' :: ' ' ::
        ((render (level + 1) j).toList ++ ((renderMembers level ms).toList ++ cs)))
      = some ((key, j) :: ms, cs)

namespace ReadsBack

theorem value_succ (h : ReadsBack n) (j : Json) (hn : (render level j).length < n + 1)
    (hcs : cs.takeWhile Char.isDigit = []) :
    value? (n + 1) ((render level j).toList ++ cs) = some (j, cs) := by
  cases j with
  | null => simp [render, value?, skipBlanks, isBlank]
  | bool b => cases b <;> simp [render, value?, skipBlanks, isBlank]
  | num m => exact value?_numeral n m hcs
  | str s => simp [render, toList_quoted, value?, skipBlanks, isBlank, string?_quoted]
  | arr js =>
      cases js with
      | nil => simp [render, value?, skipBlanks, isBlank]
      | cons j js =>
          simp only [render, String.length_append, length_newLine] at hn
          have hItems := h.items level j js cs (by omega)
          -- the first item stands on a line of its own
          rw [← items?_newLine n (level + 1)] at hItems
          simpa [render] using value?_arr hItems
  | obj ms =>
      cases ms with
      | nil => simp [render, value?, skipBlanks, isBlank]
      | cons m ms =>
          obtain ⟨key, j⟩ := m
          simp only [render, String.length_append, length_newLine] at hn
          have hMembers := h.members level key j ms cs (by omega)
          rw [← members?_newLine n (level + 1)] at hMembers
          simpa [render] using value?_obj hMembers

theorem items_succ (h : ReadsBack n) (j : Json) (js : List Json)
    (hn : (render (level + 1) j).length + (renderItems level js).length < n + 1) :
    items? (n + 1) ((render (level + 1) j).toList ++ ((renderItems level js).toList ++ cs))
      = some (j :: js, cs) := by
  cases js with
  | nil =>
      simp only [renderItems, String.length_append, length_newLine] at hn
      have hRead := h.value (level + 1) j ((newLine level).toList ++ ']' :: cs) (by omega)
        (takeWhile_isDigit_newLine level _)
      simpa [renderItems] using items?_last hRead
  | cons j' js =>
      simp only [renderItems, String.length_append, length_newLine] at hn
      have hRead := h.value (level + 1) j (',' :: ((newLine (level + 1)).toList
        ++ ((render (level + 1) j').toList ++ ((renderItems level js).toList ++ cs))))
        (by omega) rfl
      have hRest := h.items level j' js cs (by omega)
      rw [← items?_newLine n (level + 1)] at hRest
      simpa [renderItems] using items?_cons hRead hRest

theorem members_succ (h : ReadsBack n) (key : String) (j : Json) (ms : List (String × Json))
    (hn : (render (level + 1) j).length + (renderMembers level ms).length < n + 1) :
    members? (n + 1) ((quoted key).toList ++ ':' :: ' ' ::
        ((render (level + 1) j).toList ++ ((renderMembers level ms).toList ++ cs)))
      = some ((key, j) :: ms, cs) := by
  cases ms with
  | nil =>
      simp only [renderMembers, String.length_append, length_newLine] at hn
      have hRead := h.value (level + 1) j ((newLine level).toList ++ '\x7d' :: cs)
        (by omega) (takeWhile_isDigit_newLine level _)
      simpa [renderMembers] using members?_last hRead
  | cons m ms =>
      obtain ⟨key', j'⟩ := m
      simp only [renderMembers, String.length_append, length_newLine] at hn
      have hRead := h.value (level + 1) j (',' :: ((newLine (level + 1)).toList
        ++ ((quoted key').toList ++ ':' :: ' ' :: ((render (level + 1) j').toList
          ++ ((renderMembers level ms).toList ++ cs))))) (by omega) rfl
      have hRest := h.members level key' j' ms cs (by omega)
      rw [← members?_newLine n (level + 1)] at hRest
      simpa [renderMembers] using members?_cons hRead hRest

end ReadsBack

/-- Any supply will do, by induction on it: what is read in a step is read with one step less. -/
theorem readsBack (n : Nat) : ReadsBack n := by
  induction n with
  | zero =>
      -- no text is shorter than the supply
      exact ⟨fun _ _ _ h => absurd h (Nat.not_lt_zero _),
        fun _ _ _ _ h => absurd h (Nat.not_lt_zero _),
        fun _ _ _ _ _ h => absurd h (Nat.not_lt_zero _)⟩
  | succ n ih =>
      exact ⟨fun _ j _ hn hcs => ih.value_succ j hn hcs, fun _ j js _ hn => ih.items_succ j js hn,
        fun _ key j ms _ hn => ih.members_succ key j ms hn⟩

/-! ### Whole texts -/

/-- **A written text is read back** as the value it was written for, whatever blanks follow. -/
theorem read?_pretty_append (j : Json) {gap : String} (h : gap.toList.all isBlank = true) :
    read? (j.pretty ++ gap) = some j := by
  -- the blanks end the value, even if that is a number
  have hDigits : gap.toList.takeWhile Char.isDigit = [] := by
    cases hGap : gap.toList with
    | nil => rfl
    | cons c cs =>
        have hc : isBlank c = true := by simp_all
        rw [List.takeWhile_cons_of_neg]
        exact fun hDigit => by simp [isBlank_eq_false_of_isDigit hDigit] at hc
  have hLength : j.pretty.length < (j.pretty ++ gap).length + 1 := by
    rw [String.length_append]
    omega
  have hRead : value? ((j.pretty ++ gap).length + 1) (j.pretty ++ gap).toList
      = some (j, gap.toList) := by
    rw [String.toList_append]
    exact (readsBack _).value 0 j gap.toList hLength hDigits
  rw [read?, hRead]
  exact if_pos h

end Json
end MonkeyLang
