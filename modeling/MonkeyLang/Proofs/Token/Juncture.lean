import Mathlib.Data.List.Basic
import MonkeyLang.Proofs.Token.Segmentation

/-!
# Juncture — one text behind another

What stands behind a token matters only by its first character, and it matters only to the last
token of a text.  So the tokens of two texts, one behind the other, are those of the first and those
of the second exactly if the last token of the first is cut off where the second one starts.  A
semicolon always is, and before a blank every token is.  A word is not before a letter, a number
before a digit, and a mark that may be joined before an equals sign, and that is all
(`ofString_append_iff`).
-/

namespace MonkeyLang
namespace Token

/-! ## Behind one token -/

theorem EndsRun.congr {p : Char → Bool} {rest rest' : List Char} (h : EndsRun p rest)
    (hHead : rest.head? = rest'.head?) : EndsRun p rest' := by
  intro c hc
  exact h c (hHead ▸ hc)

/-- Of what stands behind a token only the first character counts. -/
theorem Demanded.congr {t : Token} {rest rest' : List Char} (h : Demanded t rest)
    (hHead : rest.head? = rest'.head?) : Demanded t rest' := by
  cases h with
  | number hne h hEnd => exact .number hne h (hEnd.congr hHead)
  | reserved hne h hEnd hk => exact .reserved hne h (hEnd.congr hHead) hk
  | name hne h hEnd hk => exact .name hne h (hEnd.congr hHead) hk
  | mark hk => exact .mark hk
  | joined hk => exact .joined hk
  | alone hk hEnd => exact .alone hk (hHead ▸ hEnd)
  | stray hc => exact .stray hc

/-- A token at the end of a text is demanded before a blank as well. -/
theorem Demanded.before_blank {t : Token} {c : Char} (h : Demanded t []) (hc : isBlank c = true)
    (rest : List Char) : Demanded t (c :: rest) := by
  have hClass : isLetter c = false ∧ isDigit c = false ∧ c ≠ '=' := by
    simp only [isBlank, Bool.or_eq_true, decide_eq_true_eq] at hc
    rcases hc with ((rfl | rfl) | rfl) | rfl <;> decide
  cases h with
  | number hne h _ => exact .number hne h (endsRun_cons hClass.2.1 rest)
  | reserved hne h _ hk => exact .reserved hne h (endsRun_cons hClass.1 rest) hk
  | name hne h _ hk => exact .name hne h (endsRun_cons hClass.1 rest) hk
  | mark hk => exact .mark hk
  | joined hk => exact .joined hk
  | alone hk _ => exact .alone hk fun hHead => hClass.2.2 (Option.some.inj hHead)
  | stray hc => exact .stray hc

/-- A semicolon is demanded before any text. -/
theorem Demanded.of_semicolon {t : Token} {rest : List Char} (h : Demanded t rest)
    (ht : t.kind = .semicolon) (rest' : List Char) : Demanded t rest' := by
  have hKeywords : ∀ entry ∈ Kind.keywords, entry.2 ≠ .semicolon := by decide
  have hJoining : ∀ ks ∈ joiningKinds, ks.1 ≠ .semicolon := by decide
  cases h with
  | number => cases ht
  | reserved _ _ _ hk => exact absurd ht (hKeywords _ hk)
  | name => cases ht
  | mark hk => exact .mark hk
  | joined hk => exact .joined hk
  | alone hk _ => exact absurd ht (hJoining _ hk)
  | stray hc => exact .stray hc

/-- No character of a token is a blank. -/
theorem Demanded.isBlank_eq_false {t : Token} {rest : List Char} (h : Demanded t rest) :
    ∀ c ∈ t.literal.toList, isBlank c = false := by
  have hMarks : ∀ k ∈ markKinds, (k.symbol.toList.all (!isBlank ·)) = true := by decide
  have hJoining : ∀ ks ∈ joiningKinds, (ks.1.symbol.toList.all (!isBlank ·)) = true ∧
      (ks.2.symbol.toList.all (!isBlank ·)) = true := by decide
  simp only [List.all_eq_true, Bool.not_eq_true'] at hMarks hJoining
  cases h with
  | number _ h _ =>
      rw [ofChars, String.toList_ofList]
      exact fun c hc => isBlank_of_isDigit (h c hc)
  | reserved _ h _ _ =>
      rw [ofChars, String.toList_ofList]
      exact fun c hc => isBlank_of_isLetter (h c hc)
  | name _ h _ _ =>
      rw [ofChars, String.toList_ofList]
      exact fun c hc => isBlank_of_isLetter (h c hc)
  | mark hk => exact hMarks _ hk
  | joined hk => exact (hJoining _ hk).2
  | alone hk _ => exact (hJoining _ hk).1
  | stray hc =>
      rw [ofChars, String.toList_ofList, List.forall_mem_singleton]
      exact hc.blank

/-! ## Behind a whole text -/

/-- The last token of the text is `t`, and no blank stands behind it. -/
def EndsIn (cs : List Char) (t : Token) : Prop :=
  (lexemes cs).getLast? = some t ∧ ∀ c ∈ cs.getLast?, isBlank c = false

theorem lexemes_nil : lexemes [] = [] :=
  lexemes_of_segmented (.nil (List.forall_mem_nil _))

theorem EndsIn.ne_nil {cs : List Char} {t : Token} (h : EndsIn cs t) : cs ≠ [] := by
  rintro rfl
  rw [EndsIn, lexemes_nil] at h
  cases h.1

/-- The last token of a text that is not used up by its first one is the last one behind that. -/
theorem Segmented.endsIn_iff {gap rest : List Char} {t u : Token} {ts : List Token}
    (h : Segmented (gap ++ (t.literal.toList ++ rest)) (t :: ts)) (hRest : Segmented rest ts)
    (hNonempty : rest ≠ []) :
    EndsIn (gap ++ (t.literal.toList ++ rest)) u ↔ EndsIn rest u := by
  rw [EndsIn, EndsIn, lexemes_of_segmented h, lexemes_of_segmented hRest,
    List.getLast?_append_of_ne_nil _ (by simp [hNonempty]),
    List.getLast?_append_of_ne_nil _ hNonempty]
  refine and_congr_left fun hEnd => ?_
  cases hRest with
  | nil hBlanks =>
      -- the text would end in a blank
      have hBlank := hBlanks _ (List.getLast_mem hNonempty)
      rw [hEnd _ (List.getLast?_eq_some_getLast hNonempty)] at hBlank
      cases hBlank
  | cons => rw [List.getLast?_cons_cons]

/-- Two texts are cut where they meet, if the last token of the first one ends there. -/
theorem Segmented.append {a b : List Char} {ts us : List Token} (ha : Segmented a ts)
    (hb : Segmented b us) (hJoin : ∀ t, EndsIn a t → Demanded t [] → Demanded t b) :
    Segmented (a ++ b) (ts ++ us) := by
  induction ha with
  | nil hGap => exact hb.blanks hGap
  | @cons gap rest t ts hGap ht hRest ih =>
      have hWhole := Segmented.cons hGap ht hRest
      have hTail : Segmented (rest ++ b) (ts ++ us) :=
        ih fun u hu => hJoin u ((hWhole.endsIn_iff hRest hu.ne_nil).2 hu)
      have hFirst : Demanded t (rest ++ b) := by
        cases rest with
        | cons c rest => exact ht.congr rfl
        | nil =>
            -- nothing of the first text is left, so this is its last token
            have hLast : ts = [] := by rw [← lexemes_of_segmented hRest, lexemes_nil]
            subst hLast
            refine hJoin t ⟨by rw [lexemes_of_segmented hWhole]; rfl, ?_⟩ ht
            rw [List.append_nil, List.getLast?_append_of_ne_nil _ (by simpa using ht.proper.1)]
            exact fun c hc => ht.isBlank_eq_false c (List.mem_of_getLast? hc)
      have hBoth := Segmented.cons hGap hFirst hTail
      simpa only [List.append_assoc, List.cons_append] using hBoth

/-- Behind a semicolon a text is cut as if it stood alone. -/
theorem lexemes_append_of_semicolon {a : List Char}
    (h : ∀ t, (lexemes a).getLast? = some t → t.kind = .semicolon) (b : List Char) :
    lexemes (a ++ b) = lexemes a ++ lexemes b :=
  lexemes_of_segmented ((segmented_lexemes a).append (segmented_lexemes b)
    fun t ht hEnd => hEnd.of_semicolon (h t ht.1) b)

/-- Blanks behind a text are no tokens. -/
theorem lexemes_append_blanks {gap : List Char} (hGap : ∀ c ∈ gap, isBlank c = true)
    (a : List Char) : lexemes (a ++ gap) = lexemes a := by
  have hWhole : Segmented (a ++ gap) (lexemes a ++ []) := by
    refine (segmented_lexemes a).append (.nil hGap) fun t _ hEnd => ?_
    cases gap with
    | nil => exact hEnd
    | cons c gap => exact hEnd.before_blank (hGap c List.mem_cons_self) gap
  rw [lexemes_of_segmented hWhole, List.append_nil]

/-! ## Texts that run into each other -/

/-- What a segmentation begins with can be read off the text. -/
theorem Segmented.of_cons {gap rest rest' : List Char} {t : Token} {ts : List Token}
    (hGap : ∀ c ∈ gap, isBlank c = true) (ht : Demanded t rest')
    (h : Segmented (gap ++ (t.literal.toList ++ rest)) (t :: ts)) :
    Demanded t rest ∧ Segmented rest ts := by
  -- the blanks in front end where the token begins, whatever stands behind it
  have hStart : ∀ (gap more : List Char), (∀ c ∈ gap, isBlank c = true) →
      (gap ++ (t.literal.toList ++ more)).dropWhile isBlank = t.literal.toList ++ more := by
    intro gap more hGap
    cases hText : t.literal.toList with
    | nil => exact absurd (String.toList_eq_nil_iff.1 hText) ht.proper.1
    | cons c cs =>
        have hc : isBlank c = false :=
          ht.isBlank_eq_false c (by rw [hText]; exact List.mem_cons_self)
        rw [List.dropWhile_append_of_pos hGap, List.cons_append,
          List.dropWhile_cons_of_neg (by simp [hc])]
  generalize hCut : gap ++ (t.literal.toList ++ rest) = cs at h
  cases h with
  | @cons gap' rest₁ _ _ hGap' ht' hRest =>
      have hDropped := congrArg (List.dropWhile isBlank) hCut
      rw [hStart gap rest hGap, hStart gap' rest₁ hGap', List.append_cancel_left_eq] at hDropped
      subst hDropped
      exact ⟨ht', hRest⟩

/-- If two texts are cut where they meet, the last token of the first is demanded there. -/
theorem Segmented.demanded_of_append {a b : List Char} {ts us : List Token} {t : Token}
    (ha : Segmented a ts) (h : Segmented (a ++ b) (ts ++ us)) (ht : EndsIn a t) :
    Demanded t b := by
  induction ha with
  | nil hGap =>
      rw [EndsIn, lexemes_of_segmented (.nil hGap)] at ht
      cases ht.1
  | @cons gap rest u ts hGap hu hRest ih =>
      rw [List.append_assoc, List.append_assoc, List.cons_append] at h
      have hBehind := Segmented.of_cons hGap hu h
      by_cases hEnd : rest = []
      · subst hEnd
        have hLast := ht.1
        rw [lexemes_of_segmented (.cons hGap hu hRest), ← lexemes_of_segmented hRest,
          lexemes_nil] at hLast
        cases hLast
        exact hBehind.1
      · exact ih hBehind.2 (((Segmented.cons hGap hu hRest).endsIn_iff hRest hEnd).1 ht)

/-- Whether a token of the kind goes on in a character directly behind it: a word does in a letter,
a number in a digit, and a mark that may be joined in an equals sign. -/
def goesOn (k : Kind) (c : Char) : Bool :=
  match k with
  | .ident | .fnWord | .letWord | .trueWord | .falseWord | .ifWord | .elseWord | .returnWord =>
      isLetter c
  | .int => isDigit c
  | .assign | .bang | .lt | .gt => c = '='
  | _ => false

theorem goesOn_of_keyword {word : String} {k : Kind} (hk : (word, k) ∈ Kind.keywords) (c : Char) :
    goesOn k c = isLetter c := by
  simp only [Kind.keywords, List.mem_cons, Prod.mk.injEq, List.not_mem_nil, or_false] at hk
  rcases hk with ⟨-, rfl⟩ | ⟨-, rfl⟩ | ⟨-, rfl⟩ | ⟨-, rfl⟩ | ⟨-, rfl⟩ | ⟨-, rfl⟩ | ⟨-, rfl⟩ <;> rfl

theorem goesOn_of_joining {alone pair : Kind} (hk : (alone, pair) ∈ joiningKinds) (c : Char) :
    goesOn alone c = decide (c = '=') ∧ goesOn pair c = false := by
  simp only [joiningKinds, List.mem_cons, Prod.mk.injEq, List.not_mem_nil, or_false] at hk
  rcases hk with ⟨rfl, rfl⟩ | ⟨rfl, rfl⟩ | ⟨rfl, rfl⟩ | ⟨rfl, rfl⟩ <;> exact ⟨rfl, rfl⟩

/-- The kinds of tokens that go on in nothing. -/
def closedKinds : List Kind :=
  .illegal :: joiningKinds.map Prod.snd ++ markKinds

theorem goesOn_of_closed {k : Kind} (hk : k ∈ closedKinds) (c : Char) : goesOn k c = false := by
  revert hk
  cases k <;> first | exact fun _ => rfl | exact fun hk => absurd hk (by decide)

theorem Demanded.goesOn_eq_false {t : Token} {rest : List Char} (h : Demanded t rest) :
    ∀ c ∈ rest.head?, goesOn t.kind c = false := by
  intro c hc
  cases h with
  | number _ _ hEnd => exact hEnd c hc
  | reserved _ _ hEnd hk => exact (goesOn_of_keyword hk c).trans (hEnd c hc)
  | name _ _ hEnd _ => exact hEnd c hc
  | mark hk => exact goesOn_of_closed (List.mem_append_right _ hk) c
  | joined hk => exact (goesOn_of_joining hk c).2
  | alone hk hEnd =>
      rw [(goesOn_of_joining hk c).1, decide_eq_false_iff_not]
      rintro rfl
      exact hEnd hc
  | stray => rfl

/-- A token at the end of a text is demanded before any text that it does not go on in. -/
theorem Demanded.of_goesOn_eq_false {t : Token} {rest : List Char} (h : Demanded t [])
    (hRest : ∀ c ∈ rest.head?, goesOn t.kind c = false) : Demanded t rest := by
  cases h with
  | number hne h _ => exact .number hne h hRest
  | reserved hne h _ hk =>
      exact .reserved hne h (fun c hc => (goesOn_of_keyword hk c).symm.trans (hRest c hc)) hk
  | name hne h _ hk => exact .name hne h hRest hk
  | mark hk => exact .mark hk
  | joined hk => exact .joined hk
  | alone hk _ =>
      refine .alone hk fun hHead => ?_
      have hEquals := hRest '=' hHead
      rw [(goesOn_of_joining hk '=').1] at hEquals
      cases hEquals
  | stray hc => exact .stray hc

/-- The first text ends in a token that goes on in the first character of the second. -/
def Glued (a b : List Char) : Prop :=
  ∃ t c, EndsIn a t ∧ b.head? = some c ∧ goesOn t.kind c = true

theorem lexemes_append_iff {a b : List Char} :
    lexemes (a ++ b) = lexemes a ++ lexemes b ↔ ¬ Glued a b := by
  constructor
  · rintro hCut ⟨t, c, ht, hc, hGoes⟩
    have hSegmented := segmented_lexemes (a ++ b)
    rw [hCut] at hSegmented
    have hDemanded := (segmented_lexemes a).demanded_of_append hSegmented ht
    rw [hDemanded.goesOn_eq_false c hc] at hGoes
    cases hGoes
  · intro hGlued
    refine lexemes_of_segmented ((segmented_lexemes a).append (segmented_lexemes b) ?_)
    intro t ht hEnd
    refine hEnd.of_goesOn_eq_false fun c hc => ?_
    cases hGoes : goesOn t.kind c with
    | false => rfl
    | true => exact absurd ⟨t, c, ht, hc, hGoes⟩ hGlued

theorem dropLast_ofString (source : String) :
    (ofString source).dropLast = lexemes source.toList :=
  List.dropLast_concat

/-- The tokens of two texts, one behind the other, are those of the first without its end and those
of the second, exactly if the first one does not go on in the second.  Blanks between two texts keep
them apart, and so does a last token of any kind that goes on in nothing. -/
theorem ofString_append_iff :
    (∀ a b : String, ofString (a ++ b) = (ofString a).dropLast ++ ofString b ↔
      ¬ Glued a.toList b.toList) ∧
    (∀ a gap b : String, gap ≠ "" → (∀ c ∈ gap.toList, isBlank c = true) →
      ofString (a ++ gap ++ b) = (ofString a).dropLast ++ ofString b) ∧
    ∀ (a b : String) (t : Token), (ofString a).dropLast.getLast? = some t →
      t.kind ∈ closedKinds → ofString (a ++ b) = (ofString a).dropLast ++ ofString b := by
  have hIff : ∀ a b : String, ofString (a ++ b) = (ofString a).dropLast ++ ofString b ↔
      ¬ Glued a.toList b.toList := by
    intro a b
    rw [dropLast_ofString, ← lexemes_append_iff, ofString, ofString, String.toList_append,
      ← List.append_assoc, List.append_cancel_right_eq]
  refine ⟨hIff, fun a gap b hNonempty hGap => ?_, fun a b t ht hk => (hIff a b).2 ?_⟩
  · have hFirst : (ofString a).dropLast = (ofString (a ++ gap)).dropLast := by
      rw [dropLast_ofString, dropLast_ofString, String.toList_append, lexemes_append_blanks hGap]
    rw [hFirst, hIff]
    rintro ⟨t, c, ht, -, -⟩
    have hne : gap.toList ≠ [] := fun hNil => hNonempty (String.toList_eq_nil_iff.1 hNil)
    have hBlank := hGap _ (List.getLast_mem hne)
    rw [ht.2 _ ?_] at hBlank
    · cases hBlank
    · rw [String.toList_append, List.getLast?_append_of_ne_nil _ hne]
      exact List.getLast?_eq_some_getLast hne
  · rintro ⟨u, c, hu, -, hGoes⟩
    rw [dropLast_ofString, hu.1] at ht
    cases ht
    rw [goesOn_of_closed hk] at hGoes
    cases hGoes

/-- A carriage return behind a keyword, a second equals sign behind a pair of them, and one behind a
single one. -/
theorem ofString_append_iff_sample :
    ofString ("let" ++ "\r" ++ "x") = (ofString "let").dropLast ++ ofString "x" ∧
      ofString ("a ==" ++ "=1") = (ofString "a ==").dropLast ++ ofString "=1" ∧
      ofString ("a =" ++ "=1") ≠ (ofString "a =").dropLast ++ ofString "=1" := by
  have hBlank : ∀ c ∈ "\r".toList, isBlank c = true := List.all_eq_true.1 (by decide)
  have hPair : (ofString "a ==").dropLast.getLast? = some ⟨.eq, "=="⟩ := by decide +kernel
  have hLast : "a =".toList.getLast? = some '=' := by decide
  have hEnd : EndsIn "a =".toList ⟨.assign, "="⟩ := by
    refine ⟨by decide +kernel, fun c hc => ?_⟩
    rw [← Option.some.inj (hLast.symm.trans hc)]
    rfl
  have hGlued : Glued "a =".toList "=1".toList := ⟨⟨.assign, "="⟩, '=', hEnd, rfl, rfl⟩
  exact ⟨ofString_append_iff.2.1 "let" "\r" "x" (by decide) hBlank,
    ofString_append_iff.2.2 "a ==" "=1" _ hPair (by decide),
    fun h => (ofString_append_iff.1 "a =" "=1").1 h hGlued⟩

end Token
end MonkeyLang
