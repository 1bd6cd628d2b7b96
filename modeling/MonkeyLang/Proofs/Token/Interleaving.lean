import MonkeyLang.Proofs.Token.Segmentation

/-!
# Interleaving — one lexer asked in both ways

Pulls on a lexer come down to single calls: one call for a token, one for an item, and for a
collect as many calls for an item as it takes until one of them gives nothing (`Lexer.Makes`).
However the pulls are mixed, every collect ends, and the calls that scan give the tokens of the
text in order, with the end of input behind them for ever.  A call for an item gives nothing exactly
if an earlier one gave the end of input; that a call for a token gave it does not count
(`calls_read_on`).

One call moves the lexer on by one token or leaves it alone, so what is said of the calls behind it
carries over to the calls from it on.
-/

namespace MonkeyLang
namespace Lexer

/-! ## Single calls -/

/-- A call on a lexer with what it gave: `nextToken` a token, `next?` a token or nothing. -/
inductive Call
  | token (t : Token)
  | item (t? : Option Token)
  deriving DecidableEq

namespace Call

/-- The token that a call gave. -/
def given : Call → Option Token
  | token t => some t
  | item t? => t?

/-- Whether this is a call of `next?` that gave the end of input. -/
def ends : Call → Bool
  | token _ => false
  | item t? => t?.any (·.kind = .eof)

/-- The calls that scan: every call of `nextToken`, and those of `next?` up to the one that gives
the end of input.  `ended` says that an earlier call of `next?` has given it. -/
def scanning (ended : Bool) : List Call → List Call
  | [] => []
  | token t :: cs => token t :: scanning ended cs
  | item t? :: cs =>
      if ended then scanning ended cs else item t? :: scanning (item t?).ends cs

end Call

/-- The calls that a pull was answered by. -/
def Pulled.calls : Pulled → List Call
  | token t => [.token t]
  | item t? => [.item t?]
  | items ts => ts.map (fun t => .item (some t)) ++ [.item none]

/-- Pulls that are answered one after the other make these calls on the lexer.  A collect is a call
of `next?`, and as long as it gives a token, the same collect again. -/
inductive Makes : Lexer → List Pull → List Call → Prop
  | nil {l : Lexer} : Makes l [] []
  | token {l l' : Lexer} {t : Token} {ps : List Pull} {cs : List Call}
      (h : l.nextToken = (t, l')) (hRest : Makes l' ps cs) : Makes l (.token :: ps) (.token t :: cs)
  | item {l l' : Lexer} {t? : Option Token} {ps : List Pull} {cs : List Call}
      (h : l.next? = (t?, l')) (hRest : Makes l' ps cs) : Makes l (.item :: ps) (.item t? :: cs)
  | stop {l l' : Lexer} {ps : List Pull} {cs : List Call} (h : l.next? = (none, l'))
      (hRest : Makes l' ps cs) : Makes l (.items :: ps) (.item none :: cs)
  | again {l l' : Lexer} {t : Token} {ps : List Pull} {cs : List Call}
      (h : l.next? = (some t, l')) (hRest : Makes l' (.items :: ps) cs) :
      Makes l (.items :: ps) (.item (some t) :: cs)

/-- A collect ends: it gives nothing after finitely many tokens. -/
theorem makes_collect {l : Lexer} {ps : List Pull} {cs : List Call} (h : Makes l.collect.2 ps cs) :
    Makes l (.items :: ps) ((Pulled.items l.collect.1).calls ++ cs) := by
  induction l using Lexer.collect.induct with
  | case1 l l' hNext =>
      rw [collect_of_none hNext] at h ⊢
      exact .stop hNext h
  | case2 l t l' hNext _ _ _ ih =>
      rw [collect_of_some hNext] at h ⊢
      exact .again hNext (ih h)

theorem makes_pulls (l : Lexer) (ps : List Pull) :
    Makes l ps ((l.pulls ps).flatMap Pulled.calls) := by
  induction ps generalizing l with
  | nil => exact .nil
  | cons p ps ih =>
      cases p with
      | token => exact .token rfl (ih l.nextToken.2)
      | item => exact .item rfl (ih l.next?.2)
      | items => exact makes_collect (ih l.collect.2)

/-- The answers to the pulls are those calls, and there are no others. -/
theorem makes_iff {l : Lexer} {ps : List Pull} {cs : List Call} :
    Makes l ps cs ↔ cs = (l.pulls ps).flatMap Pulled.calls := by
  constructor
  · intro h
    induction h with
    | nil => rfl
    | token h _ ih => simp [pulls, pull, Pulled.calls, h, ih]
    | item h _ ih => simp [pulls, pull, Pulled.calls, h, ih]
    | stop h _ ih => simp [pulls, pull, Pulled.calls, collect_of_none h, ih]
    | again h _ ih => simp [pulls, pull, Pulled.calls, collect_of_some h, ih]
  · rintro rfl
    exact makes_pulls l ps

/-! ## What one call does to the lexer -/

theorem fst_nextToken (l : Lexer) : l.nextToken.1 = (Token.lexemes l.rest).headD .eof := by
  rw [nextToken]
  cases h : Token.next? l.rest with
  | none => rw [Token.lexemes_of_next?_eq_none h, List.headD_nil]
  | some r => rw [Token.lexemes_of_next? h, List.headD_cons]

theorem lexemes_nextToken (l : Lexer) :
    Token.lexemes l.nextToken.2.rest = (Token.lexemes l.rest).tail := by
  rw [nextToken]
  cases h : Token.next? l.rest with
  | none =>
      rw [Token.lexemes_of_next?_eq_none h, List.tail_nil]
      exact Token.lexemes_of_next?_eq_none rfl
  | some r => rw [Token.lexemes_of_next? h, List.tail_cons]

/-! ## Calls in a row -/

/-- The calls gave the tokens in order, and the end of input behind them. -/
def InStep (ts : List Token) (cs : List Call) : Prop :=
  ∀ k c, cs[k]? = some c → c.given = some (ts.getD k .eof)

theorem InStep.cons {ts : List Token} {c : Call} {cs : List Call}
    (hc : c.given = some (ts.headD .eof)) (h : InStep ts.tail cs) : InStep ts (c :: cs) := by
  intro k d hd
  cases k with
  | zero =>
      rw [← Option.some.inj hd, hc]
      cases ts <;> rfl
  | succ k =>
      rw [h k d hd]
      cases ts <;> rfl

/-- A call of `next?` gave nothing exactly if an earlier one gave the end of input, or one in front
of all the calls did. -/
def Fused (ended : Bool) (cs : List Call) : Prop :=
  ∀ i t?, cs[i]? = some (.item t?) → (t? = none ↔ (ended || (cs.take i).any Call.ends) = true)

theorem Fused.cons {ended : Bool} {c : Call} {cs : List Call}
    (hc : ∀ t?, c = .item t? → (t? = none ↔ ended = true)) (h : Fused (ended || c.ends) cs) :
    Fused ended (c :: cs) := by
  intro i t? hItem
  cases i with
  | zero => simpa using hc t? (Option.some.inj hItem)
  | succ i =>
      rw [List.take_succ_cons, List.any_cons, ← Bool.or_assoc]
      exact h i t? hItem

section Fused

variable {ended : Bool} {cs : List Call} {c d : Call} {i j : Nat}

theorem any_ends_take (hi : cs[i]? = some c) (hc : c.ends = true) (hij : i < j) :
    (cs.take j).any Call.ends = true := by
  have hMem : c ∈ cs.take j := List.mem_of_getElem? ((List.getElem?_take_of_lt hij).trans hi)
  exact List.any_eq_true.2 ⟨c, hMem, hc⟩

/-- Behind a call of `next?` that gave nothing, all of them give nothing. -/
theorem Fused.none_of_lt (h : Fused ended cs) {t? : Option Token} (hij : i < j)
    (hi : cs[i]? = some (.item none)) (hj : cs[j]? = some (.item t?)) : t? = none := by
  refine (h j t? hj).2 ?_
  rcases Bool.or_eq_true_iff.1 ((h i none hi).1 rfl) with hEnded | hAny
  · rw [hEnded, Bool.true_or]
  · rcases List.any_eq_true.1 hAny with ⟨e, he, hEnds⟩
    have hLater : e ∈ cs.take j := (List.take_subset_take_left cs (Nat.le_of_lt hij)) he
    rw [List.any_eq_true.2 ⟨e, hLater, hEnds⟩, Bool.or_true]

theorem Fused.ends_eq_false (h : Fused ended cs) (hi : cs[i]? = some c) (hc : c.ends = true)
    (hij : i < j) (hj : cs[j]? = some d) : d.ends = false := by
  cases d with
  | token t => rfl
  | item t? =>
      have hNothing : t? = none := (h j t? hj).2 (by rw [any_ends_take hi hc hij, Bool.or_true])
      rw [hNothing]
      rfl

/-- At most one call of `next?` gave the end of input. -/
theorem Fused.eq_of_ends (h : Fused ended cs) (hi : cs[i]? = some c) (hc : c.ends = true)
    (hj : cs[j]? = some d) (hd : d.ends = true) : i = j := by
  rcases Nat.lt_trichotomy i j with hij | hij | hij
  · rw [h.ends_eq_false hi hc hij hj] at hd
    cases hd
  · exact hij
  · rw [h.ends_eq_false hj hd hij hi] at hc
    cases hc

end Fused

/-! ## Calls on a lexer -/

/-- The calls are as a lexer answers them: those that scan give the tokens that are left, and those
of `next?` give nothing once the end of input was given. -/
structure ReadsOn (l : Lexer) (cs : List Call) : Prop where
  inStep : InStep (Token.lexemes l.rest) (Call.scanning l.finished cs)
  fused : Fused l.finished cs

section ReadsOn

variable {l l' : Lexer} {cs : List Call}

theorem ReadsOn.nil : ReadsOn l [] :=
  ⟨nofun, nofun⟩

theorem ReadsOn.token {t : Token} (h : l.nextToken = (t, l')) (hRest : ReadsOn l' cs) :
    ReadsOn l (.token t :: cs) := by
  obtain rfl : l.nextToken.1 = t := congrArg Prod.fst h
  obtain rfl : l.nextToken.2 = l' := congrArg Prod.snd h
  have hStep := hRest.inStep
  have hFused := hRest.fused
  rw [finished_nextToken] at hStep hFused
  rw [lexemes_nextToken] at hStep
  refine ⟨hStep.cons (congrArg some (fst_nextToken l)), Fused.cons nofun ?_⟩
  rwa [Call.ends, Bool.or_false]

theorem ReadsOn.item {t? : Option Token} (h : l.next? = (t?, l')) (hRest : ReadsOn l' cs) :
    ReadsOn l (.item t? :: cs) := by
  cases hEnded : l.finished with
  | true =>
      -- the call leaves the lexer alone and does not scan
      rw [next?_of_finished hEnded] at h
      cases h
      have hNothing : ∀ u?, Call.item none = .item u? → (u? = none ↔ l.finished = true) := by
        rintro _ ⟨⟩
        exact iff_of_true rfl hEnded
      refine ⟨?_, Fused.cons hNothing ?_⟩
      · rw [Call.scanning, if_pos hEnded]
        exact hRest.inStep
      · rw [hEnded, Bool.true_or, ← hEnded]
        exact hRest.fused
  | false =>
      rw [next?_of_not_finished hEnded] at h
      cases h
      have hGiven : ∀ u?, Call.item (some l.nextToken.1) = .item u? →
          (u? = none ↔ l.finished = true) := by
        rintro _ ⟨⟩
        exact iff_of_false nofun (by simp [hEnded])
      have hStep := hRest.inStep
      rw [lexemes_nextToken] at hStep
      refine ⟨?_, Fused.cons hGiven ?_⟩
      · rw [Call.scanning, if_neg (by simp [hEnded])]
        exact hStep.cons (congrArg some (fst_nextToken l))
      · rw [hEnded, Bool.false_or]
        exact hRest.fused

/-- Whatever the pulls, the lexer answers every call as it should. -/
theorem Makes.readsOn {ps : List Pull} (h : Makes l ps cs) : ReadsOn l cs := by
  induction h with
  | nil => exact .nil
  | token h _ ih => exact ih.token h
  | item h _ ih => exact ih.item h
  | stop h _ ih => exact ih.item h
  | again h _ ih => exact ih.item h

end ReadsOn

/-- However pulls are mixed on one lexer, they come down to one list of calls, so every collect
ends.  The calls that scan give the tokens of the text in order and the end of input behind them for
ever.  A call of `next?` gives nothing exactly if an earlier one gave the end of input; then all
later ones give nothing too, and so the end of input is given by one of them at most. -/
theorem calls_read_on (source : String) (ps : List Pull) :
    ∃ (ts : List Token) (cs : List Call),
      (∀ us, Token.Segmented source.toList us ↔ us = ts) ∧
      (∀ ds, Makes (ofString source) ps ds ↔ ds = cs) ∧
      ((ofString source).pulls ps).flatMap Pulled.calls = cs ∧
      (∀ k c, (Call.scanning false cs)[k]? = some c → c.given = some (ts.getD k .eof)) ∧
      (∀ (i : Nat) (t? : Option Token), cs[i]? = some (Call.item t?) →
        (t? = none ↔ (cs.take i).any Call.ends = true)) ∧
      (∀ (i j : Nat) (t? : Option Token), i < j → cs[i]? = some (Call.item none) →
        cs[j]? = some (Call.item t?) → t? = none) ∧
      ∀ (i j : Nat) (c d : Call), cs[i]? = some c → cs[j]? = some d → c.ends = true →
        d.ends = true → i = j := by
  have hReads := (makes_pulls (ofString source) ps).readsOn
  refine ⟨Token.lexemes source.toList, _, fun us => ?_, fun ds => makes_iff, rfl, hReads.inStep,
    hReads.fused, fun i j t? hij => hReads.fused.none_of_lt hij, ?_⟩
  · rw [Token.segmented_iff, eq_comm]
  · intro i j c d hi hj hc hd
    exact hReads.fused.eq_of_ends hi hc hj hd

/-- A call for a token runs past the end first.  The end of input is given to a call for an item all
the same, and only behind that one do a collect and a call for an item give nothing. -/
theorem calls_read_on_past_end :
    ∃ (ts : List Token) (cs : List Call),
      Makes (ofString "x") [.token, .token, .item, .items, .token, .item] cs ∧
      cs = [.token ⟨.ident, "x"⟩, .token .eof, .item (some .eof), .item none, .token .eof,
        .item none] ∧
      (Call.item (some .eof)).given = some (ts.getD 2 .eof) ∧
      (Call.token .eof).given = some (ts.getD 3 .eof) ∧
      (cs.take 2).any Call.ends = false ∧ (cs.take 3).any Call.ends = true := by
  rcases calls_read_on "x" [.token, .token, .item, .items, .token, .item] with
    ⟨ts, cs, -, hMakes, hPulls, hScanned, hNothing, -, -⟩
  have hCalls : cs = [.token ⟨.ident, "x"⟩, .token .eof, .item (some .eof), .item none,
      .token .eof, .item none] := by
    rw [← hPulls]
    decide +kernel
  have hItem : cs[2]? = some (.item (some .eof)) := by rw [hCalls]; rfl
  have hCollect : cs[3]? = some (.item none) := by rw [hCalls]; rfl
  have hThird : (Call.scanning false cs)[2]? = some (.item (some .eof)) := by rw [hCalls]; rfl
  have hFourth : (Call.scanning false cs)[3]? = some (.token .eof) := by rw [hCalls]; rfl
  have hBefore : (cs.take 2).any Call.ends ≠ true := fun h => nomatch (hNothing 2 _ hItem).2 h
  exact ⟨ts, cs, (hMakes cs).2 rfl, hCalls, hScanned 2 _ hThird, hScanned 3 _ hFourth,
    Bool.eq_false_iff.2 hBefore, (hNothing 3 none hCollect).1 rfl⟩

end Lexer
end MonkeyLang
