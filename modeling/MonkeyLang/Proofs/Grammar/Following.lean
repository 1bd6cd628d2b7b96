import MonkeyLang.Proofs.Grammar.Cursor
import MonkeyLang.Proofs.Grammar.Derivation

/-!
# Following — the cursor does what the reader does

A walk of the cursor follows a reading of `Grammar` if it ends with the value and the defects of the
reading, and the tokens left behind the one in hand are those that the reading leaves
(`Walk.Follows`).  For each function of the reader there is a walk that follows it, if the walks
follow that it is made of; so all of them do, by the recursion of the reader (`Walk.follows`).

What makes a walk end is that it lets go of a token before it goes on inside.  Where an expression
or a block begins within an expression, fewer tokens are left than where that one began
(`Cursor.Fresh`).
-/

namespace MonkeyLang

open Reading (lookahead)

theorem kind_headD (ts : List Token) : (ts.headD .eof).kind = lookahead ts := by
  cases ts <;> rfl

/-- At the beginning of what is read, fewer tokens are left than at the beginning of every
expression around it. -/
def Entry.Shrinks (e : Entry) : Prop :=
  ∀ n ∈ e.around, e.unread < n

namespace Cursor

/-- The tokens that the cursor has not passed, the one in hand first. -/
structure Stands (c : Cursor) (ts : List Token) : Prop where
  current : c.current = ts.headD .eof
  peek : c.peek = ts.tail.headD .eof
  rest : c.rest = ts.tail.tail

theorem stands_ofTokens (ts : List Token) : (ofTokens ts).Stands ts :=
  ⟨rfl, rfl, rfl⟩

namespace Stands

variable {c : Cursor} {ts : List Token}

theorem next (h : c.Stands ts) : c.next.Stands ts.tail where
  current := h.peek
  peek := by rw [Cursor.next, h.rest]
  rest := by rw [Cursor.next, h.rest]

theorem unread_eq (h : c.Stands ts) (hts : ∀ t ∈ ts, t.kind ≠ .eof) : c.unread = ts.length := by
  unfold Cursor.unread
  rw [h.current, h.peek, h.rest]
  match ts with
  | [] => decide
  | [t] => simp_all [Token.eof]
  | t :: u :: ts =>
      have hAll : List.countP (fun t => decide (t.kind ≠ .eof)) (t :: u :: ts) =
          (t :: u :: ts).length := by
        rw [List.countP_eq_length]
        simpa using hts
      simpa using hAll

end Stands

/-- What the cursor `c₀` in front of the tokens `ts` has become when it has come to the token of
number `j`: it has seen the tokens up to there one after the other, and whatever was begun on the
way has begun behind the expressions around it. -/
structure Passed (c₀ : Cursor) (ts : List Token) (j : Nat) (c : Cursor) : Prop where
  stands : c.Stands (ts.drop j)
  seen : c.seen = c₀.seen ++ (List.range j).map fun i => (ts.drop (i + 1)).headD .eof
  entries : ∀ e ∈ c.entries, e ∈ c₀.entries ∨ e.Shrinks

/-- Fewer tokens are left at the token of number `j` than the numbers say. -/
def Fresh (ts : List Token) (around : List Nat) (j : Nat) : Prop :=
  ∀ n ∈ around, ts.length - j < n

theorem Fresh.nil (ts : List Token) (j : Nat) : Fresh ts [] j := by
  intro n hn
  cases hn

theorem Fresh.mono {ts : List Token} {around : List Nat} {j k : Nat} (h : Fresh ts around j)
    (hjk : j ≤ k) : Fresh ts around k := by
  intro n hn
  have := h n hn
  omega

namespace Passed

variable {c₀ c : Cursor} {ts : List Token} {j : Nat}

theorem start (h : c.Stands ts) : c.Passed ts 0 c where
  stands := h
  seen := by simp
  entries e he := .inl he

theorem next (h : c₀.Passed ts j c) : c₀.Passed ts (j + 1) c.next where
  stands := by
    have hNext := h.stands.next
    rwa [List.tail_drop] at hNext
  seen := by
    have hPeek := h.stands.peek
    rw [List.tail_drop] at hPeek
    rw [Cursor.next, h.seen, hPeek, List.range_succ, List.map_append, List.append_assoc]
    rfl
  entries := h.entries

theorem report (h : c₀.Passed ts j c) (error : SyntaxError) :
    c₀.Passed ts j (c.report error) :=
  ⟨⟨h.stands.current, h.stands.peek, h.stands.rest⟩, h.seen, h.entries⟩

theorem unread_eq (h : c₀.Passed ts j c) (hts : ∀ t ∈ ts, t.kind ≠ .eof) :
    c.unread = ts.length - j := by
  rw [h.stands.unread_eq fun t ht => hts t (List.mem_of_mem_drop ht), List.length_drop]

theorem enter (h : c₀.Passed ts j c) (hts : ∀ t ∈ ts, t.kind ≠ .eof) {around : List Nat}
    (hFresh : Fresh ts around j) : c₀.Passed ts j (c.enter around) where
  stands := ⟨h.stands.current, h.stands.peek, h.stands.rest⟩
  seen := h.seen
  entries := by
    intro e he
    rcases List.mem_append.1 he with he | he
    · exact h.entries e he
    · right
      rw [List.mem_singleton.1 he]
      intro n hn
      show c.unread < n
      rw [h.unread_eq hts]
      exact hFresh n hn

theorem kind_peek (h : c₀.Passed ts j c) {l : List Token} (hl : ts.drop (j + 1) = l) :
    c.peek.kind = lookahead l := by
  rw [h.stands.peek, List.tail_drop, hl, kind_headD]

theorem current_eq (h : c₀.Passed ts j c) {t : Token} {l : List Token}
    (hl : ts.drop j = t :: l) : c.current = t := by
  rw [h.stands.current, hl]
  rfl

end Passed
end Cursor

/-! ## Walks that end -/

namespace Walk

variable {α β : Type} {c c' c'' : Cursor}

/-- The walk ends in the same way with whatever number of steps, as soon as there are enough. -/
def Ends (w : Nat → Walk α) (c : Cursor) (a : α) (c' : Cursor) : Prop :=
  ∃ enough, ∀ fuel, enough ≤ fuel → w fuel c = some (a, c')

namespace Ends

theorem of_eq {w : Walk α} {a : α} (h : w c = some (a, c')) : Ends (fun _ => w) c a c' :=
  ⟨0, fun _ _ => h⟩

theorem bind {w : Nat → Walk α} {f : Nat → α → Walk β} {a : α} {b : β} (h : Ends w c a c')
    (hf : Ends (fun fuel => f fuel a) c' b c'') :
    Ends (fun fuel => w fuel >>= f fuel) c b c'' := by
  rcases h with ⟨enough, hRun⟩
  rcases hf with ⟨enough', hRun'⟩
  refine ⟨max enough enough', fun fuel hFuel => ?_⟩
  show (w fuel >>= f fuel) c = _
  rw [bind_eq (hRun fuel (Nat.le_trans (Nat.le_max_left _ _) hFuel))]
  exact hRun' fuel (Nat.le_trans (Nat.le_max_right _ _) hFuel)

theorem get {f : Nat → Cursor → Walk α} {a : α} (h : Ends (fun fuel => f fuel c) c a c') :
    Ends (fun fuel => MonadState.get >>= f fuel) c a c' :=
  h

/-- One nested step more. -/
theorem step {w : Nat → Walk α} {a : α} (h : Ends (fun fuel => w (fuel + 1)) c a c') :
    Ends w c a c' := by
  rcases h with ⟨enough, hRun⟩
  refine ⟨enough + 1, fun fuel hFuel => ?_⟩
  cases fuel with
  | zero => exact absurd hFuel (Nat.not_succ_le_zero enough)
  | succ fuel => exact hRun fuel (Nat.le_of_succ_le_succ hFuel)

end Ends

/-! ## Walks that follow readings -/

variable {c₀ : Cursor} {ts l : List Token} {j : Nat}

/-- The walk ends and comes to what the reading of `l` says: the same value and the same defects,
and the cursor goes on from there, until the tokens behind the one in hand are those that the
reading leaves. -/
def Follows (c₀ : Cursor) (ts l : List Token) (w : Nat → Walk α) (c : Cursor) (j : Nat)
    (r : Reading α) : Prop :=
  ∃ c' k, Ends w c r.value c' ∧ c₀.Passed ts k c' ∧ j ≤ k ∧ ts.drop (k + 1) = l.drop r.used ∧
    c'.errors = c.errors ++ r.errors.map Diagnostic.error

namespace Follows

theorem pure (hc : c₀.Passed ts j c) (hl : ts.drop (j + 1) = l) (a : α) :
    Follows c₀ ts l (fun _ => Pure.pure a) c j (Reading.pure a) :=
  ⟨c, j, .of_eq rfl, hc, Nat.le_refl j, hl, (List.append_nil _).symm⟩

theorem fail (hc : c₀.Passed ts j c) (hl : ts.drop (j + 1) = l) (error : SyntaxError) (n : Nat) :
    Follows c₀ ts l (fun _ => (Walk.fail error : Walk (Option α))) c j (Reading.fail error n) :=
  ⟨c.report error, j, .of_eq rfl, hc.report error, Nat.le_refl j, hl, rfl⟩

theorem step {w : Nat → Walk α} {r : Reading α}
    (h : Follows c₀ ts l (fun fuel => w (fuel + 1)) c j r) : Follows c₀ ts l w c j r := by
  rcases h with ⟨c', k, hEnds, hFollows⟩
  exact ⟨c', k, hEnds.step, hFollows⟩

theorem bind {w : Nat → Walk α} {f : Nat → α → Walk β} {r : Reading α} {g : α → Nat → Reading β}
    (h : Follows c₀ ts l w c j r)
    (hf : ∀ c' k, c₀.Passed ts k c' → j ≤ k → ts.drop (k + 1) = l.drop r.used →
      Follows c₀ ts (l.drop r.used) (fun fuel => f fuel r.value) c' k (g r.value r.used)) :
    Follows c₀ ts l (fun fuel => w fuel >>= f fuel) c j (r.bind g) := by
  rcases h with ⟨c', k, hEnds, hc', hjk, hRest, hErrors⟩
  rcases hf c' k hc' hjk hRest with ⟨c'', k', hEnds', hc'', hkk', hRest', hErrors'⟩
  refine ⟨c'', k', hEnds.bind hEnds', hc'', Nat.le_trans hjk hkk', ?_, ?_⟩
  · rw [hRest', List.drop_drop]
    rfl
  · rw [hErrors', hErrors, List.append_assoc, ← List.map_append]
    rfl

/-- What goes on only if there was a value. -/
theorem andThen {w : Nat → Walk (Option α)} {f : Nat → Option α → Walk (Option β)}
    {r : Attempt α} {g : α → Nat → Attempt β} (h : Follows c₀ ts l w c j r)
    (hNone : ∀ fuel, f fuel none = Pure.pure none)
    (hf : ∀ a c' k, c₀.Passed ts k c' → j ≤ k → ts.drop (k + 1) = l.drop r.used →
      Follows c₀ ts (l.drop r.used) (fun fuel => f fuel (some a)) c' k (g a r.used)) :
    Follows c₀ ts l (fun fuel => w fuel >>= f fuel) c j (r.andThen g) := by
  refine h.bind fun c' k hc' hjk hRest => ?_
  cases r.value with
  | none =>
      simp only [hNone]
      exact .pure hc' hRest none
  | some a => exact hf a c' k hc' hjk hRest

theorem map {w : Nat → Walk α} {r : Reading α} (h : Follows c₀ ts l w c j r) (f : α → β) :
    Follows c₀ ts l (fun fuel => w fuel >>= fun a => Pure.pure (f a)) c j (r.map f) := by
  rcases h with ⟨c', k, hEnds, hFollows⟩
  exact ⟨c', k, hEnds.bind (.of_eq rfl), hFollows⟩

theorem get {f : Nat → Cursor → Walk α} {r : Reading α}
    (h : Follows c₀ ts l (fun fuel => f fuel c) c j r) :
    Follows c₀ ts l (fun fuel => MonadState.get >>= f fuel) c j r :=
  h

/-- Another token comes to hand first. -/
theorem next {w : Nat → Walk α} {r : Reading α} (h : Follows c₀ ts l w c.next (j + 1) r) :
    Follows c₀ ts l (fun fuel => nextToken >>= fun _ => w fuel) c j r := by
  rcases h with ⟨c', k, hEnds, hc', hjk, hFollows⟩
  exact ⟨c', k, hEnds, hc', Nat.le_of_succ_le hjk, hFollows⟩

/-- The beginning of an expression or of a block is recorded first. -/
theorem enter {w : Nat → Walk α} {r : Reading α} {around : List Nat}
    (h : Follows c₀ ts l w (c.enter around) j r) :
    Follows c₀ ts l (fun fuel => (modify fun c => c.enter around) >>= fun _ => w fuel) c j r :=
  h

theorem shift {w : Nat → Walk α} {r : Reading α} (h : Follows c₀ ts l w c j r) (t : Token) :
    Follows c₀ ts (t :: l) w c j r.shift :=
  h

/-- A value, and one more token for it. -/
theorem take (hc : c₀.Passed ts j c) (hl : ts.drop (j + 1) = l) (a : α) :
    Follows c₀ ts l (fun _ => nextToken >>= fun _ => Pure.pure (some a)) c j
      ⟨some a, [], 1⟩ := by
  refine ⟨c.next, j + 1, .of_eq rfl, hc.next, Nat.le_succ j, ?_, (List.append_nil _).symm⟩
  rw [← hl, List.drop_drop]

/-- An expected token, found or missed. -/
theorem expect {k : Kind} {f : Nat → Option Unit → Walk (Option β)}
    {g : Token → Nat → Attempt β} (hk : k ≠ .eof) (hc : c₀.Passed ts j c)
    (hl : ts.drop (j + 1) = l) (hNone : ∀ fuel, f fuel none = Pure.pure none)
    (hf : ∀ t, c.next.current = t →
      Follows c₀ ts (l.drop 1) (fun fuel => f fuel (some ())) c.next (j + 1) (g t 1)) :
    Follows c₀ ts l (fun fuel => expectPeek k >>= f fuel) c j
      ((Reading.expect k l).andThen g) := by
  have hPeek := hc.kind_peek hl
  by_cases h : lookahead l = k
  · -- the lookahead is the first token of `l`
    cases l with
    | nil => exact absurd h.symm hk
    | cons t rest =>
        have hExpect : Reading.expect k (t :: rest) = ⟨some t, [], 1⟩ := if_pos h
        have hCurrent : c.next.current = t := by
          rw [Cursor.next, hc.stands.peek, List.tail_drop, hl]
          rfl
        have hFound : Ends (fun _ => expectPeek k) c (some ()) c.next :=
          .of_eq (expectPeek_of_eq (hPeek.trans h))
        rcases hf t hCurrent with ⟨c', k', hEnds, hc', hjk, hRest, hErrors⟩
        rw [hExpect, Reading.andThen_of_some g rfl]
        refine ⟨c', k', hFound.bind hEnds, hc', Nat.le_of_succ_le hjk, ?_, hErrors⟩
        rw [hRest, List.drop_drop]
  · have hExpect : Reading.expect k l = Reading.fail (.unexpected k (lookahead l)) l.length := by
      cases l with
      | nil => rfl
      | cons t rest => exact if_neg h
    have hMissed : Ends (fun _ => expectPeek k) c none
        (c.report (.unexpected k (lookahead l))) := by
      rw [← hPeek] at h ⊢
      exact .of_eq (expectPeek_of_ne h)
    rw [hExpect, Reading.andThen_of_none g rfl]
    refine ⟨_, j, hMissed.bind ?_, hc.report _, Nat.le_refl j, hl, rfl⟩
    simp only [hNone]
    exact .of_eq rfl

/-- The semicolon that may end a statement. -/
theorem ended (hc : c₀.Passed ts j c) (hl : ts.drop (j + 1) = l) (s : Stmt) :
    Follows c₀ ts l (fun _ => skipSemicolon >>= fun _ => Pure.pure (some s)) c j
      (Grammar.ended s l) := by
  have hPeek := hc.kind_peek hl
  by_cases h : lookahead l = .semicolon
  · have hSkip := skipSemicolon_of_eq (hPeek.trans h)
    refine ⟨c.next, j + 1, .of_eq (bind_eq hSkip _), hc.next, Nat.le_succ j, ?_,
      (List.append_nil _).symm⟩
    rw [Grammar.ended, if_pos h, ← hl, List.drop_drop]
  · have hSkip := skipSemicolon_of_ne (fun h' => h (hPeek.symm.trans h'))
    refine ⟨c, j, .of_eq (bind_eq hSkip _), hc, Nat.le_refl j, ?_, (List.append_nil _).symm⟩
    rw [Grammar.ended, if_neg h, hl]
    rfl

end Follows

/-! ## Parameters -/

theorem drop_next (h : ts.drop (j + 1) = l) : ts.drop (j + 1 + 1) = l.drop 1 := by
  rw [← h, List.drop_drop]

theorem drop_succ_of_drop_eq {t : Token} (h : ts.drop j = t :: l) : ts.drop (j + 1) = l := by
  rw [← List.tail_drop, h]
  rfl

theorem moreParameters_follows (hc : c₀.Passed ts j c) (hl : ts.drop (j + 1) = l) :
    Follows c₀ ts l moreParameters c j (Grammar.moreParameters l) := by
  have hPeek := hc.kind_peek hl
  induction l using Grammar.moreParameters.induct generalizing c j with
  | case1 =>
      refine .step ?_
      simp only [moreParameters]
      rw [Grammar.moreParameters]
      refine .get ?_
      have hComma : c.peek.kind ≠ .comma := by
        rw [hPeek]
        decide
      simp only [if_neg hComma]
      exact .expect (by decide) hc hl (fun _ => rfl) fun _ _ => .pure hc.next (drop_next hl) _
  | case2 t rest ht ih =>
      refine .step ?_
      simp only [moreParameters]
      rw [Grammar.moreParameters, if_pos ht]
      refine .get ?_
      simp only [if_pos (hPeek.trans ht)]
      have hNext := drop_next hl
      refine .shift (.next ?_) t
      refine .expect (by decide) hc.next hNext (fun _ => rfl) fun name hName => ?_
      refine .get ?_
      rw [hName]
      have hRest := drop_next hNext
      refine .andThen (ih hc.next.next hRest (hc.next.next.kind_peek hRest)) (fun _ => rfl) ?_
      exact fun names c' k hc' _ hk => .pure hc' hk _
  | case3 t rest ht =>
      refine .step ?_
      simp only [moreParameters]
      rw [Grammar.moreParameters, if_neg ht]
      refine .get ?_
      simp only [if_neg (fun h => ht (hPeek.symm.trans h))]
      exact .expect (by decide) hc hl (fun _ => rfl) fun _ _ => .pure hc.next (drop_next hl) _

theorem parameters_follows (hc : c₀.Passed ts j c) (hl : ts.drop (j + 1) = l) :
    Follows c₀ ts l parameters c j (Grammar.parameters l) := by
  have hPeek := hc.kind_peek hl
  have hNext := drop_next hl
  unfold parameters
  rw [Grammar.parameters]
  refine .get ?_
  by_cases h : lookahead l = .rparen
  · simp only [if_pos (hPeek.trans h)]
    rw [if_pos h]
    exact .take hc hl []
  · simp only [if_neg (fun h' => h (hPeek.symm.trans h')), if_neg h]
    refine .expect (by decide) hc hl (fun _ => rfl) fun name hName => ?_
    refine .get ?_
    rw [hName]
    refine .andThen (moreParameters_follows hc.next hNext) (fun _ => rfl) ?_
    exact fun names c' k hc' _ hk => .pure hc' hk _

/-! ## Places where walks begin -/

/-- Wherever the first token of `l` is in hand, and fewer tokens are left than at the beginnings of
the expressions around, the walk follows the reading. -/
def FollowsFrom (c₀ : Cursor) (ts l : List Token) (w : List Nat → Nat → Walk α) (r : Reading α) :
    Prop :=
  ∀ around c j, ts.drop j = l → c₀.Passed ts j c → Cursor.Fresh ts around j →
    Follows c₀ ts l (w around) c j r

/-- Wherever `l` is behind the token in hand, and fewer tokens will be left with the next token,
the walk follows the reading. -/
def FollowsBehind (c₀ : Cursor) (ts l : List Token) (w : List Nat → Nat → Walk α) (r : Reading α) :
    Prop :=
  ∀ around c j, ts.drop (j + 1) = l → c₀.Passed ts j c → Cursor.Fresh ts around (j + 1) →
    Follows c₀ ts l (w around) c j r

/-- Wherever the token `t` is in hand and `l` is behind it, and fewer tokens will be left with the
next token, the walk follows the reading. -/
def FollowsAt (c₀ : Cursor) (ts : List Token) (t : Token) (l : List Token)
    (w : List Nat → Nat → Walk α) (r : Reading α) : Prop :=
  ∀ around c j, ts.drop j = t :: l → c₀.Passed ts j c → Cursor.Fresh ts around (j + 1) →
    Follows c₀ ts l (w around) c j r

/-! ## Expressions -/

/-- Where no expression begins because there is no token, the cursor finds that out from the end of
input in hand. -/
theorem expression_follows_nil (hts : ∀ t ∈ ts, t.kind ≠ .eof) (min : Precedence) :
    FollowsFrom c₀ ts [] (expression min) (Grammar.expr min []) := by
  intro around c j hl hc hFresh
  have hRest : ts.drop (j + 1) = [] := by
    rw [← List.tail_drop, hl]
    rfl
  have hEntered := hc.enter hts hFresh
  have hKind : (c.enter around).current.kind = .eof := by
    rw [hEntered.stands.current, hl]
    rfl
  refine .step ?_
  simp only [expression]
  rw [Grammar.expr]
  refine .enter (.get ?_)
  have hOperand : Follows c₀ ts [] (operand ((c.enter around).unread :: around))
      (c.enter around) j (Reading.fail (.noOperand .eof) 0) := by
    refine .step ?_
    simp only [operand]
    refine .get ?_
    simp only [hKind]
    exact .fail hEntered hRest _ _
  rcases hOperand with ⟨c', k, hRun, hc', hjk, hEnd, hErrors⟩
  exact ⟨c', k, hRun.bind (.of_eq rfl), hc', hjk, hEnd, hErrors⟩

theorem expression_follows {min : Precedence} {t : Token} (hts : ∀ t ∈ ts, t.kind ≠ .eof)
    (hOperand : FollowsAt c₀ ts t l operand (Grammar.operand t l))
    (hClimb : ∀ left n, FollowsBehind c₀ ts (l.drop n) (climb min left)
      (Grammar.climb min left (l.drop n))) :
    FollowsFrom c₀ ts (t :: l) (expression min) (Grammar.exprFrom min t l).shift := by
  intro around c j hl hc hFresh
  have hEntered := hc.enter hts hFresh
  have hLength : ts.length - j = l.length + 1 := by
    rw [← List.length_drop, hl]
    rfl
  -- inside of the expression its own beginning is around, and the next token is behind that
  have hInside : Cursor.Fresh ts ((c.enter around).unread :: around) (j + 1) := by
    intro n hn
    rcases List.mem_cons.1 hn with rfl | hn
    · rw [hEntered.unread_eq hts]
      omega
    · exact hFresh.mono (Nat.le_succ j) n hn
  refine .step ?_
  simp only [expression]
  rw [Grammar.exprFrom]
  refine .shift (.enter (.get ?_)) t
  refine .andThen (hOperand _ _ _ hl hEntered hInside) (fun _ => rfl) ?_
  intro left c₁ k₁ hc₁ hk₁ hl₁
  exact hClimb left _ _ _ _ hl₁ hc₁ (hInside.mono (Nat.succ_le_succ hk₁))

/-- The next token does not bind tighter, or there is none. -/
theorem climb_follows_done {min : Precedence} {left : Expr}
    (hStop : ¬ min < Precedence.ofKind (lookahead l))
    (hRead : Grammar.climb min left l = Reading.done left) :
    FollowsBehind c₀ ts l (climb min left) (Grammar.climb min left l) := by
  intro around c j hl hc hFresh
  have hPeek := hc.kind_peek hl
  have hStay : ¬ (lookahead l ≠ .semicolon ∧ min < Precedence.ofKind (lookahead l)) :=
    fun h => hStop h.2
  refine .step ?_
  simp only [climb]
  rw [hRead]
  refine .get ?_
  simp only [hPeek, if_neg hStay]
  exact .pure hc hl _

theorem climb_follows_infixOp {min : Precedence} {left : Expr} {t : Token} {op : InfixOp}
    (hlt : min < Precedence.ofKind t.kind) (hop : InfixOp.ofKind? t.kind = some op)
    (hExpr : FollowsFrom c₀ ts l (expression (Precedence.ofKind t.kind))
      (Grammar.expr (Precedence.ofKind t.kind) l))
    (hClimb : ∀ right n, FollowsBehind c₀ ts (l.drop n) (climb min (.infixOp op left right))
      (Grammar.climb min (.infixOp op left right) (l.drop n))) :
    FollowsBehind c₀ ts (t :: l) (climb min left) (Grammar.climb min left (t :: l)) := by
  intro around c j hl hc hFresh
  have hPeek : c.peek.kind = t.kind := hc.kind_peek hl
  have hGo : t.kind ≠ .semicolon ∧ min < Precedence.ofKind t.kind := by
    refine ⟨fun h => ?_, hlt⟩
    rw [h] at hlt
    exact Nat.not_lt_zero _ hlt
  refine .step ?_
  simp only [climb]
  rw [Grammar.climb, if_pos hlt, hop]
  refine .get ?_
  simp only [hPeek, if_pos hGo, hop]
  refine .shift (.next (.next ?_)) t
  have hRight := hExpr around _ _ (drop_next hl) hc.next.next (hFresh.mono (Nat.le_succ _))
  refine .andThen hRight (fun _ => rfl) fun right c₁ k₁ hc₁ hk₁ hl₁ => ?_
  exact hClimb right _ around _ _ hl₁ hc₁ (hFresh.mono (by omega))

theorem climb_follows_call {min : Precedence} {left : Expr} {t : Token}
    (hlt : min < Precedence.ofKind t.kind) (hop : InfixOp.ofKind? t.kind = none)
    (hArguments : FollowsBehind c₀ ts l arguments (Grammar.arguments l))
    (hClimb : ∀ es n, FollowsBehind c₀ ts (l.drop n) (climb min (.call left es))
      (Grammar.climb min (.call left es) (l.drop n))) :
    FollowsBehind c₀ ts (t :: l) (climb min left) (Grammar.climb min left (t :: l)) := by
  intro around c j hl hc hFresh
  have hPeek : c.peek.kind = t.kind := hc.kind_peek hl
  have hKind : t.kind = .lparen := Precedence.eq_lparen_of_lt hlt hop
  have hGo : t.kind ≠ .semicolon ∧ min < Precedence.ofKind t.kind := by
    refine ⟨?_, hlt⟩
    rw [hKind]
    decide
  refine .step ?_
  simp only [climb]
  rw [Grammar.climb, if_pos hlt, hop]
  refine .get ?_
  simp only [hPeek, if_pos hGo, hop, if_pos hKind]
  refine .shift (.next ?_) t
  have hRight := hArguments around _ _ (drop_next hl) hc.next (hFresh.mono (Nat.le_succ _))
  refine .andThen hRight (fun _ => rfl) fun es c₁ k₁ hc₁ hk₁ hl₁ => ?_
  exact hClimb es _ around _ _ hl₁ hc₁ (hFresh.mono (by omega))

/-! ## Arguments -/

theorem arguments_follows_nil (h : lookahead l = .rparen) :
    FollowsBehind c₀ ts l arguments (Grammar.arguments l) := by
  intro around c j hl hc hFresh
  have hPeek := hc.kind_peek hl
  refine .step ?_
  simp only [arguments]
  rw [Grammar.arguments, if_pos h]
  refine .get ?_
  simp only [if_pos (hPeek.trans h)]
  exact .take hc hl []

theorem arguments_follows_cons (h : lookahead l ≠ .rparen)
    (hExpr : FollowsFrom c₀ ts l (expression .lowest) (Grammar.expr .lowest l))
    (hMore : ∀ n, FollowsBehind c₀ ts (l.drop n) moreArguments
      (Grammar.moreArguments (l.drop n))) :
    FollowsBehind c₀ ts l arguments (Grammar.arguments l) := by
  intro around c j hl hc hFresh
  have hPeek := hc.kind_peek hl
  refine .step ?_
  simp only [arguments]
  rw [Grammar.arguments, if_neg h]
  refine .get ?_
  simp only [if_neg (fun h' => h (hPeek.symm.trans h'))]
  refine .next ?_
  refine .andThen (hExpr around _ _ hl hc.next hFresh) (fun _ => rfl) ?_
  intro e c₁ k₁ hc₁ hk₁ hl₁
  have hRest := hMore _ around _ _ hl₁ hc₁ (hFresh.mono (by omega))
  exact .andThen hRest (fun _ => rfl) fun es c₂ k₂ hc₂ _ hl₂ => .pure hc₂ hl₂ _

theorem moreArguments_follows_nil (h : lookahead l ≠ .comma)
    (hRead : Grammar.moreArguments l =
      (Reading.expect .rparen l).andThen fun _ _ => Reading.done []) :
    FollowsBehind c₀ ts l moreArguments (Grammar.moreArguments l) := by
  intro around c j hl hc hFresh
  have hPeek := hc.kind_peek hl
  refine .step ?_
  simp only [moreArguments]
  rw [hRead]
  refine .get ?_
  simp only [if_neg (fun h' => h (hPeek.symm.trans h'))]
  exact .expect (by decide) hc hl (fun _ => rfl) fun _ _ => .pure hc.next (drop_next hl) _

theorem moreArguments_follows_cons {t : Token} (ht : t.kind = .comma)
    (hExpr : FollowsFrom c₀ ts l (expression .lowest) (Grammar.expr .lowest l))
    (hMore : ∀ n, FollowsBehind c₀ ts (l.drop n) moreArguments
      (Grammar.moreArguments (l.drop n))) :
    FollowsBehind c₀ ts (t :: l) moreArguments (Grammar.moreArguments (t :: l)) := by
  intro around c j hl hc hFresh
  have hPeek : c.peek.kind = t.kind := hc.kind_peek hl
  refine .step ?_
  simp only [moreArguments]
  rw [Grammar.moreArguments, if_pos ht]
  refine .get ?_
  simp only [if_pos (hPeek.trans ht)]
  refine .shift (.next (.next ?_)) t
  have hFirst := hExpr around _ _ (drop_next hl) hc.next.next (hFresh.mono (Nat.le_succ _))
  refine .andThen hFirst (fun _ => rfl) fun e c₁ k₁ hc₁ hk₁ hl₁ => ?_
  have hRest := hMore _ around _ _ hl₁ hc₁ (hFresh.mono (by omega))
  exact .andThen hRest (fun _ => rfl) fun es c₂ k₂ hc₂ _ hl₂ => .pure hc₂ hl₂ _

/-! ## Operands -/

/-- What a walk does that begins with a look at the cursor. -/
theorem get_bind (f : Cursor → Walk α) (c : Cursor) : (MonadState.get >>= f) c = f c c :=
  rfl

/-- An operand that is the token in hand alone. -/
theorem operand_follows_atom {t : Token} {e : Expr}
    (hWalk : ∀ around fuel c, c.current = t → operand around (fuel + 1) c = some (some e, c))
    (hRead : Grammar.operand t l = Reading.done e) :
    FollowsAt c₀ ts t l operand (Grammar.operand t l) := by
  intro around c j hl hc hFresh
  have hEnds : Ends (operand around) c (some e) c :=
    .step ⟨0, fun fuel _ => hWalk around fuel c (hc.current_eq hl)⟩
  rw [hRead]
  exact ⟨c, j, hEnds, hc, Nat.le_refl j, drop_succ_of_drop_eq hl, (List.append_nil _).symm⟩

/-- A token in hand that is no operand, or a number that is too large. -/
theorem operand_follows_fail {t : Token} {error : SyntaxError} {n : Nat}
    (hWalk : ∀ around fuel c, c.current = t →
      operand around (fuel + 1) c = some (none, c.report error))
    (hRead : Grammar.operand t l = Reading.fail error n) :
    FollowsAt c₀ ts t l operand (Grammar.operand t l) := by
  intro around c j hl hc hFresh
  have hEnds : Ends (operand around) c none (c.report error) :=
    .step ⟨0, fun fuel _ => hWalk around fuel c (hc.current_eq hl)⟩
  rw [hRead]
  exact ⟨_, j, hEnds, hc.report error, Nat.le_refl j, drop_succ_of_drop_eq hl, rfl⟩

theorem operand_follows_prefixOp {t : Token} {op : PrefixOp} (ht : t.kind = op.kind)
    (hRead : Grammar.operand t l =
      (Grammar.expr .unary l).andThen fun e _ => Reading.done (.prefixOp op e))
    (hExpr : FollowsFrom c₀ ts l (expression .unary) (Grammar.expr .unary l)) :
    FollowsAt c₀ ts t l operand (Grammar.operand t l) := by
  intro around c j hl hc hFresh
  have hRight := hExpr around _ _ (drop_succ_of_drop_eq hl) hc.next hFresh
  refine .step ?_
  simp only [operand]
  rw [hRead]
  refine .get ?_
  cases op with
  | bang =>
      have hBang : t.kind = .bang := ht
      simp only [hc.current_eq hl, hBang]
      exact .next (.andThen hRight (fun _ => rfl) fun e c₁ k₁ hc₁ _ hl₁ => .pure hc₁ hl₁ _)
  | minus =>
      have hMinus : t.kind = .minus := ht
      simp only [hc.current_eq hl, hMinus]
      exact .next (.andThen hRight (fun _ => rfl) fun e c₁ k₁ hc₁ _ hl₁ => .pure hc₁ hl₁ _)

theorem operand_follows_group {t : Token} (ht : t.kind = .lparen)
    (hExpr : FollowsFrom c₀ ts l (expression .lowest) (Grammar.expr .lowest l)) :
    FollowsAt c₀ ts t l operand (Grammar.operand t l) := by
  intro around c j hl hc hFresh
  refine .step ?_
  simp only [operand]
  rw [Grammar.operand, ht]
  refine .get ?_
  simp only [hc.current_eq hl, ht]
  have hInner := hExpr around _ _ (drop_succ_of_drop_eq hl) hc.next hFresh
  refine .next (.andThen hInner (fun _ => rfl) fun e c₁ k₁ hc₁ _ hl₁ => ?_)
  exact .expect (by decide) hc₁ hl₁ (fun _ => rfl) fun _ _ => .pure hc₁.next (drop_next hl₁) _

/-- An operand that is left to the walk for its keyword. -/
theorem operand_follows_keyword {t : Token} {w : List Nat → Nat → Walk (Option Expr)}
    {r : Attempt Expr}
    (hWalk : ∀ around fuel c, c.current = t → operand around (fuel + 1) c = w around fuel c)
    (hRead : Grammar.operand t l = r) (h : FollowsBehind c₀ ts l w r) :
    FollowsAt c₀ ts t l operand (Grammar.operand t l) := by
  intro around c j hl hc hFresh
  rcases h around c j (drop_succ_of_drop_eq hl) hc hFresh with ⟨c', k, ⟨enough, hRun⟩, hFollows⟩
  have hEnds : Ends (operand around) c r.value c' :=
    .step ⟨enough, fun fuel hFuel =>
      (hWalk around fuel c (hc.current_eq hl)).trans (hRun fuel hFuel)⟩
  rw [hRead]
  exact ⟨c', k, hEnds, hFollows⟩

/-! ## Conditionals and function literals -/

theorem block_follows {around : List Nat} {r : Reading (List Stmt)} (hts : ∀ t ∈ ts, t.kind ≠ .eof)
    (hc : c₀.Passed ts j c) (hl : ts.drop (j + 1) = l) (hFresh : Cursor.Fresh ts around j)
    (hBlock : FollowsFrom c₀ ts l (statements closesBlock) r) :
    Follows c₀ ts l (block around) c j r := by
  have hEntered := hc.enter hts hFresh
  refine .step ?_
  simp only [block]
  exact .enter (.next (hBlock around _ _ hl hEntered.next (hFresh.mono (Nat.le_succ j))))

theorem conditional_follows (hts : ∀ t ∈ ts, t.kind ≠ .eof)
    (hExpr : FollowsFrom c₀ ts (l.drop 1) (expression .lowest)
      (Grammar.expr .lowest (l.drop 1)))
    (hConsequence : ∀ n, FollowsFrom c₀ ts (l.drop (3 + n))
      (statements closesBlock) (Grammar.block (l.drop (3 + n))))
    (hAlternative : ∀ n m, FollowsFrom c₀ ts (l.drop (5 + n + m))
      (statements closesBlock) (Grammar.block (l.drop (5 + n + m)))) :
    FollowsBehind c₀ ts l conditional (Grammar.conditional l) := by
  intro around c j hl hc hFresh
  refine .step ?_
  simp only [conditional]
  rw [Grammar.conditional]
  refine .expect (by decide) hc hl (fun _ => rfl) fun _ _ => ?_
  refine .next ?_
  have hCondition := hExpr around _ _ (drop_next hl) hc.next.next (hFresh.mono (Nat.le_succ _))
  refine .andThen hCondition (fun _ => rfl) fun condition c₁ k₁ hc₁ hk₁ hl₁ => ?_
  have hFresh₁ := hFresh.mono (Nat.le_of_succ_le hk₁)
  rw [List.drop_drop] at hl₁ ⊢
  generalize (Grammar.expr .lowest (l.drop 1)).used = n at hl₁ ⊢
  refine .expect (by decide) hc₁ hl₁ (fun _ => rfl) fun _ _ => ?_
  have hl₂ := drop_next hl₁
  rw [Reading.drop_succ_add] at hl₂ ⊢
  refine .expect (by decide) hc₁.next hl₂ (fun _ => rfl) fun _ _ => ?_
  have hl₃ := drop_next hl₂
  rw [Reading.drop_succ_add] at hl₃ ⊢
  have hFresh₃ := hFresh₁.mono (Nat.le_add_right k₁ 2)
  refine .bind (block_follows hts hc₁.next.next hl₃ hFresh₃ (hConsequence n)) ?_
  intro c₄ k₄ hc₄ hk₄ hl₄
  rw [List.drop_drop] at hl₄ ⊢
  generalize (Grammar.block (l.drop (3 + n))).used = m at hl₄ ⊢
  refine .get ?_
  have hPeek := hc₄.kind_peek hl₄
  by_cases hElse : lookahead (l.drop (3 + n + m)) = .elseWord
  · simp only [if_pos (hPeek.trans hElse), if_pos hElse]
    rcases Reading.exists_drop_eq_else_cons hElse with ⟨t, -, hRest, hBody⟩
    have hl₅ := drop_next hl₄
    rw [hRest, List.drop_one, List.tail_cons] at hl₅
    rw [hRest]
    refine .shift (.next ?_) t
    refine .expect (by decide) hc₄.next hl₅ (fun _ => rfl) fun _ _ => ?_
    have hl₆ := drop_next hl₅
    rw [hBody] at hl₆ ⊢
    have hFresh₆ := hFresh₃.mono (Nat.le_trans hk₄ (Nat.le_add_right k₄ 2))
    exact .map (block_follows hts hc₄.next.next hl₆ hFresh₆ (hAlternative n m)) _
  · simp only [if_neg (fun h => hElse (hPeek.symm.trans h)), if_neg hElse]
    exact .pure hc₄ hl₄ _

theorem function_follows (hts : ∀ t ∈ ts, t.kind ≠ .eof)
    (hBody : ∀ n, FollowsFrom c₀ ts (l.drop (2 + n))
      (statements closesBlock) (Grammar.block (l.drop (2 + n)))) :
    FollowsBehind c₀ ts l function (Grammar.function l) := by
  intro around c j hl hc hFresh
  refine .step ?_
  simp only [function]
  rw [Grammar.function]
  refine .expect (by decide) hc hl (fun _ => rfl) fun _ _ => ?_
  refine .andThen (parameters_follows hc.next (drop_next hl)) (fun _ => rfl) ?_
  intro names c₁ k₁ hc₁ hk₁ hl₁
  rw [List.drop_drop] at hl₁ ⊢
  generalize (Grammar.parameters (l.drop 1)).used = n at hl₁ ⊢
  refine .expect (by decide) hc₁ hl₁ (fun _ => rfl) fun _ _ => ?_
  have hl₂ := drop_next hl₁
  rw [Reading.drop_succ_add] at hl₂ ⊢
  have hFresh₂ := hFresh.mono (Nat.le_trans hk₁ (Nat.le_succ k₁))
  exact .map (block_follows hts hc₁.next hl₂ hFresh₂ (hBody n)) _

/-! ## Statements and blocks -/

theorem statements_follows_nil :
    FollowsFrom c₀ ts [] (statements closesBlock) (Grammar.block []) := by
  intro around c j hl hc hFresh
  have hKind : closesBlock c.current.kind = true := by
    rw [hc.stands.current, hl]
    rfl
  have hRest : ts.drop (j + 1) = [] := by
    rw [← List.tail_drop, hl]
    rfl
  refine .step ?_
  simp only [statements]
  rw [Grammar.block]
  refine .get ?_
  simp only [if_pos hKind]
  exact .pure hc hRest _

theorem statements_follows_closed {t : Token} (ht : t.kind = .rbrace) :
    FollowsFrom c₀ ts (t :: l) (statements closesBlock) (Grammar.block (t :: l)) := by
  intro around c j hl hc hFresh
  have hKind : closesBlock c.current.kind = true := by
    rw [hc.current_eq hl, ht]
    rfl
  refine .step ?_
  simp only [statements]
  rw [Grammar.block, if_pos ht]
  refine .get ?_
  simp only [if_pos hKind]
  exact .shift (.pure hc (drop_succ_of_drop_eq hl) _) t

theorem statements_follows_cons {t : Token} (hts : ∀ t ∈ ts, t.kind ≠ .eof)
    (ht : ¬ t.kind = .rbrace)
    (hStmt : FollowsFrom c₀ ts (t :: l) statement (Grammar.stmt t l).shift)
    (hBlock : ∀ n, FollowsFrom c₀ ts (l.drop n) (statements closesBlock)
      (Grammar.block (l.drop n))) :
    FollowsFrom c₀ ts (t :: l) (statements closesBlock) (Grammar.block (t :: l)) := by
  intro around c j hl hc hFresh
  have hEof : t.kind ≠ .eof := hts t (List.mem_of_mem_drop (hl ▸ List.mem_cons_self))
  have hKind : ¬ closesBlock c.current.kind = true := by
    rw [hc.current_eq hl]
    simp [closesBlock, ht, hEof]
  refine .step ?_
  simp only [statements]
  rw [Grammar.block, if_neg ht]
  refine .get ?_
  simp only [if_neg hKind]
  have hFirst : Follows c₀ ts l (statement around) c j (Grammar.stmt t l) :=
    hStmt around c j hl hc hFresh
  refine .shift (.bind hFirst fun c₁ k₁ hc₁ hk₁ hl₁ => ?_) t
  exact .next (.map (hBlock _ around _ _ hl₁ hc₁.next (hFresh.mono (by omega))) _)

theorem statement_follows_bind {t : Token} (ht : t.kind = .letWord)
    (hExpr : FollowsFrom c₀ ts (l.drop 2) (expression .lowest)
      (Grammar.expr .lowest (l.drop 2))) :
    FollowsFrom c₀ ts (t :: l) statement (Grammar.stmt t l).shift := by
  intro around c j hl hc hFresh
  have hl₁ := drop_succ_of_drop_eq hl
  refine .step ?_
  simp only [statement]
  rw [Grammar.stmt, ht]
  refine .get ?_
  simp only [hc.current_eq hl, ht]
  refine .shift ?_ t
  refine .expect (by decide) hc hl₁ (fun _ => rfl) fun name hName => ?_
  refine .get ?_
  rw [hName]
  have hl₂ := drop_next hl₁
  refine .expect (by decide) hc.next hl₂ (fun _ => rfl) fun _ _ => ?_
  have hl₃ := drop_next hl₂
  rw [List.drop_drop] at hl₃ ⊢
  have hValue := hExpr around _ _ hl₃ hc.next.next.next (hFresh.mono (by omega))
  refine .next (.andThen hValue (fun _ => rfl) fun value c₁ k₁ hc₁ _ hl₄ => ?_)
  rw [List.drop_drop] at hl₄ ⊢
  exact .ended hc₁ hl₄ _

theorem statement_follows_ret {t : Token} (ht : t.kind = .returnWord)
    (hEnds : Grammar.endsReturn (lookahead l) = true) :
    FollowsFrom c₀ ts (t :: l) statement (Grammar.stmt t l).shift := by
  intro around c j hl hc hFresh
  have hl₁ := drop_succ_of_drop_eq hl
  have hPeek := hc.kind_peek hl₁
  refine .step ?_
  simp only [statement]
  rw [Grammar.stmt, ht]
  refine .get ?_
  simp only [hc.current_eq hl, ht, hEnds, if_true]
  refine .shift (.get ?_) t
  simp only [hPeek, hEnds, if_true]
  exact .ended hc hl₁ _

theorem statement_follows_retValue {t : Token} (ht : t.kind = .returnWord)
    (hEnds : ¬ Grammar.endsReturn (lookahead l) = true)
    (hExpr : FollowsFrom c₀ ts l (expression .lowest) (Grammar.expr .lowest l)) :
    FollowsFrom c₀ ts (t :: l) statement (Grammar.stmt t l).shift := by
  intro around c j hl hc hFresh
  have hl₁ := drop_succ_of_drop_eq hl
  have hPeek := hc.kind_peek hl₁
  refine .step ?_
  simp only [statement]
  rw [Grammar.stmt, ht]
  refine .get ?_
  simp only [hc.current_eq hl, ht, hEnds, Bool.false_eq_true, if_false]
  refine .shift (.get ?_) t
  simp only [hPeek, hEnds, Bool.false_eq_true, if_false]
  have hValue := hExpr around _ _ hl₁ hc.next (hFresh.mono (Nat.le_succ j))
  exact .next (.andThen hValue (fun _ => rfl) fun value c₁ k₁ hc₁ _ hl₂ => .ended hc₁ hl₂ _)

theorem statement_follows_value {t : Token} (hLet : t.kind ≠ .letWord)
    (hReturn : t.kind ≠ .returnWord)
    (hExpr : FollowsFrom c₀ ts (t :: l) (expression .lowest)
      (Grammar.exprFrom .lowest t l).shift) :
    FollowsFrom c₀ ts (t :: l) statement (Grammar.stmt t l).shift := by
  intro around c j hl hc hFresh
  refine .step ?_
  simp only [statement]
  rw [Grammar.stmt]
  refine .get ?_
  simp only [hc.current_eq hl]
  have hValue : Follows c₀ ts l (expression .lowest around) c j
      (Grammar.exprFrom .lowest t l) := hExpr around c j hl hc hFresh
  refine .shift ?_ t
  exact .andThen hValue (fun _ => rfl) fun value c₁ k₁ hc₁ _ hl₁ => .ended hc₁ hl₁ _

/-! ## Everything that is read -/

/-- Whatever is read, the walk follows the reading, by the recursion of the reader. -/
theorem follows (hts : ∀ t ∈ ts, t.kind ≠ .eof) :
    (∀ min l, FollowsFrom c₀ ts l (expression min) (Grammar.expr min l)) ∧
    (∀ min t l, FollowsFrom c₀ ts (t :: l) (expression min)
      (Grammar.exprFrom min t l).shift) ∧
    (∀ min left l, FollowsBehind c₀ ts l (climb min left)
      (Grammar.climb min left l)) ∧
    (∀ l, FollowsBehind c₀ ts l arguments (Grammar.arguments l)) ∧
    (∀ l, FollowsBehind c₀ ts l moreArguments (Grammar.moreArguments l)) ∧
    (∀ t l, FollowsAt c₀ ts t l operand (Grammar.operand t l)) ∧
    (∀ l, FollowsBehind c₀ ts l function (Grammar.function l)) ∧
    (∀ l, FollowsFrom c₀ ts l (statements closesBlock) (Grammar.block l)) ∧
    (∀ t l, FollowsFrom c₀ ts (t :: l) statement (Grammar.stmt t l).shift) ∧
    (∀ l, FollowsBehind c₀ ts l conditional (Grammar.conditional l)) := by
  apply Grammar.expr.mutual_induct
  -- expressions
  · intro min
    exact expression_follows_nil hts min
  · intro min t rest ih
    rw [Grammar.expr]
    exact ih
  · intro min t l hOperand hClimb
    exact expression_follows hts hOperand hClimb
  · intro min left
    exact climb_follows_done (Nat.not_lt_zero _) (by rw [Grammar.climb])
  · intro min left t rest hlt op hop hExpr hClimb
    exact climb_follows_infixOp hlt hop hExpr hClimb
  · intro min left t rest hlt hop hArguments hClimb
    exact climb_follows_call hlt hop hArguments hClimb
  · intro min left t rest hlt
    exact climb_follows_done hlt (by rw [Grammar.climb, if_neg hlt])
  -- arguments
  · intro l h
    exact arguments_follows_nil h
  · intro l h hExpr hMore
    exact arguments_follows_cons h hExpr hMore
  · exact moreArguments_follows_nil (by decide) (by rw [Grammar.moreArguments])
  · intro t rest ht hExpr hMore
    exact moreArguments_follows_cons ht hExpr hMore
  · intro t rest ht
    exact moreArguments_follows_nil ht (by rw [Grammar.moreArguments, if_neg ht])
  -- operands
  · intro t l h
    refine operand_follows_atom (fun around fuel c hc => ?_) (by rw [Grammar.operand, h])
    simp only [operand, get_bind, hc, h]
    rfl
  · intro t l h n hn
    refine operand_follows_atom (fun around fuel c hc => ?_) (by rw [Grammar.operand, h, hn])
    simp only [operand, get_bind, hc, h, hn]
    rfl
  · intro t l h hn
    refine operand_follows_fail (fun around fuel c hc => ?_) (by rw [Grammar.operand, h, hn])
    simp only [operand, get_bind, hc, h, hn]
    rfl
  · intro t l h
    refine operand_follows_atom (fun around fuel c hc => ?_) (by rw [Grammar.operand, h])
    simp only [operand, get_bind, hc, h]
    rfl
  · intro t l h
    refine operand_follows_atom (fun around fuel c hc => ?_) (by rw [Grammar.operand, h])
    simp only [operand, get_bind, hc, h]
    rfl
  · intro t l h hExpr
    have hBang : t.kind = PrefixOp.bang.kind := h
    exact operand_follows_prefixOp hBang (by rw [Grammar.operand, h]) hExpr
  · intro t l h hExpr
    have hMinus : t.kind = PrefixOp.minus.kind := h
    exact operand_follows_prefixOp hMinus (by rw [Grammar.operand, h]) hExpr
  · intro t l h hExpr
    exact operand_follows_group h hExpr
  · intro t l h hConditional
    refine operand_follows_keyword (fun around fuel c hc => ?_) (by rw [Grammar.operand, h])
      hConditional
    simp only [operand, get_bind, hc, h]
  · intro t l h hFunction
    refine operand_follows_keyword (fun around fuel c hc => ?_) (by rw [Grammar.operand, h])
      hFunction
    simp only [operand, get_bind, hc, h]
  · intro t l hIdent hInt hTrue hFalse hBang hMinus hLparen hIf hFn
    have hRead : Grammar.operand t l = Reading.fail (.noOperand t.kind) (l.length + 1) := by
      rw [Grammar.operand]
      split <;> first | rfl | contradiction
    refine operand_follows_fail (fun around fuel c hc => ?_) hRead
    simp only [operand, get_bind, hc]
    rfl
  -- function literals and blocks
  · intro l hBlock
    exact function_follows hts hBlock
  · exact statements_follows_nil
  · intro t rest h
    exact statements_follows_closed h
  · intro t rest h hStmt hBlock
    exact statements_follows_cons hts h hStmt hBlock
  -- statements
  · intro t l h hExpr
    exact statement_follows_bind h hExpr
  · intro t l h hEnds
    exact statement_follows_ret h hEnds
  · intro t l h hEnds hExpr
    exact statement_follows_retValue h hEnds hExpr
  · intro t l hLet hReturn hExpr
    exact statement_follows_value hLet hReturn hExpr
  -- conditionals
  · intro l hExpr hConsequence hAlternative
    exact conditional_follows hts hExpr hConsequence hAlternative

theorem statement_follows (hts : ∀ t ∈ ts, t.kind ≠ .eof) {around : List Nat} {t : Token}
    (hl : ts.drop j = t :: l) (hc : c₀.Passed ts j c) (hFresh : Cursor.Fresh ts around j) :
    Follows c₀ ts l (statement around) c j (Grammar.stmt t l) :=
  (follows hts).2.2.2.2.2.2.2.2.1 t l around c j hl hc hFresh

end Walk
end MonkeyLang
