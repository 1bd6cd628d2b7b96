import Mathlib.Tactic.SplitIfs
import MonkeyLang.Proofs.Grammar.Additive
import MonkeyLang.Proofs.Token.Segmentation

/-!
# Order — defects in the order of the tokens

A token may be blamed twice.  While it stands in front it may not be the one that is expected; and
when it has been taken, to start an operand, it may not be able to.  In between it must be taken.
So defects are noticed in the order of the tokens that they blame, each token is blamed once in
either way at most, and the defects do not pile up: wherever a statement is dropped, the next one
starts with the token that was not used.

Only behind the last token nothing is taken.  There an operand is missed once at most, and then
whatever is not closed misses its bracket.

The order is that of numbers that fall as the reading goes on (`Diagnostic.stage`).  The recursion
of the reader is gone through with bounds from both sides: what may be noticed is bounded by the
tokens in front of a reading, and what has been noticed by those that it leaves (`InOrder`).
-/

namespace MonkeyLang

/-! ## Blame -/

/-- Whether the defect is that another token was expected. -/
def SyntaxError.isUnexpected : SyntaxError → Bool
  | .unexpected _ _ => true
  | _ => false

/-- The defect says of which kind the token is, or what its digits are. -/
def SyntaxError.Blames (t : Token) : SyntaxError → Prop
  | .unexpected _ actual => actual = t.kind
  | .noOperand found => found = t.kind
  | .invalidInteger digits => t.kind = .int ∧ digits = t.literal

namespace Diagnostic

/-- The number of tokens in front of the blamed one, of `n` tokens in all. -/
def index (d : Diagnostic) (n : Nat) : Nat :=
  n - d.unread

/-! ## Stages -/

/-- The stage at which an expected token is missed in front of `n` tokens. -/
def stageInFront (n : Nat) : Nat :=
  if n = 0 then 0 else 2 * n + 1

/-- How far the reading has come when the defect is noticed: two stages for each token that is left,
the first while it stands in front and the second when it has been taken.  At the end of the input
they change places. -/
def stage (d : Diagnostic) : Nat :=
  if d.error.isUnexpected then stageInFront d.unread
  else if d.unread = 0 then 1 else 2 * d.unread

/-- One defect may be noticed before another one.  The last stage lasts. -/
def Before (d d' : Diagnostic) : Prop :=
  d'.stage < d.stage ∨ d'.stage = 0

theorem stage_div_two (d : Diagnostic) : d.stage / 2 = d.unread := by
  unfold stage stageInFront
  split_ifs <;> omega

theorem Before.unread_le {d d' : Diagnostic} (h : d.Before d') : d'.unread ≤ d.unread := by
  rw [← d.stage_div_two, ← d'.stage_div_two]
  unfold Before at h
  omega

/-- Before the end of the input a defect is noticed at one of the two stages of its token. -/
theorem stage_of_ne_zero {d : Diagnostic} (h : d.unread ≠ 0) :
    d.stage = 2 * d.unread + if d.error.isUnexpected then 1 else 0 := by
  unfold stage stageInFront
  split_ifs <;> omega

end Diagnostic

open Diagnostic

/-! ## Defects in order -/

/-- Defects in order, noticed between two stages. -/
structure Ordered (first last : Nat) (ds : List Diagnostic) : Prop where
  falling : ds.Pairwise Before
  le_first : ∀ d ∈ ds, d.stage ≤ first
  last_le : ∀ d ∈ ds, last ≤ d.stage

namespace Ordered

variable {first first' last last' : Nat} {ds ds' : List Diagnostic}

theorem nil (first last : Nat) : Ordered first last [] :=
  ⟨.nil, List.forall_mem_nil _, List.forall_mem_nil _⟩

theorem singleton {d : Diagnostic} (hFirst : d.stage ≤ first) (hLast : last ≤ d.stage) :
    Ordered first last [d] :=
  ⟨List.pairwise_singleton _ _, List.forall_mem_singleton.2 hFirst,
    List.forall_mem_singleton.2 hLast⟩

theorem weaken (h : Ordered first last ds) (hFirst : first ≤ first') (hLast : last' ≤ last) :
    Ordered first' last' ds :=
  ⟨h.falling, fun d hd => Nat.le_trans (h.le_first d hd) hFirst,
    fun d hd => Nat.le_trans hLast (h.last_le d hd)⟩

/-- Defects that are noticed at later stages stand behind. -/
theorem append (h : Ordered first last ds) (h' : Ordered first' last' ds')
    (hNext : first' < last ∨ first' = 0) (hFirst : first' ≤ first) (hLast : last' ≤ last) :
    Ordered first last' (ds ++ ds') where
  falling := by
    refine List.pairwise_append.2 ⟨h.falling, h'.falling, fun d hd d' hd' => ?_⟩
    have hBound := h.last_le d hd
    have hBound' := h'.le_first d' hd'
    unfold Before
    omega
  le_first := by
    rw [List.forall_mem_append]
    exact ⟨h.le_first, fun d hd => Nat.le_trans (h'.le_first d hd) hFirst⟩
  last_le := by
    rw [List.forall_mem_append]
    exact ⟨fun d hd => Nat.le_trans hLast (h.last_le d hd), h'.last_le⟩

end Ordered

namespace Grammar

open Reading

/-! ## Readings in order -/

section

variable {α β : Type} {ts : List Token}

/-- The last stage of a reading that leaves `n` tokens.  If it came to nothing, the token that is
in front then may have been missed already. -/
def lastStage (kept : Bool) (n : Nat) : Nat :=
  if n = 0 then 0 else if kept then 2 * n + 2 else 2 * n + 1

theorem lastStage_le {n m : Nat} (h : n ≤ m) (kept : Bool) :
    lastStage kept n ≤ lastStage true m := by
  simp only [lastStage, if_true]
  split_ifs <;> omega

/-- Whatever goes on behind a reading that came to something is at a later stage. -/
theorem stageInFront_lt_lastStage (n : Nat) :
    stageInFront n < lastStage true n ∨ stageInFront n = 0 := by
  unfold stageInFront lastStage
  split_ifs <;> simp_all

theorem stageInFront_le (n : Nat) : stageInFront n ≤ 2 * n + 2 := by
  unfold stageInFront
  split_ifs <;> omega

theorem stageInFront_mono {n m : Nat} (h : n ≤ m) : stageInFront n ≤ stageInFront m := by
  unfold stageInFront
  split_ifs <;> omega

/-- The defects of a reading of `ts` are in order, from the stage `first` to the last one. -/
def InOrder (first : Nat) (kept : Bool) (ts : List Token) (r : Reading α) : Prop :=
  Ordered first (lastStage kept (ts.length - r.used)) r.errors

/-- A reading behind a token that has been taken. -/
def Behind (ts : List Token) (r : Attempt α) : Prop :=
  InOrder (2 * ts.length + 2) r.value.isSome ts r

/-- A reading that goes on behind another one. -/
def Onward (ts : List Token) (r : Attempt α) : Prop :=
  InOrder (stageInFront ts.length) r.value.isSome ts r

/-- Statements, which start with the token in front, up to one that is taken or to the end. -/
def Body (ts : List Token) (r : Reading α) : Prop :=
  InOrder (2 * ts.length) true ts r

theorem Onward.behind {r : Attempt α} (h : Onward ts r) : Behind ts r :=
  Ordered.weaken h (stageInFront_le _) (Nat.le_refl _)

theorem Onward.of_errors_nil {r : Attempt α} (h : r.errors = []) : Onward ts r := by
  unfold Onward InOrder
  rw [h]
  exact .nil _ _

theorem Onward.done (a : α) (ts : List Token) : Onward ts (done a) :=
  .of_errors_nil rfl

theorem Behind.shift {r : Attempt α} (h : Behind ts r) (t : Token) : Onward (t :: ts) r.shift := by
  have hLeft : (t :: ts).length - r.shift.used = ts.length - r.used := Nat.add_sub_add_right _ 1 _
  unfold Onward InOrder
  rw [hLeft]
  refine Ordered.weaken h ?_ (Nat.le_refl _)
  rw [List.length_cons, stageInFront, if_neg (Nat.succ_ne_zero _)]
  omega

/-- A reading that came to something, and the defects noticed behind it. -/
theorem InOrder.append {r : Reading α} {first last : Nat} {ds : List Diagnostic}
    (hr : InOrder first true ts r) (hFirst : stageInFront ts.length ≤ first)
    (h : Ordered (stageInFront (ts.drop r.used).length) last ds)
    (hLast : last ≤ lastStage true (ts.drop r.used).length) :
    Ordered first last (r.errors ++ ds) := by
  rw [List.length_drop] at h hLast
  exact Ordered.append hr h (stageInFront_lt_lastStage _)
    (Nat.le_trans (stageInFront_mono (Nat.sub_le _ _)) hFirst) hLast

theorem InOrder.bind {r : Reading α} {f : α → Nat → Attempt β} {first : Nat}
    (hr : InOrder first true ts r) (hFirst : stageInFront ts.length ≤ first)
    (hf : Onward (ts.drop r.used) (f r.value r.used)) :
    InOrder first (r.bind f).value.isSome ts (r.bind f) := by
  unfold Onward InOrder at hf
  have hLeft : ts.length - (r.bind f).used =
      (ts.drop r.used).length - (f r.value r.used).used := by
    rw [used_bind, List.length_drop, Nat.sub_sub]
  unfold InOrder
  rw [hLeft]
  exact hr.append hFirst hf (lastStage_le (Nat.sub_le _ _) _)

theorem InOrder.andThen {r : Attempt α} {f : α → Nat → Attempt β} {first : Nat}
    (hr : InOrder first r.value.isSome ts r) (hFirst : stageInFront ts.length ≤ first)
    (hf : ∀ a, Onward (ts.drop r.used) (f a r.used)) :
    InOrder first (r.andThen f).value.isSome ts (r.andThen f) := by
  cases hValue : r.value with
  | none =>
      rw [hValue] at hr
      rw [andThen_of_none f hValue]
      exact hr
  | some a =>
      rw [hValue] at hr
      refine hr.bind hFirst ?_
      rw [hValue]
      exact hf a

theorem Behind.andThen {r : Attempt α} {f : α → Nat → Attempt β} (hr : Behind ts r)
    (hf : ∀ a, Onward (ts.drop r.used) (f a r.used)) : Behind ts (r.andThen f) :=
  InOrder.andThen hr (stageInFront_le _) hf

theorem Onward.andThen {r : Attempt α} {f : α → Nat → Attempt β} (hr : Onward ts r)
    (hf : ∀ a, Onward (ts.drop r.used) (f a r.used)) : Onward ts (r.andThen f) :=
  InOrder.andThen hr (Nat.le_refl _) hf

/-- Behind a token that is expected, whether or not it is found. -/
theorem Onward.expect_andThen {k : Kind} {f : Token → Nat → Attempt β}
    (hf : ∀ t, Behind (ts.drop 1) (f t 1)) : Onward ts ((expect k ts).andThen f) := by
  cases ts with
  | nil => exact .singleton (Nat.le_refl _) (Nat.zero_le _)
  | cons t ts =>
      by_cases ht : t.kind = k
      · have hNext := (hf t).shift t
        unfold Onward InOrder at hNext ⊢
        rw [expect_of_eq ht, andThen_of_some f rfl, List.nil_append, Nat.add_comm]
        exact hNext
      · -- the token is missed, and left where it is
        rw [expect_of_ne ht]
        exact .singleton (Nat.le_refl _) (Nat.le_refl _)

/-- A taken token that no operand starts with, or that no integer is written with. -/
theorem Behind.fail {error : SyntaxError} (h : error.isUnexpected = false) (ts : List Token) :
    Behind ts (fail error (ts.length + 1) : Attempt α) := by
  have hStage : stage ⟨error, ts.length + 1⟩ = 2 * ts.length + 2 := by
    simp [stage, h, Nat.mul_add]
  refine .singleton (Nat.le_of_eq hStage) ?_
  rw [hStage]
  simp only [Reading.fail, Option.isSome_none, lastStage]
  split_ifs <;> omega

/-! ### Statements -/

theorem Body.map {r : Reading α} (h : Body ts r) (f : α → β) :
    Behind ts (r.map fun a => some (f a)) :=
  Ordered.weaken h (Nat.le_add_right _ 2) (Nat.le_refl _)

theorem Body.bind {r : Reading α} {f : α → Nat → Attempt β} (hr : Body ts r)
    (hf : Onward (ts.drop r.used) (f r.value r.used)) : Behind ts (r.bind f) :=
  InOrder.bind (Ordered.weaken hr (Nat.le_add_right _ 2) (Nat.le_refl _)) (stageInFront_le _) hf

theorem used_block_pos {ts : List Token} (h : ts ≠ []) : 0 < (block ts).used := by
  cases ts with
  | nil => exact absurd rfl h
  | cons t rest =>
      rw [block]
      split
      · exact Nat.one_pos
      · exact Nat.succ_pos _

/-- The statements behind a statement start with a token that may have been missed, but has not
been taken. -/
theorem Behind.errors_append {r : Attempt α} {ds : List Diagnostic} {last : Nat} (hr : Behind ts r)
    (h : Ordered (2 * (ts.drop r.used).length) last ds)
    (hLast : last ≤ lastStage r.value.isSome (ts.length - r.used)) :
    Ordered (2 * ts.length + 2) last (r.errors ++ ds) := by
  rw [List.length_drop] at h
  refine Ordered.append hr h ?_ (by omega) hLast
  unfold lastStage
  split_ifs <;> omega

theorem Body.cons {t : Token} (ht : ¬ t.kind = .rbrace) (hStmt : Behind ts (stmt t ts))
    (hBlock : Body (ts.drop (stmt t ts).used) (block (ts.drop (stmt t ts).used))) :
    Body (t :: ts) (block (t :: ts)) := by
  have hLeft : (t :: ts).length - (block (t :: ts)).used =
      (ts.drop (stmt t ts).used).length - (block (ts.drop (stmt t ts).used)).used := by
    rw [block, if_neg ht, used_shift, used_bind, used_map, List.length_cons, List.length_drop]
    omega
  have hErrors : (block (t :: ts)).errors =
      (stmt t ts).errors ++ (block (ts.drop (stmt t ts).used)).errors := by
    rw [block, if_neg ht]
    rfl
  unfold Body InOrder
  rw [hLeft, hErrors]
  refine hStmt.errors_append hBlock ?_
  -- a block that leaves a token has taken the one that closes it
  rw [List.length_drop]
  by_cases hNil : ts.drop (stmt t ts).used = []
  · have hAll := congrArg List.length hNil
    rw [List.length_drop, List.length_nil] at hAll
    rw [hAll, Nat.zero_sub]
    exact Nat.zero_le _
  · have hUsed := used_block_pos hNil
    unfold lastStage
    split_ifs <;> omega

end

/-! ## Everything that is read -/

theorem Onward.moreParameters (ts : List Token) : Onward ts (moreParameters ts) := by
  induction ts using moreParameters.induct with
  | case1 =>
      rw [Grammar.moreParameters]
      exact .expect_andThen fun _ => (Onward.done _ _).behind
  | case2 t rest ht ih =>
      rw [Grammar.moreParameters, if_pos ht]
      refine Behind.shift (Onward.expect_andThen fun name => ?_).behind t
      exact ih.behind.andThen fun names => .done _ _
  | case3 t rest ht =>
      rw [Grammar.moreParameters, if_neg ht]
      exact .expect_andThen fun _ => (Onward.done _ _).behind

theorem Onward.parameters (ts : List Token) : Onward ts (parameters ts) := by
  unfold Grammar.parameters
  split
  · exact .of_errors_nil rfl
  · refine .expect_andThen fun name => ?_
    exact (Onward.moreParameters _).behind.andThen fun names => .done _ _

theorem Behind.conditional {ts : List Token} (hExpr : Behind (ts.drop 1) (expr .lowest (ts.drop 1)))
    (hConsequence : ∀ n, Body (ts.drop (3 + n)) (block (ts.drop (3 + n))))
    (hAlternative : ∀ n m, Body (ts.drop (5 + n + m)) (block (ts.drop (5 + n + m)))) :
    Behind ts (conditional ts) := by
  rw [Grammar.conditional]
  refine (Onward.expect_andThen fun _ => hExpr.andThen fun condition => ?_).behind
  rw [List.drop_drop]
  generalize (expr .lowest (ts.drop 1)).used = n
  refine .expect_andThen fun _ => ?_
  rw [drop_succ_add]
  refine (Onward.expect_andThen fun _ => ?_).behind
  rw [drop_succ_add]
  refine (hConsequence n).bind ?_
  rw [List.drop_drop]
  generalize (block (ts.drop (3 + n))).used = m
  split
  · next hElse =>
      rcases exists_drop_eq_else_cons hElse with ⟨t, ht, hRest, hBody⟩
      rw [hRest]
      refine Behind.shift (Onward.expect_andThen fun _ => ?_).behind t
      rw [hBody]
      exact (hAlternative n m).map _
  · exact .done _ _

theorem Behind.function {ts : List Token}
    (hBody : ∀ n, Body (ts.drop (2 + n)) (block (ts.drop (2 + n)))) : Behind ts (function ts) := by
  rw [Grammar.function]
  refine (Onward.expect_andThen fun _ => ?_).behind
  refine (Onward.parameters _).behind.andThen fun names => ?_
  rw [List.drop_drop]
  generalize (Grammar.parameters (ts.drop 1)).used = n
  refine .expect_andThen fun _ => ?_
  rw [drop_succ_add]
  exact (hBody n).map _

/-- Whatever is read notices its defects in order, by the recursion of the reader. -/
theorem inOrder :
    (∀ min ts, Behind ts (expr min ts)) ∧
    (∀ min t ts, Behind ts (exprFrom min t ts)) ∧
    (∀ min left ts, Onward ts (climb min left ts)) ∧
    (∀ ts, Behind ts (arguments ts)) ∧
    (∀ ts, Onward ts (moreArguments ts)) ∧
    (∀ t ts, Behind ts (operand t ts)) ∧
    (∀ ts, Behind ts (function ts)) ∧
    (∀ ts, Body ts (block ts)) ∧
    (∀ t ts, Behind ts (stmt t ts)) ∧
    (∀ ts, Behind ts (conditional ts)) := by
  apply expr.mutual_induct
  -- expressions
  · intro min
    rw [expr]
    exact .singleton (by decide) (Nat.zero_le _)
  · intro min t rest ih
    rw [expr]
    exact (ih.shift t).behind
  · intro min t ts hOperand hClimb
    rw [exprFrom]
    exact hOperand.andThen fun left => hClimb left _
  · intro min left
    rw [climb]
    exact .done _ _
  · intro min left t rest hlt op hop hExpr hClimb
    rw [climb, if_pos hlt, hop]
    exact (hExpr.andThen fun right => hClimb right _).shift t
  · intro min left t rest hlt hop hArguments hClimb
    rw [climb, if_pos hlt, hop]
    exact (hArguments.andThen fun es => hClimb es _).shift t
  · intro min left t rest hlt
    rw [climb, if_neg hlt]
    exact .done _ _
  -- arguments
  · intro ts h
    rw [arguments, if_pos h]
    exact (Onward.of_errors_nil rfl).behind
  · intro ts h hExpr hMore
    rw [arguments, if_neg h]
    exact hExpr.andThen fun e => (hMore _).andThen fun es => .done _ _
  · rw [moreArguments]
    exact .expect_andThen fun _ => (Onward.done _ _).behind
  · intro t rest ht hExpr hMore
    rw [moreArguments, if_pos ht]
    refine (hExpr.andThen fun e => ?_).shift t
    exact (hMore _).andThen fun es => .done _ _
  · intro t rest ht
    rw [moreArguments, if_neg ht]
    exact .expect_andThen fun _ => (Onward.done _ _).behind
  -- operands
  · intro t ts h
    rw [operand, h]
    exact (Onward.done _ _).behind
  · intro t ts h n hn
    rw [operand, h, hn]
    exact (Onward.done _ _).behind
  · intro t ts h hn
    rw [operand, h, hn]
    exact .fail rfl ts
  · intro t ts h
    rw [operand, h]
    exact (Onward.done _ _).behind
  · intro t ts h
    rw [operand, h]
    exact (Onward.done _ _).behind
  · intro t ts h hExpr
    rw [operand, h]
    exact hExpr.andThen fun e => .done _ _
  · intro t ts h hExpr
    rw [operand, h]
    exact hExpr.andThen fun e => .done _ _
  · intro t ts h hExpr
    rw [operand, h]
    exact hExpr.andThen fun e => .expect_andThen fun _ => (Onward.done _ _).behind
  · intro t ts h hConditional
    rw [operand, h]
    exact hConditional
  · intro t ts h hFunction
    rw [operand, h]
    exact hFunction
  · intro t ts hIdent hInt hTrue hFalse hBang hMinus hLparen hIf hFn
    rw [operand]
    split
    all_goals try contradiction
    exact .fail rfl ts
  -- function literals and blocks
  · intro ts hBlock
    exact .function hBlock
  · rw [block]
    exact .nil _ _
  · intro t rest h
    rw [block, if_pos h]
    exact .nil _ _
  · intro t rest h hStmt hBlock
    exact .cons h hStmt (hBlock _)
  -- statements
  · intro t ts h hExpr
    rw [stmt, h]
    refine (Onward.expect_andThen fun name => ?_).behind
    refine (Onward.expect_andThen fun _ => ?_).behind
    rw [List.drop_drop]
    exact hExpr.andThen fun value => .of_errors_nil rfl
  · intro t ts h hEnds
    rw [stmt, h]
    simp only [hEnds, if_true]
    exact (Onward.of_errors_nil rfl).behind
  · intro t ts h hEnds hExpr
    rw [stmt, h]
    simp only [hEnds, Bool.false_eq_true, if_false]
    exact hExpr.andThen fun value => .of_errors_nil rfl
  · intro t ts hLet hReturn hExpr
    rw [stmt]
    split
    · contradiction
    · contradiction
    · exact hExpr.andThen fun value => .of_errors_nil rfl
  -- conditionals
  · intro ts hExpr hConsequence hAlternative
    exact .conditional hExpr hConsequence hAlternative

/-- The statements of a program start with a token that has not been taken, like those behind a
statement that was dropped. -/
theorem orderedProgram (ts : List Token) : Ordered (2 * ts.length) 0 (program ts).errors := by
  induction ts using program.induct with
  | case1 =>
      rw [program]
      exact .nil _ _
  | case2 t rest ih =>
      rw [program, errors_shift, errors_bind, errors_map]
      exact (inOrder.2.2.2.2.2.2.2.2.1 t rest).errors_append (ih _) (Nat.zero_le _)

/-! ## The tokens that are blamed -/

/-- Each defect says of the token that it blames what that is.  Behind the last token it blames the
end of the input. -/
def Named (ts : List Token) (ds : List Diagnostic) (_ : Nat) : Prop :=
  ∀ d ∈ ds, ∃ vs, vs <:+ ts ∧ vs.length = d.unread ∧ d.error.Blames (vs.headD .eof)

theorem Named.singleton {error : SyntaxError} {ts : List Token} {n : Nat}
    (h : error.Blames (ts.headD .eof)) : Named ts [⟨error, ts.length⟩] n :=
  List.forall_mem_singleton.2 ⟨ts, List.suffix_refl ts, rfl, h⟩

theorem additive_named : Additive Named where
  done _ := List.forall_mem_nil _
  append {ts es es' n n'} h h' := by
    refine List.forall_mem_append.2 ⟨h, fun d hd => ?_⟩
    rcases h' d hd with ⟨vs, hSuffix, hLength, hBlames⟩
    exact ⟨vs, hSuffix.trans (List.drop_suffix n ts), hLength, hBlames⟩
  take _ := List.forall_mem_nil _
  unexpected {k ts} _ := by
    refine .singleton ?_
    cases ts <;> rfl
  noOperand _ := .singleton rfl
  noOperand_end := .singleton rfl
  invalidInteger ht _ := .singleton ⟨ht, rfl⟩

end Grammar

/-! ## Lists of defects -/

namespace Diagnostic

/-- No two defects of a list that is in order are of one stage, unless it is the last. -/
theorem length_le_one {n : Nat} {ds : List Diagnostic} (h : ds.Pairwise Before) (hn : n ≠ 0)
    (hStage : ∀ d ∈ ds, d.stage = n) : ds.length ≤ 1 := by
  match ds, h, hStage with
  | [], _, _ => exact Nat.zero_le 1
  | [_], _, _ => exact Nat.le_refl 1
  | d :: d' :: _, h, hStage =>
      have hBefore := List.rel_of_pairwise_cons h List.mem_cons_self
      have hFirst := hStage d List.mem_cons_self
      have hSecond := hStage d' (List.mem_cons_of_mem _ List.mem_cons_self)
      unfold Before at hBefore
      omega

/-- Two defects of a token are an unexpected token and then one that no operand starts with. -/
theorem isUnexpected_of_before {d d' : Diagnostic} (hUnread : d'.unread = d.unread)
    (hEnd : d.unread ≠ 0) (h : d.Before d') :
    d.error.isUnexpected = true ∧ d'.error.isUnexpected = false := by
  have hStage := stage_of_ne_zero hEnd
  have hStage' := stage_of_ne_zero (d := d') (hUnread ▸ hEnd)
  unfold Before at h
  cases hFirst : d.error.isUnexpected <;> cases hSecond : d'.error.isUnexpected <;>
    simp only [hFirst, hSecond, Bool.false_eq_true, if_false, if_true] at hStage hStage' <;>
    simp <;> omega

/-- Nothing but `false` stands behind an entry, and nothing but `true` in front of one. -/
theorem sublist_of_pairwise {bs : List Bool} (h : bs.Pairwise fun b b' => b = true ∧ b' = false) :
    bs.Sublist [true, false] := by
  match bs, h with
  | [], _ => exact List.nil_sublist _
  | [b], _ => cases b <;> decide
  | b :: b' :: rest, h =>
      rcases List.rel_of_pairwise_cons h List.mem_cons_self with ⟨rfl, rfl⟩
      have hRest : rest = [] := by
        refine List.eq_nil_iff_forall_not_mem.2 fun c hc => ?_
        cases (List.rel_of_pairwise_cons h.of_cons hc).1
      subst hRest
      exact .refl _

/-- A token is blamed as unexpected at most once, and then for what it is at most once. -/
theorem isUnexpected_sublist {n : Nat} {ds : List Diagnostic} (h : ds.Pairwise Before) (hn : n ≠ 0)
    (hUnread : ∀ d ∈ ds, d.unread = n) :
    (ds.map fun d => d.error.isUnexpected).Sublist [true, false] := by
  refine sublist_of_pairwise (List.pairwise_map.2 (h.imp_of_mem fun {d d'} hd hd' hBefore => ?_))
  refine isUnexpected_of_before ?_ ?_ hBefore
  · rw [hUnread d hd, hUnread d' hd']
  · rwa [hUnread d hd]

end Diagnostic

/-! ## Source texts -/

theorem pairwise_diagnostics (source : String) : (parse source).diagnostics.Pairwise Before :=
  (Grammar.orderedProgram _).falling

/-- The blamed token stands at the index of the defect.  At the end of the input no token does. -/
theorem blames_of_mem {source : String} {d : Diagnostic} (hd : d ∈ (parse source).diagnostics) :
    d.unread ≤ (Token.lexemes source.toList).length ∧
      ∃ t, (Token.ofString source)[d.index (Token.lexemes source.toList).length]? = some t ∧
        d.error.Blames t := by
  rcases Grammar.additive_named.program (Token.lexemes source.toList) d hd with
    ⟨vs, ⟨us, hTokens⟩, hLength, hBlames⟩
  unfold Token.ofString index
  rw [← hTokens, ← hLength, List.length_append]
  refine ⟨Nat.le_add_left _ _, vs.headD .eof, ?_, hBlames⟩
  rw [Nat.add_sub_cancel, List.append_assoc, List.getElem?_append_right (Nat.le_refl _),
    Nat.sub_self]
  cases vs <;> rfl

theorem unread_of_eof {source : String} {d : Diagnostic} (hd : d ∈ (parse source).diagnostics)
    (hError : d.error = .noOperand .eof) : d.unread = 0 := by
  rcases Grammar.additive_named.program (Token.lexemes source.toList) d hd with
    ⟨vs, hSuffix, hLength, hBlames⟩
  rw [hError] at hBlames
  rw [← hLength, List.length_eq_zero_iff]
  cases vs with
  | nil => rfl
  | cons t vs =>
      have hMem : t ∈ Token.lexemes source.toList := hSuffix.mem List.mem_cons_self
      exact absurd hBlames.symm ((Token.segmented_lexemes _).proper t hMem).2

/-- Defects are noticed in the order of the tokens that they blame, and each says what the blamed
token is.  A token is blamed at most once because another one was expected, and behind that at most
once because no operand starts with it or no integer is written with it.  At the end of the input an
operand is missed at most once. -/
theorem diagnostics_in_order (source : String) :
    (∀ d ∈ (parse source).diagnostics,
      d.unread ≤ (Token.lexemes source.toList).length ∧
        ∃ t, (Token.ofString source)[d.index (Token.lexemes source.toList).length]? = some t ∧
          d.error.Blames t) ∧
    ((parse source).diagnostics.map fun d =>
      d.index (Token.lexemes source.toList).length).Pairwise (· ≤ ·) ∧
    (∀ i < (Token.lexemes source.toList).length,
      (((parse source).diagnostics.filter fun d =>
          d.index (Token.lexemes source.toList).length = i).map fun d =>
        d.error.isUnexpected).Sublist [true, false]) ∧
    (parse source).errors.count (.noOperand .eof) ≤ 1 := by
  have hOrder := pairwise_diagnostics source
  refine ⟨fun d hd => blames_of_mem hd, ?nondecreasing, fun i hi => ?token, ?endOfInput⟩
  case nondecreasing =>
    exact List.pairwise_map.2 (hOrder.imp fun hBefore => Nat.sub_le_sub_left hBefore.unread_le _)
  case token =>
    refine isUnexpected_sublist (n := (Token.lexemes source.toList).length - i)
      (hOrder.filter _) (by omega) fun d hd => ?_
    rcases List.mem_filter.1 hd with ⟨hMem, hIndex⟩
    have hUnread := (blames_of_mem hMem).1
    have hIndex := of_decide_eq_true hIndex
    unfold index at hIndex
    omega
  case endOfInput =>
    rw [Parsed.errors, List.count, List.countP_map, List.countP_eq_length_filter]
    refine length_le_one (n := 1) (hOrder.filter _) (by decide) fun d hd => ?_
    rcases List.mem_filter.1 hd with ⟨hMem, hError⟩
    have hError : d.error = .noOperand .eof := eq_of_beq hError
    simp [stage, hError, unread_of_eof hMem hError, SyntaxError.isUnexpected]

/-- A text whose second token is not the name that a `let` expects, and then starts no operand. -/
def blamedSource : String :=
  "let ) (fn() \x7b let x ="

/-- It is blamed for both, and at the end of the input a value and a bracket are missed. -/
theorem diagnostics_in_order_blamed :
    (parse blamedSource).diagnostics.map (fun d => (d.error, d.index 10)) =
        [(.unexpected .ident .rparen, 1), (.noOperand .rparen, 1), (.noOperand .eof, 10),
          (.unexpected .rparen .eof, 10)] ∧
      (((parse blamedSource).diagnostics.filter fun d => d.index 10 = 1).map fun d =>
        d.error.isUnexpected).Sublist [true, false] ∧
      (parse blamedSource).errors.count (.noOperand .eof) ≤ 1 := by
  have hLength : (Token.lexemes blamedSource.toList).length = 10 := by
    decide +kernel
  have hOrder := diagnostics_in_order blamedSource
  rw [hLength] at hOrder
  refine ⟨?_, hOrder.2.2.1 1 (by decide), hOrder.2.2.2⟩
  with_unfolding_all rfl

end MonkeyLang
