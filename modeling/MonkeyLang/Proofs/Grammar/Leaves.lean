import MonkeyLang.Proofs.Grammar.Additive
import MonkeyLang.Proofs.Grammar.Rendering
import MonkeyLang.Proofs.Token.Segmentation

/-!
# Leaves — what the trees that are read are made of

The leaves of a tree are its names, numbers and truth values from left to right.  A program that is
read has only leaves that are tokens of the text, in the order of the text and each of them once,
whatever has been dropped on the way; and if nothing was dropped it has all of them (`Gathers`).  So
such a program could be written down: its names are names, none of its numbers is negative, and no
block stands as a statement in it.
-/

namespace MonkeyLang

/-! ## Leaves of trees and tokens -/

/-- A name, a number or a truth value. -/
inductive Leaf
  | name (n : String)
  | int (n : Int)
  | bool (b : Bool)
  deriving DecidableEq

/-- The leaf can be a token. -/
def Leaf.Proper : Leaf → Prop
  | .name n => IsName n
  | .int n => 0 ≤ n
  | .bool _ => True

mutual

/-- The leaves of an expression from left to right.  Those of a function literal begin with its
parameters. -/
def Expr.leaves : Expr → List Leaf
  | .ident name => [.name name]
  | .int value => [.int value.toInt]
  | .bool value => [.bool value]
  | .prefixOp _ right => right.leaves
  | .infixOp _ left right => left.leaves ++ right.leaves
  | .cond condition consequence none => condition.leaves ++ Stmt.leavesList consequence
  | .cond condition consequence (some alternative) =>
      condition.leaves ++ (Stmt.leavesList consequence ++ Stmt.leavesList alternative)
  | .fn parameters body => parameters.map Leaf.name ++ Stmt.leavesList body
  | .call callee arguments => callee.leaves ++ Expr.leavesList arguments

def Expr.leavesList : List Expr → List Leaf
  | [] => []
  | e :: es => e.leaves ++ Expr.leavesList es

def Stmt.leaves : Stmt → List Leaf
  | .bind name value => .name name :: value.leaves
  | .ret none => []
  | .ret (some value) => value.leaves
  | .expr value => value.leaves
  | .block body => Stmt.leavesList body

def Stmt.leavesList : List Stmt → List Leaf
  | [] => []
  | s :: ss => s.leaves ++ Stmt.leavesList ss

end

def Program.leaves (p : Program) : List Leaf :=
  Stmt.leavesList p.statements

/-- The leaf that a token may become. -/
def Token.leaf? (t : Token) : Option Leaf :=
  match t.kind with
  | .ident => some (.name t.literal)
  | .int => some (.int (Grammar.digitsValue t.literal.toList))
  | .trueWord => some (.bool true)
  | .falseWord => some (.bool false)
  | _ => none

namespace Grammar

open Reading

/-! ## Trees with given leaves -/

/-- What has the leaves `own` has the given ones, and it is writable if they can be tokens. -/
def MadeOf (own : List Leaf) (writable : Prop) (ls : List Leaf) : Prop :=
  own = ls ∧ ((∀ l ∈ ls, l.Proper) → writable)

def ExprOf (e : Expr) (ls : List Leaf) : Prop :=
  MadeOf e.leaves e.Writable ls

def ExprsOf (es : List Expr) (ls : List Leaf) : Prop :=
  MadeOf (Expr.leavesList es) (Expr.AllWritable es) ls

def StmtOf (s : Stmt) (ls : List Leaf) : Prop :=
  MadeOf s.leaves s.Writable ls

def StmtsOf (ss : List Stmt) (ls : List Leaf) : Prop :=
  MadeOf (Stmt.leavesList ss) (Stmt.AllWritable ss) ls

def NamesOf (names : List String) (ls : List Leaf) : Prop :=
  MadeOf (names.map Leaf.name) (∀ name ∈ names, IsName name) ls

section

variable {e e' : Expr} {es : List Expr} {s : Stmt} {ss ss' : List Stmt} {names : List String}
  {ls ms ns : List Leaf}

theorem MadeOf.nil : MadeOf [] True [] :=
  ⟨rfl, fun _ => trivial⟩

theorem MadeOf.single (l : Leaf) : MadeOf [l] l.Proper [l] :=
  ⟨rfl, fun h => h l List.mem_cons_self⟩

theorem MadeOf.append {own own' : List Leaf} {w w' : Prop} (h : MadeOf own w ls)
    (h' : MadeOf own' w' ms) : MadeOf (own ++ own') (w ∧ w') (ls ++ ms) := by
  rcases h with ⟨rfl, hw⟩
  rcases h' with ⟨rfl, hw'⟩
  refine ⟨rfl, fun hProper => ?_⟩
  rw [List.forall_mem_append] at hProper
  exact ⟨hw hProper.1, hw' hProper.2⟩

theorem ExprOf.ident (name : String) : ExprOf (.ident name) [.name name] :=
  .single (.name name)

theorem ExprOf.int (n : Int64) : ExprOf (.int n) [.int n.toInt] :=
  .single (.int n.toInt)

theorem ExprOf.bool (b : Bool) : ExprOf (.bool b) [.bool b] :=
  .single (.bool b)

theorem ExprOf.prefixOp (op : PrefixOp) (he : ExprOf e ls) : ExprOf (.prefixOp op e) ls :=
  he

theorem ExprOf.infixOp (op : InfixOp) (he : ExprOf e ls) (he' : ExprOf e' ms) :
    ExprOf (.infixOp op e e') (ls ++ ms) :=
  he.append he'

theorem ExprOf.cond (he : ExprOf e ls) (hss : StmtsOf ss ms) :
    ExprOf (.cond e ss none) (ls ++ ms) :=
  he.append hss

theorem ExprOf.condElse (he : ExprOf e ls) (hss : StmtsOf ss ms) (hss' : StmtsOf ss' ns) :
    ExprOf (.cond e ss (some ss')) (ls ++ (ms ++ ns)) :=
  he.append (hss.append hss')

theorem ExprOf.fn (hNames : NamesOf names ls) (hss : StmtsOf ss ms) :
    ExprOf (.fn names ss) (ls ++ ms) :=
  hNames.append hss

theorem ExprOf.call (he : ExprOf e ls) (hes : ExprsOf es ms) : ExprOf (.call e es) (ls ++ ms) :=
  he.append hes

theorem ExprsOf.nil : ExprsOf [] [] :=
  MadeOf.nil

theorem ExprsOf.cons (he : ExprOf e ls) (hes : ExprsOf es ms) : ExprsOf (e :: es) (ls ++ ms) :=
  he.append hes

theorem NamesOf.nil : NamesOf [] [] :=
  ⟨rfl, fun _ => List.forall_mem_nil _⟩

theorem NamesOf.cons (name : String) (hNames : NamesOf names ls) :
    NamesOf (name :: names) (.name name :: ls) := by
  rcases hNames with ⟨rfl, hw⟩
  refine ⟨rfl, fun hProper => ?_⟩
  rw [List.forall_mem_cons] at hProper ⊢
  exact ⟨hProper.1, hw hProper.2⟩

theorem StmtOf.bind (name : String) (he : ExprOf e ls) :
    StmtOf (.bind name e) (.name name :: ls) :=
  (MadeOf.single (.name name)).append he

theorem StmtOf.ret : StmtOf (.ret none) [] :=
  MadeOf.nil

theorem StmtOf.retValue (he : ExprOf e ls) : StmtOf (.ret (some e)) ls :=
  he

theorem StmtOf.expr (he : ExprOf e ls) : StmtOf (.expr e) ls :=
  he

theorem StmtsOf.nil : StmtsOf [] [] :=
  MadeOf.nil

theorem StmtsOf.cons (hs : StmtOf s ls) (hss : StmtsOf ss ms) : StmtsOf (s :: ss) (ls ++ ms) :=
  hs.append hss

theorem leavesList_append (ss ss' : List Stmt) :
    Stmt.leavesList (ss ++ ss') = Stmt.leavesList ss ++ Stmt.leavesList ss' := by
  induction ss with
  | nil => rfl
  | cons s ss ih => rw [List.cons_append, Stmt.leavesList, Stmt.leavesList, ih, List.append_assoc]

theorem allWritable_append (ss ss' : List Stmt) :
    Stmt.AllWritable (ss ++ ss') ↔ Stmt.AllWritable ss ∧ Stmt.AllWritable ss' := by
  induction ss with
  | nil => simp [Stmt.AllWritable]
  | cons s ss ih => simp only [List.cons_append, Stmt.AllWritable, ih, and_assoc]

theorem StmtsOf.append (hss : StmtsOf ss ls) (hss' : StmtsOf ss' ms) :
    StmtsOf (ss ++ ss') (ls ++ ms) := by
  unfold StmtsOf
  rw [leavesList_append, allWritable_append]
  exact MadeOf.append hss hss'

end

/-! ## Leaves of tokens -/

/-- The leaves that tokens may become, in order. -/
def gathered (ts : List Token) : List Leaf :=
  ts.filterMap Token.leaf?

theorem gathered_cons (t : Token) (ts : List Token) :
    gathered (t :: ts) = t.leaf?.toList ++ gathered ts := by
  rw [gathered, List.filterMap_cons]
  cases t.leaf? <;> rfl

/-- The kinds of tokens that become leaves. -/
def leafKinds : List Kind :=
  [.ident, .int, .trueWord, .falseWord]

theorem leaf?_of_not_mem {t : Token} (h : t.kind ∉ leafKinds) : t.leaf? = none := by
  unfold Token.leaf?
  split <;> simp_all [leafKinds]

theorem leaf?_of_ident {t : Token} (h : t.kind = .ident) : t.leaf? = some (.name t.literal) := by
  rw [Token.leaf?, h]

/-! ## Readings that gather leaves -/

section

variable {α β : Type} {ts : List Token}

/-- What an attempt came to has leaves, as `P` says, that are gathered from the tokens used; and if
no defect was noticed, these are all of them.  It came to nothing only because of a defect. -/
structure Gathers (P : α → List Leaf → Prop) (ts : List Token) (r : Attempt α) : Prop where
  kept : ∀ {a}, r.value = some a → ∃ ls, P a ls ∧ ls.Sublist (gathered (ts.take r.used)) ∧
    (r.errors = [] → ls = gathered (ts.take r.used))
  dropped : r.value = none → r.errors ≠ []

namespace Gathers

variable {P : α → List Leaf → Prop} {Q : β → List Leaf → Prop}

theorem done {a : α} (h : P a []) (ts : List Token) : Gathers P ts (done a) where
  kept hValue := by
    cases hValue
    exact ⟨[], h, List.nil_sublist _, fun _ => rfl⟩
  dropped := nofun

theorem fail (error : SyntaxError) (n : Nat) (ts : List Token) :
    Gathers P ts (fail error n) where
  kept := nofun
  dropped _ := List.cons_ne_nil _ _

/-- One token in front, with the leaf that it becomes. -/
theorem shift {r : Attempt α} {t : Token}
    (h : Gathers (fun a ls => P a (t.leaf?.toList ++ ls)) ts r) : Gathers P (t :: ts) r.shift where
  kept hValue := by
    rcases h.kept hValue with ⟨ls, hls, hSublist, hAll⟩
    rw [used_shift, errors_shift, List.take_succ_cons, gathered_cons]
    exact ⟨_, hls, hSublist.append_left _, fun hErrors => congrArg _ (hAll hErrors)⟩
  dropped := h.dropped

theorem shift_mark {r : Attempt α} {t : Token} (ht : t.kind ∉ leafKinds) (h : Gathers P ts r) :
    Gathers P (t :: ts) r.shift := by
  refine shift ?_
  rw [leaf?_of_not_mem ht]
  exact h

theorem andThen {r : Attempt α} {f : α → Nat → Attempt β} (hr : Gathers P ts r)
    (hf : ∀ a ls, P a ls →
      Gathers (fun b ms => Q b (ls ++ ms)) (ts.drop r.used) (f a r.used)) :
    Gathers Q ts (r.andThen f) := by
  cases hFirst : r.value with
  | none =>
      rw [andThen_of_none f hFirst]
      exact ⟨nofun, fun _ => hr.dropped hFirst⟩
  | some a =>
      rcases hr.kept hFirst with ⟨ls, hls, hSublist, hAll⟩
      have hNext := hf a ls hls
      rw [andThen_of_some f hFirst]
      constructor
      · intro b hValue
        rcases hNext.kept hValue with ⟨ms, hms, hSublist', hAll'⟩
        simp only [List.take_add, gathered, List.filterMap_append, List.append_eq_nil_iff]
        refine ⟨ls ++ ms, hms, hSublist.append hSublist', fun hErrors => ?_⟩
        rw [hAll hErrors.1, hAll' hErrors.2]
        rfl
      · intro hValue hErrors
        exact hNext.dropped hValue (List.append_eq_nil_iff.1 hErrors).2

/-- What an attempt came to, put into something with the leaves `pre` in front. -/
theorem andThen_done {pre : List Leaf} {r : Attempt α} {g : α → β} (hr : Gathers P ts r)
    (hg : ∀ a ls, P a ls → Q (g a) (pre ++ ls)) :
    Gathers (fun b ls => Q b (pre ++ ls)) ts (r.andThen fun a _ => Reading.done (g a)) := by
  refine hr.andThen fun a ls hls => done ?_ _
  rw [List.append_nil]
  exact hg a ls hls

/-- Behind a token that is expected and found. -/
theorem expect_andThen {k : Kind} {f : Token → Nat → Attempt β}
    (hf : ∀ t, t.kind = k →
      Gathers (fun b ls => Q b (t.leaf?.toList ++ ls)) (ts.drop 1) (f t 1)) :
    Gathers Q ts ((expect k ts).andThen f) := by
  cases ts with
  | nil => exact fail _ _ _
  | cons t ts =>
      by_cases ht : t.kind = k
      · have hNext := (hf t ht).shift
        rw [expect_of_eq ht, andThen_of_some f rfl, List.nil_append, Nat.add_comm]
        exact hNext
      · rw [expect_of_ne ht]
        exact fail _ _ _

theorem expect_mark_andThen {k : Kind} {f : Token → Nat → Attempt β} (hk : k ∉ leafKinds)
    (hf : ∀ t, Gathers Q (ts.drop 1) (f t 1)) : Gathers Q ts ((expect k ts).andThen f) := by
  refine expect_andThen fun t ht => ?_
  rw [leaf?_of_not_mem (ht ▸ hk)]
  exact hf t

/-- A mark that stands in front, as the lookahead says, and nothing else. -/
theorem mark_of_lookahead {k : Kind} {a : α} (h : lookahead ts = k) (hk : k ∉ .eof :: leafKinds)
    (ha : P a []) : Gathers P ts ⟨some a, [], 1⟩ := by
  rw [List.mem_cons, not_or] at hk
  cases ts with
  | nil => exact absurd h.symm hk.1
  | cons t ts =>
      have hMark : t.kind ∉ leafKinds := by
        rw [show t.kind = k from h]
        exact hk.2
      exact (done ha ts).shift_mark hMark

theorem ended {P : Stmt → List Leaf → Prop} {s : Stmt} (hs : P s []) (ts : List Token) :
    Gathers P ts (ended s ts) := by
  unfold Grammar.ended
  by_cases h : lookahead ts = .semicolon
  · rw [if_pos h]
    exact mark_of_lookahead h (by decide) hs
  · rw [if_neg h]
    exact done hs ts

/-- Behind a reading that always comes to something. -/
theorem bind {r : Reading α} {f : α → Nat → Attempt β} (hr : Gathers P ts (r.map some))
    (hf : ∀ a ls, P a ls →
      Gathers (fun b ms => Q b (ls ++ ms)) (ts.drop r.used) (f a r.used)) :
    Gathers Q ts (r.bind f) :=
  hr.andThen hf

theorem map {r : Reading α} {g : α → β} (hr : Gathers P ts (r.map some))
    (hg : ∀ a ls, P a ls → Q (g a) ls) : Gathers Q ts (r.map fun a => some (g a)) where
  kept hValue := by
    cases hValue
    rcases hr.kept rfl with ⟨ls, hls, hRest⟩
    exact ⟨ls, hg _ ls hls, hRest⟩
  dropped := nofun

/-! ### Lists of statements -/

/-- A statement that came to nothing leaves no leaves. -/
theorem toList {r : Attempt Stmt} (h : Gathers StmtOf ts r) :
    Gathers StmtsOf ts (r.map fun s => some s.toList) where
  kept hValue := by
    cases hValue
    cases hFirst : r.value with
    | none => exact ⟨[], .nil, List.nil_sublist _, fun hErrors => absurd hErrors (h.dropped hFirst)⟩
    | some s =>
        rcases h.kept hFirst with ⟨ls, hls, hRest⟩
        have hOne := StmtsOf.cons hls .nil
        rw [List.append_nil] at hOne
        exact ⟨ls, hOne, hRest⟩
  dropped := nofun

/-- A statement in front of a list of statements. -/
theorem statements {t : Token} {more : List Token → Reading (List Stmt)}
    (hStmt : Gathers (fun s ls => StmtOf s (t.leaf?.toList ++ ls)) ts (stmt t ts))
    (hMore : Gathers StmtsOf (ts.drop (stmt t ts).used)
      ((more (ts.drop (stmt t ts).used)).map some)) :
    Gathers StmtsOf (t :: ts) (((stmt t ts).bind fun s n =>
      (more (ts.drop n)).map fun ss => s.toList ++ ss).shift.map some) := by
  have hEq : (((stmt t ts).bind fun s n =>
      (more (ts.drop n)).map fun ss => s.toList ++ ss).shift.map some) =
      ((stmt t ts).shift.map fun s => some s.toList).andThen fun xs n =>
        (more ((t :: ts).drop n)).map fun ss => some (xs ++ ss) := by
    simp [Reading.andThen, Reading.bind, Reading.map, Reading.shift, Nat.add_right_comm]
  rw [hEq]
  exact hStmt.shift.toList.andThen fun xs ls hxs => hMore.map fun ss ms hss => hxs.append hss

end Gathers
end

/-! ## Parameters -/

theorem gathersMoreParameters (ts : List Token) : Gathers NamesOf ts (moreParameters ts) := by
  induction ts using moreParameters.induct with
  | case1 =>
      rw [moreParameters]
      exact .expect_mark_andThen (by decide) fun _ => .done .nil _
  | case2 t rest ht ih =>
      rw [moreParameters, if_pos ht]
      refine .shift_mark (by rw [ht]; decide) (.expect_andThen fun name hName => ?_)
      rw [leaf?_of_ident hName]
      exact ih.andThen_done fun names ls hNames => hNames.cons name.literal
  | case3 t rest ht =>
      rw [moreParameters, if_neg ht]
      exact .expect_mark_andThen (by decide) fun _ => .done .nil _

theorem gathersParameters (ts : List Token) : Gathers NamesOf ts (parameters ts) := by
  unfold parameters
  split
  · next h => exact .mark_of_lookahead h (by decide) .nil
  · refine .expect_andThen fun name hName => ?_
    rw [leaf?_of_ident hName]
    exact (gathersMoreParameters _).andThen_done fun names ls hNames => hNames.cons name.literal

/-! ## Conditionals and function literals -/

theorem gathersConditional {ts : List Token}
    (hExpr : Gathers ExprOf (ts.drop 1) (expr .lowest (ts.drop 1)))
    (hConsequence : ∀ n, Gathers StmtsOf (ts.drop (3 + n)) ((block (ts.drop (3 + n))).map some))
    (hAlternative : ∀ n m,
      Gathers StmtsOf (ts.drop (5 + n + m)) ((block (ts.drop (5 + n + m))).map some)) :
    Gathers ExprOf ts (conditional ts) := by
  rw [conditional]
  refine .expect_mark_andThen (by decide) fun _ => hExpr.andThen fun e ls he => ?_
  rw [List.drop_drop]
  generalize (expr .lowest (ts.drop 1)).used = n
  refine .expect_mark_andThen (by decide) fun _ => ?_
  rw [drop_succ_add]
  refine .expect_mark_andThen (by decide) fun _ => ?_
  rw [drop_succ_add]
  refine (hConsequence n).bind fun ss ms hss => ?_
  rw [List.drop_drop]
  generalize (block (ts.drop (3 + n))).used = m
  split
  · next hElse =>
      rcases exists_drop_eq_else_cons hElse with ⟨t, ht, hRest, hBody⟩
      rw [hRest]
      refine .shift_mark (by rw [ht]; decide) (.expect_mark_andThen (by decide) fun _ => ?_)
      rw [hBody]
      exact (hAlternative n m).map fun ss' ns hss' => he.condElse hss hss'
  · refine .done ?_ _
    rw [List.append_nil]
    exact he.cond hss

theorem gathersFunction {ts : List Token}
    (hBody : ∀ n, Gathers StmtsOf (ts.drop (2 + n)) ((block (ts.drop (2 + n))).map some)) :
    Gathers ExprOf ts (function ts) := by
  rw [function]
  refine .expect_mark_andThen (by decide) fun _ => ?_
  refine (gathersParameters _).andThen fun names ls hNames => ?_
  rw [List.drop_drop]
  generalize (parameters (ts.drop 1)).used = n
  refine .expect_mark_andThen (by decide) fun _ => ?_
  rw [drop_succ_add]
  exact (hBody n).map fun ss ms hss => ExprOf.fn hNames hss

/-! ## Everything that is read -/

/-- Whatever is read is made of leaves that are gathered from the tokens used, by the recursion of
the reader. -/
theorem gathers :
    (∀ min ts, Gathers ExprOf ts (expr min ts)) ∧
    (∀ min t ts, Gathers (fun e ls => ExprOf e (t.leaf?.toList ++ ls)) ts (exprFrom min t ts)) ∧
    (∀ min left ts, ∀ ls, ExprOf left ls →
      Gathers (fun e ms => ExprOf e (ls ++ ms)) ts (climb min left ts)) ∧
    (∀ ts, Gathers ExprsOf ts (arguments ts)) ∧
    (∀ ts, Gathers ExprsOf ts (moreArguments ts)) ∧
    (∀ t ts, Gathers (fun e ls => ExprOf e (t.leaf?.toList ++ ls)) ts (operand t ts)) ∧
    (∀ ts, Gathers ExprOf ts (function ts)) ∧
    (∀ ts, Gathers StmtsOf ts ((block ts).map some)) ∧
    (∀ t ts, Gathers (fun s ls => StmtOf s (t.leaf?.toList ++ ls)) ts (stmt t ts)) ∧
    (∀ ts, Gathers ExprOf ts (conditional ts)) := by
  have hMark : ∀ {t : Token} {k : Kind}, t.kind = k → k ∉ leafKinds → t.leaf?.toList = [] := by
    intro t k ht hk
    rw [leaf?_of_not_mem (ht ▸ hk)]
    rfl
  apply expr.mutual_induct
  -- expressions
  · intro min
    rw [expr]
    exact .fail _ _ _
  · intro min t rest ih
    rw [expr]
    exact ih.shift
  · intro min t ts hOperand hClimb
    rw [exprFrom]
    refine hOperand.andThen fun left ls hLeft => ?_
    have hNext := hClimb left (operand t ts).used _ hLeft
    simpa only [List.append_assoc] using hNext
  · intro min left ls hLeft
    rw [climb]
    refine .done ?_ _
    rwa [List.append_nil]
  · intro min left t rest hlt op hop hExpr hClimb ls hLeft
    have hKind : t.kind ∉ leafKinds := by
      rw [InfixOp.kind_of_ofKind? hop]
      cases op <;> decide
    rw [climb, if_pos hlt, hop]
    refine .shift_mark hKind (hExpr.andThen fun right ms hRight => ?_)
    have hNext := hClimb right (expr (Precedence.ofKind t.kind) rest).used _
      (hLeft.infixOp op hRight)
    simpa only [List.append_assoc] using hNext
  · intro min left t rest hlt hop hArguments hClimb ls hLeft
    have hKind : t.kind ∉ leafKinds := by
      rw [Precedence.eq_lparen_of_lt hlt hop]
      decide
    rw [climb, if_pos hlt, hop]
    refine .shift_mark hKind (hArguments.andThen fun es ms hes => ?_)
    have hNext := hClimb es (arguments rest).used _ (hLeft.call hes)
    simpa only [List.append_assoc] using hNext
  · intro min left t rest hlt ls hLeft
    rw [climb, if_neg hlt]
    refine .done ?_ _
    rwa [List.append_nil]
  -- arguments
  · intro ts h
    rw [arguments, if_pos h]
    exact .mark_of_lookahead h (by decide) .nil
  · intro ts h hExpr hMore
    rw [arguments, if_neg h]
    refine hExpr.andThen fun e ls he => ?_
    exact (hMore _).andThen_done fun es ms hes => ExprsOf.cons he hes
  · rw [moreArguments]
    exact .expect_mark_andThen (by decide) fun _ => .done .nil _
  · intro t rest ht hExpr hMore
    rw [moreArguments, if_pos ht]
    refine .shift_mark (by rw [ht]; decide) (hExpr.andThen fun e ls he => ?_)
    exact (hMore _).andThen_done fun es ms hes => ExprsOf.cons he hes
  · intro t rest ht
    rw [moreArguments, if_neg ht]
    exact .expect_mark_andThen (by decide) fun _ => .done .nil _
  -- operands
  · intro t ts h
    rw [operand, h, leaf?_of_ident h]
    exact .done (.ident t.literal) _
  · intro t ts h n hn
    have hLeaf : t.leaf? = some (.int n.toInt) := by
      rw [Token.leaf?, h, ← intOf?_eq_some_iff.1 hn]
    rw [operand, h, hn, hLeaf]
    exact .done (.int n) _
  · intro t ts h hn
    rw [operand, h, hn]
    exact .fail _ _ _
  · intro t ts h
    have hLeaf : t.leaf? = some (.bool true) := by
      rw [Token.leaf?, h]
    rw [operand, h, hLeaf]
    exact .done (.bool true) _
  · intro t ts h
    have hLeaf : t.leaf? = some (.bool false) := by
      rw [Token.leaf?, h]
    rw [operand, h, hLeaf]
    exact .done (.bool false) _
  · intro t ts h hExpr
    rw [operand, h, hMark h (by decide)]
    exact hExpr.andThen_done fun e ls he => he.prefixOp .bang
  · intro t ts h hExpr
    rw [operand, h, hMark h (by decide)]
    exact hExpr.andThen_done fun e ls he => he.prefixOp .minus
  · intro t ts h hExpr
    rw [operand, h, hMark h (by decide)]
    refine hExpr.andThen fun e ls he => ?_
    refine .expect_mark_andThen (by decide) fun _ => .done ?_ _
    rwa [List.append_nil]
  · intro t ts h hConditional
    rw [operand, h, hMark h (by decide)]
    exact hConditional
  · intro t ts h hFunction
    rw [operand, h, hMark h (by decide)]
    exact hFunction
  · intro t ts hIdent hInt hTrue hFalse hBang hMinus hLparen hIf hFn
    rw [operand]
    split
    all_goals try contradiction
    exact .fail _ _ _
  -- function literals and blocks
  · intro ts hBlock
    exact gathersFunction hBlock
  · rw [block]
    exact .done .nil _
  · intro t rest h
    rw [block, if_pos h]
    exact .mark_of_lookahead h (by decide) .nil
  · intro t rest h hStmt hBlock
    rw [block, if_neg h]
    exact hStmt.statements (hBlock _)
  -- statements
  · intro t ts h hExpr
    rw [stmt, h, hMark h (by decide)]
    refine .expect_andThen fun name hName => ?_
    rw [leaf?_of_ident hName]
    refine .expect_mark_andThen (by decide) fun _ => ?_
    rw [List.drop_drop]
    refine hExpr.andThen fun e ls he => ?_
    rw [List.drop_drop]
    refine .ended ?_ _
    rw [List.append_nil]
    exact .bind name.literal he
  · intro t ts h hEnds
    rw [stmt, h, hMark h (by decide)]
    simp only [hEnds, if_true]
    exact .ended .ret _
  · intro t ts h hEnds hExpr
    rw [stmt, h, hMark h (by decide)]
    simp only [hEnds, Bool.false_eq_true, if_false]
    refine hExpr.andThen fun e ls he => .ended ?_ _
    rw [List.append_nil]
    exact .retValue he
  · intro t ts hLet hReturn hExpr
    rw [stmt]
    split
    · contradiction
    · contradiction
    · refine hExpr.andThen fun e ls he => .ended ?_ _
      rw [List.append_nil]
      exact .expr he
  -- conditionals
  · intro ts hExpr hConsequence hAlternative
    exact gathersConditional hExpr hConsequence hAlternative

theorem gathersProgram (ts : List Token) : Gathers StmtsOf ts ((program ts).map some) := by
  induction ts using program.induct with
  | case1 =>
      rw [program]
      exact .done .nil _
  | case2 t rest ih =>
      rw [program]
      exact (gathers.2.2.2.2.2.2.2.2.1 t rest).statements (ih _)

end Grammar

/-! ## Source texts -/

theorem Token.Demanded.isName {t : Token} {rest : List Char} (h : Demanded t rest)
    (ht : t.kind = .ident) : IsName t.literal := by
  have hKeywords : ∀ entry ∈ Kind.keywords, entry.2 ≠ .ident := by decide
  have hMarks : ∀ k ∈ markKinds, k ≠ .ident := by decide
  have hJoining : ∀ ks ∈ joiningKinds, ks.1 ≠ .ident ∧ ks.2 ≠ .ident := by decide
  cases h with
  | number => cases ht
  | reserved _ _ _ hk => exact absurd ht (hKeywords _ hk)
  | name hne hLetters _ hk =>
      rw [ofChars, IsName, String.toList_ofList]
      exact ⟨hne, hLetters, hk⟩
  | mark hk => exact absurd ht (hMarks _ hk)
  | joined hk => exact absurd ht (hJoining _ hk).2
  | alone hk _ => exact absurd ht (hJoining _ hk).1
  | stray => cases ht

theorem Token.Segmented.isName {cs : List Char} {ts : List Token} (h : Segmented cs ts) :
    ∀ t ∈ ts, t.kind = .ident → IsName t.literal := by
  induction h with
  | nil => exact List.forall_mem_nil _
  | cons _ ht _ ih => exact List.forall_mem_cons.2 ⟨ht.isName, ih⟩

/-- A leaf that a token becomes can be a token, if names are spelled as names. -/
theorem Leaf.proper_of_leaf? {t : Token} {l : Leaf} (h : t.leaf? = some l)
    (ht : t.kind = .ident → IsName t.literal) : l.Proper := by
  unfold Token.leaf? at h
  split at h
  · next hKind =>
      cases h
      exact ht hKind
  · cases h
    exact Int.natCast_nonneg _
  · cases h
    exact trivial
  · cases h
    exact trivial
  · cases h

/-- Of every source text, well formed or not, only programs are read that could be written down: no
block stands as a statement in them, no number is negative, and every name is a run of letters that
is not reserved.  The names, numbers and truth values of the program, from left to right, are some
of those of the text in their order, and all of them if there is no syntax error. -/
theorem program_leaves (source : String) :
    (parse source).program.Writable ∧
      (parse source).program.leaves.Sublist
        ((Token.lexemes source.toList).filterMap Token.leaf?) ∧
      ((parse source).errors = [] →
        (parse source).program.leaves =
          (Token.lexemes source.toList).filterMap Token.leaf?) := by
  rcases (Grammar.gathersProgram (Token.lexemes source.toList)).kept rfl with
    ⟨ls, ⟨hLeaves, hWritable⟩, hSublist, hAll⟩
  rw [Reading.used_map, Grammar.used_program, List.take_length] at hSublist hAll
  have hSame : (parse source).program.leaves = ls := hLeaves
  rw [hSame]
  refine ⟨hWritable fun l hl => ?_, hSublist, fun hErrors => hAll (List.map_eq_nil_iff.1 hErrors)⟩
  rcases List.mem_filterMap.1 (hSublist.mem hl) with ⟨t, ht, hLeaf⟩
  exact Leaf.proper_of_leaf? hLeaf ((Token.segmented_lexemes source.toList).isName t ht)

/-- A text whose first statement is dropped, and what was read of it with it. -/
def salvagedSource : String :=
  "f(true, x; y + z"

/-- Only the leaves of the last statement are left. -/
theorem program_leaves_salvaged :
    (parse salvagedSource).program.leaves = [.name "y", .name "z"] ∧
      (parse salvagedSource).program.Writable ∧
      [Leaf.name "y", .name "z"].Sublist
        [.name "f", .bool true, .name "x", .name "y", .name "z"] := by
  have hParse : parse salvagedSource =
      ⟨⟨[.expr (.infixOp .plus (.ident "y") (.ident "z"))]⟩,
        [⟨.unexpected .rparen .semicolon, 4⟩, ⟨.noOperand .semicolon, 4⟩]⟩ := by
    with_unfolding_all rfl
  have hTokens : Token.lexemes salvagedSource.toList =
      [⟨.ident, "f"⟩, ⟨.lparen, "("⟩, ⟨.trueWord, "true"⟩, ⟨.comma, ","⟩, ⟨.ident, "x"⟩,
        ⟨.semicolon, ";"⟩, ⟨.ident, "y"⟩, ⟨.plus, "+"⟩, ⟨.ident, "z"⟩] := by
    decide +kernel
  have hGathered := program_leaves salvagedSource
  rw [hTokens, hParse] at hGathered
  rw [hParse]
  exact ⟨rfl, hGathered.1, hGathered.2.1⟩

end MonkeyLang
