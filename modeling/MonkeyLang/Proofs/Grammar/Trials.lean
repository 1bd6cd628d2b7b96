import MonkeyLang.Proofs.Grammar.Passage
import MonkeyLang.Proofs.Token.Segmentation

/-!
# Trials — every statement that is dropped is reported

Statements are tried one after the other, at top level and in the blocks of the expressions that
are read on the way.  A statement that comes to nothing is dropped, and the reading goes on; so what
is read may be less than what was written.  But it is never less without a report: a statement that
is dropped reports one defect more than the statements that were tried inside of it, and one that is
kept reports none (`Accounted`).  Hence as many defects are noticed as statements are dropped, and
none only if all of them are kept.
-/

namespace MonkeyLang
namespace Grammar

open Reading

/-! ## Trials -/

/-- A place where a statement is tried: the token that it begins with, and the tokens behind. -/
structure Trial where
  first : Token
  rest : List Token

namespace Trial

/-- What comes of the statement. -/
def reading (p : Trial) : Attempt Stmt :=
  stmt p.first p.rest

/-- Whether the statement comes to nothing. -/
def dropped (p : Trial) : Bool :=
  p.reading.value.isNone

/-- What is reported of a statement that is dropped: the last defect that was noticed in it. -/
def report? (p : Trial) : Option Diagnostic :=
  if p.dropped then p.reading.errors.getLast? else none

end Trial

/-- What is tried behind an attempt, unless that came to nothing. -/
def behind {α : Type} (r : Attempt α) (f : α → Nat → List Trial) : List Trial :=
  match r.value with
  | some a => f a r.used
  | none => []

mutual

/-- The statements that are tried while an expression is read, in the order in which they come to
their ends; so those inside of a statement stand before it. -/
def exprTrials (min : Precedence) (ts : List Token) : List Trial :=
  match ts with
  | [] => []
  | t :: rest => exprFromTrials min t rest
termination_by 6 * ts.length
decreasing_by all_goals grind

def exprFromTrials (min : Precedence) (t : Token) (ts : List Token) : List Trial :=
  operandTrials t ts ++ behind (operand t ts) fun left n => climbTrials min left (ts.drop n)
termination_by 6 * ts.length + 3
decreasing_by all_goals grind

def operandTrials (t : Token) (ts : List Token) : List Trial :=
  match t.kind with
  | .bang => exprTrials .unary ts
  | .minus => exprTrials .unary ts
  | .lparen => exprTrials .lowest ts
  | .ifWord => conditionalTrials ts
  | .fnWord => functionTrials ts
  | _ => []
termination_by 6 * ts.length + 2
decreasing_by all_goals grind

def climbTrials (min : Precedence) (left : Expr) (ts : List Token) : List Trial :=
  match ts with
  | [] => []
  | t :: rest =>
      if min < Precedence.ofKind t.kind then
        match InfixOp.ofKind? t.kind with
        | some op =>
            exprTrials (Precedence.ofKind t.kind) rest ++
              behind (expr (Precedence.ofKind t.kind) rest) fun right n =>
                climbTrials min (.infixOp op left right) (rest.drop n)
        | none =>
            argumentsTrials rest ++
              behind (arguments rest) fun es n => climbTrials min (.call left es) (rest.drop n)
      else []
termination_by 6 * ts.length
decreasing_by all_goals grind

def argumentsTrials (ts : List Token) : List Trial :=
  if lookahead ts = .rparen then []
  else
    exprTrials .lowest ts ++
      behind (expr .lowest ts) fun _ n => moreArgumentsTrials (ts.drop n)
termination_by 6 * ts.length + 1
decreasing_by all_goals grind

def moreArgumentsTrials (ts : List Token) : List Trial :=
  match ts with
  | [] => []
  | t :: rest =>
      if t.kind = .comma then
        exprTrials .lowest rest ++
          behind (expr .lowest rest) fun _ n => moreArgumentsTrials (rest.drop n)
      else []
termination_by 6 * ts.length
decreasing_by all_goals grind

def conditionalTrials (ts : List Token) : List Trial :=
  behind (expect .lparen ts) fun _ _ =>
    exprTrials .lowest (ts.drop 1) ++
      behind (expr .lowest (ts.drop 1)) fun _ n =>
        behind (expect .rparen (ts.drop (1 + n))) fun _ _ =>
          behind (expect .lbrace (ts.drop (2 + n))) fun _ _ =>
            blockTrials (ts.drop (3 + n)) ++
              let m := (block (ts.drop (3 + n))).used
              if lookahead (ts.drop (3 + n + m)) = .elseWord then
                behind (expect .lbrace (ts.drop (4 + n + m))) fun _ _ =>
                  blockTrials (ts.drop (5 + n + m))
              else []
termination_by 6 * ts.length + 1
decreasing_by all_goals grind

def functionTrials (ts : List Token) : List Trial :=
  behind (expect .lparen ts) fun _ _ =>
    behind (parameters (ts.drop 1)) fun _ n =>
      behind (expect .lbrace (ts.drop (1 + n))) fun _ _ => blockTrials (ts.drop (2 + n))
termination_by 6 * ts.length + 1
decreasing_by all_goals grind

/-- The statements that are tried in a block, and those inside of them. -/
def blockTrials (ts : List Token) : List Trial :=
  match ts with
  | [] => []
  | t :: rest =>
      if t.kind = .rbrace then []
      else insideTrials t rest ++ ⟨t, rest⟩ :: blockTrials (rest.drop (stmt t rest).used)
termination_by 6 * ts.length
decreasing_by all_goals grind

/-- The statements that are tried inside of a statement. -/
def insideTrials (t : Token) (ts : List Token) : List Trial :=
  match t.kind with
  | .letWord =>
      behind (expect .ident ts) fun _ _ =>
        behind (expect .assign (ts.drop 1)) fun _ _ => exprTrials .lowest (ts.drop 2)
  | .returnWord => if endsReturn (lookahead ts) then [] else exprTrials .lowest ts
  | _ => exprFromTrials .lowest t ts
termination_by 6 * ts.length + 4
decreasing_by all_goals grind

end

/-- The statements that are tried in a program, at top level and in blocks of any depth. -/
def programTrials (ts : List Token) : List Trial :=
  match ts with
  | [] => []
  | t :: rest => insideTrials t rest ++ ⟨t, rest⟩ :: programTrials (rest.drop (stmt t rest).used)
termination_by ts.length
decreasing_by
  simp only [List.length_drop, List.length_cons]
  omega

/-! ## Readings that account for what they report -/

section

variable {α β : Type} {r : Attempt α} {t : Token} {ts : List Token} {ps qs : List Trial}

/-- What is reported of the statements that are dropped among those tried. -/
def reports (ps : List Trial) : List Diagnostic :=
  ps.filterMap Trial.report?

theorem reports_append (ps qs : List Trial) : reports (ps ++ qs) = reports ps ++ reports qs :=
  List.filterMap_append

/-- The places where statements are tried are places in the tokens. -/
def Within (ts : List Token) (ps : List Trial) : Prop :=
  ∀ p ∈ ps, p.first :: p.rest <:+ ts

theorem Within.nil (ts : List Token) : Within ts [] :=
  List.forall_mem_nil _

theorem Within.append (hp : Within ts ps) (hq : Within ts qs) : Within ts (ps ++ qs) :=
  List.forall_mem_append.2 ⟨hp, hq⟩

theorem Within.of_drop {n : Nat} (h : Within (ts.drop n) ps) : Within ts ps :=
  fun p hp => (h p hp).trans (List.drop_suffix n ts)

theorem Within.cons (h : Within ts ps) (t : Token) : Within (t :: ts) ps :=
  fun p hp => (h p hp).trans (List.suffix_cons t ts)

theorem Within.behind {f : α → Nat → List Trial} (h : ∀ a, Within (ts.drop r.used) (f a r.used)) :
    Within ts (behind r f) := by
  unfold Grammar.behind
  split
  · exact (h _).of_drop
  · exact .nil ts

/-- An attempt reports what the statements tried meanwhile report and, if it comes to nothing, one
defect more. -/
structure Accounted (ts : List Token) (r : Attempt α) (ps : List Trial) : Prop where
  within : Within ts ps
  kept : r.value.isSome = true → r.errors = reports ps
  dropped : r.value = none → ∃ d, r.errors = reports ps ++ [d]

/-- A reading that cannot come to nothing reports no defect of its own. -/
structure AccountedBlock (ts : List Token) (r : Reading α) (ps : List Trial) : Prop where
  within : Within ts ps
  errors : r.errors = reports ps

theorem behind_nil (r : Attempt α) : behind r (fun _ _ => []) = [] := by
  unfold behind
  split <;> rfl

namespace Accounted

/-- A value, and nothing reported. -/
theorem of_some (a : α) (n : Nat) (ts : List Token) : Accounted ts ⟨some a, [], n⟩ [] :=
  ⟨.nil ts, fun _ => rfl, nofun⟩

theorem done (a : α) (ts : List Token) : Accounted ts (done a) [] :=
  .of_some a 0 ts

theorem fail (error : SyntaxError) (n : Nat) (ts : List Token) :
    Accounted ts (fail error n : Attempt α) [] :=
  ⟨.nil ts, nofun, fun _ => ⟨_, rfl⟩⟩

theorem ended (s : Stmt) (ts : List Token) : Accounted ts (ended s ts) [] :=
  .of_some s _ ts

theorem andThen {f : α → Nat → Attempt β} {g : α → Nat → List Trial} (hr : Accounted ts r ps)
    (hf : ∀ a, Accounted (ts.drop r.used) (f a r.used) (g a r.used)) :
    Accounted ts (r.andThen f) (ps ++ behind r g) := by
  have hWithin := hr.within.append (.behind fun a => (hf a).within)
  cases hValue : r.value with
  | none =>
      -- the defect of the first attempt is the one of both
      have hBehind : behind r g = [] := by rw [behind, hValue]
      rw [hBehind, List.append_nil] at hWithin ⊢
      rw [andThen_of_none f hValue]
      exact ⟨hWithin, nofun, fun _ => hr.dropped hValue⟩
  | some a =>
      have hBehind : behind r g = g a r.used := by rw [behind, hValue]
      have hFirst : r.errors = reports ps := hr.kept (by rw [hValue]; rfl)
      rw [hBehind] at hWithin ⊢
      rw [andThen_of_some f hValue]
      refine ⟨hWithin, fun hKept => ?_, fun hDropped => ?_⟩
      · rw [reports_append, ← hFirst, ← (hf a).kept hKept]
      · rcases (hf a).dropped hDropped with ⟨d, hErrors⟩
        exact ⟨d, by rw [reports_append, ← hFirst, List.append_assoc, ← hErrors]⟩

/-- Behind an attempt in which no statement is tried. -/
theorem nil_andThen {f : α → Nat → Attempt β} {g : α → Nat → List Trial} (hr : Accounted ts r [])
    (hf : ∀ a, Accounted (ts.drop r.used) (f a r.used) (g a r.used)) :
    Accounted ts (r.andThen f) (behind r g) :=
  hr.andThen hf

/-- Behind an attempt, something in which no statement is tried. -/
theorem andThen_nil {f : α → Nat → Attempt β} (hr : Accounted ts r ps)
    (hf : ∀ a, Accounted (ts.drop r.used) (f a r.used) []) : Accounted ts (r.andThen f) ps := by
  have hBoth := hr.andThen (g := fun _ _ => []) hf
  rwa [behind_nil, List.append_nil] at hBoth

/-- Behind a token that is expected, whether or not it is found. -/
theorem expect_andThen {k : Kind} {f : Token → Nat → Attempt β} {g : Token → Nat → List Trial}
    (hf : ∀ t, Accounted (ts.drop 1) (f t 1) (g t 1)) :
    Accounted ts ((Reading.expect k ts).andThen f) (behind (Reading.expect k ts) g) := by
  cases ts with
  | nil => exact .fail _ _ _
  | cons t ts =>
      by_cases h : t.kind = k
      · rw [expect_of_eq h]
        exact (of_some t 1 (t :: ts)).nil_andThen hf
      · rw [expect_of_ne h]
        exact .fail _ _ _

theorem expect_andThen_nil {k : Kind} {f : Token → Nat → Attempt β}
    (hf : ∀ t, Accounted (ts.drop 1) (f t 1) []) :
    Accounted ts ((Reading.expect k ts).andThen f) [] := by
  have hBoth := expect_andThen (k := k) (g := fun _ _ => []) hf
  rwa [behind_nil] at hBoth

theorem shift (h : Accounted ts r ps) (t : Token) : Accounted (t :: ts) r.shift ps :=
  ⟨h.within.cons t, h.kept, h.dropped⟩

end Accounted

theorem AccountedBlock.bind {r : Reading α} {f : α → Nat → Attempt β} (hr : AccountedBlock ts r ps)
    (hf : Accounted (ts.drop r.used) (f r.value r.used) qs) :
    Accounted ts (r.bind f) (ps ++ qs) := by
  refine ⟨hr.within.append hf.within.of_drop, fun hKept => ?_, fun hDropped => ?_⟩
  · rw [errors_bind, reports_append, hr.errors, hf.kept hKept]
  · rcases hf.dropped hDropped with ⟨d, hErrors⟩
    exact ⟨d, by rw [errors_bind, reports_append, hr.errors, hErrors, List.append_assoc]⟩

theorem AccountedBlock.map {r : Reading α} (hr : AccountedBlock ts r ps) (f : α → β) :
    Accounted ts (r.map fun a => some (f a)) ps :=
  ⟨hr.within, fun _ => hr.errors, nofun⟩

end

/-! ## Parameters, conditionals and function literals -/

theorem Accounted.moreParameters (ts : List Token) : Accounted ts (moreParameters ts) [] := by
  induction ts using moreParameters.induct with
  | case1 =>
      rw [Grammar.moreParameters]
      exact .expect_andThen_nil fun _ => .done _ _
  | case2 t rest ht ih =>
      rw [Grammar.moreParameters, if_pos ht]
      refine .shift (.expect_andThen_nil fun name => ?_) t
      exact ih.andThen_nil fun names => .done _ _
  | case3 t rest ht =>
      rw [Grammar.moreParameters, if_neg ht]
      exact .expect_andThen_nil fun _ => .done _ _

theorem Accounted.parameters (ts : List Token) : Accounted ts (parameters ts) [] := by
  rw [Grammar.parameters]
  split
  · exact .of_some _ _ _
  · exact .expect_andThen_nil fun name => (moreParameters _).andThen_nil fun names => .done _ _

theorem Accounted.conditional {ts : List Token}
    (hExpr : Accounted (ts.drop 1) (expr .lowest (ts.drop 1)) (exprTrials .lowest (ts.drop 1)))
    (hConsequence : ∀ n, AccountedBlock (ts.drop (3 + n)) (block (ts.drop (3 + n)))
      (blockTrials (ts.drop (3 + n))))
    (hAlternative : ∀ n m, AccountedBlock (ts.drop (5 + n + m)) (block (ts.drop (5 + n + m)))
      (blockTrials (ts.drop (5 + n + m)))) :
    Accounted ts (conditional ts) (conditionalTrials ts) := by
  rw [Grammar.conditional, conditionalTrials]
  refine .expect_andThen fun _ => ?_
  refine hExpr.andThen fun condition => ?_
  rw [List.drop_drop]
  generalize (expr .lowest (ts.drop 1)).used = n
  refine .expect_andThen fun _ => ?_
  rw [drop_succ_add]
  refine .expect_andThen fun _ => ?_
  rw [drop_succ_add]
  refine (hConsequence n).bind ?_
  rw [List.drop_drop]
  generalize (block (ts.drop (3 + n))).used = m
  dsimp only
  split
  · next hElse =>
      rcases exists_drop_eq_else_cons hElse with ⟨t, -, hRest, hBody⟩
      rw [hRest]
      refine .shift (.expect_andThen fun _ => ?_) t
      rw [hBody]
      exact (hAlternative n m).map _
  · exact .done _ _

theorem Accounted.function {ts : List Token}
    (hBody : ∀ n, AccountedBlock (ts.drop (2 + n)) (block (ts.drop (2 + n)))
      (blockTrials (ts.drop (2 + n)))) :
    Accounted ts (function ts) (functionTrials ts) := by
  rw [Grammar.function, functionTrials]
  refine .expect_andThen fun _ => ?_
  refine (Accounted.parameters _).nil_andThen fun names => ?_
  rw [List.drop_drop]
  generalize (Grammar.parameters (ts.drop 1)).used = n
  refine .expect_andThen fun _ => ?_
  rw [drop_succ_add]
  exact (hBody n).map _

/-! ## Statements -/

/-- What a statement reports: what is reported of the statements inside of it, and then of itself. -/
theorem Accounted.errors_eq {p : Trial} {ps : List Trial} (h : Accounted p.rest p.reading ps) :
    p.reading.errors = reports ps ++ p.report?.toList := by
  rw [Trial.report?, Trial.dropped]
  cases hValue : p.reading.value with
  | none =>
      rcases h.dropped hValue with ⟨d, hErrors⟩
      rw [hErrors, Option.isNone_none, if_pos rfl, List.getLast?_concat, Option.toList_some]
  | some s =>
      rw [h.kept (by rw [hValue]; rfl), Option.isNone_some, if_neg Bool.false_ne_true,
        Option.toList_none, List.append_nil]

/-- There is a report exactly of a statement that is dropped. -/
theorem Accounted.isSome_report? {p : Trial} {ps : List Trial}
    (h : Accounted p.rest p.reading ps) : p.report?.isSome = p.dropped := by
  cases hDropped : p.dropped with
  | false => rw [Trial.report?, hDropped, if_neg Bool.false_ne_true, Option.isSome_none]
  | true =>
      rcases h.dropped (Option.isNone_iff_eq_none.1 hDropped) with ⟨d, hErrors⟩
      rw [Trial.report?, hDropped, if_pos rfl, hErrors, List.getLast?_concat, Option.isSome_some]

theorem Accounted.reports_concat {t : Token} {ts : List Token} {ps : List Trial}
    (h : Accounted ts (stmt t ts) ps) (qs : List Trial) :
    reports (ps ++ ⟨t, ts⟩ :: qs) = (stmt t ts).errors ++ reports qs := by
  have hOwn : (stmt t ts).errors = reports ps ++ (Trial.report? ⟨t, ts⟩).toList :=
    errors_eq (p := ⟨t, ts⟩) h
  rw [hOwn, reports_append, List.append_assoc, List.append_cancel_left_eq, reports,
    List.filterMap_cons, reports]
  cases Trial.report? ⟨t, ts⟩ <;> rfl

theorem Within.stmt {t : Token} {ts : List Token} {n : Nat} {ps qs : List Trial}
    (hp : Within ts ps) (hq : Within (ts.drop n) qs) : Within (t :: ts) (ps ++ ⟨t, ts⟩ :: qs) :=
  (hp.cons t).append (List.forall_mem_cons.2 ⟨List.suffix_refl _, hq.of_drop.cons t⟩)

/-! ## Everything that is read -/

/-- Whatever is read accounts for what it reports, by the recursion of the reader. -/
theorem accounted :
    (∀ min ts, Accounted ts (expr min ts) (exprTrials min ts)) ∧
    (∀ min t ts, Accounted ts (exprFrom min t ts) (exprFromTrials min t ts)) ∧
    (∀ min left ts, Accounted ts (climb min left ts) (climbTrials min left ts)) ∧
    (∀ ts, Accounted ts (arguments ts) (argumentsTrials ts)) ∧
    (∀ ts, Accounted ts (moreArguments ts) (moreArgumentsTrials ts)) ∧
    (∀ t ts, Accounted ts (operand t ts) (operandTrials t ts)) ∧
    (∀ ts, Accounted ts (function ts) (functionTrials ts)) ∧
    (∀ ts, AccountedBlock ts (block ts) (blockTrials ts)) ∧
    (∀ t ts, Accounted ts (stmt t ts) (insideTrials t ts)) ∧
    (∀ ts, Accounted ts (conditional ts) (conditionalTrials ts)) := by
  apply expr.mutual_induct
  -- expressions
  · intro min
    rw [expr, exprTrials]
    exact .fail _ _ _
  · intro min t rest ih
    rw [expr, exprTrials]
    exact ih.shift t
  · intro min t ts hOperand hClimb
    rw [exprFrom, exprFromTrials]
    exact hOperand.andThen fun left => hClimb left _
  · intro min left
    rw [climb, climbTrials]
    exact .done _ _
  · intro min left t rest hlt op hop hExpr hClimb
    rw [climb, climbTrials, if_pos hlt, if_pos hlt, hop]
    exact (hExpr.andThen fun right => hClimb right _).shift t
  · intro min left t rest hlt hop hArguments hClimb
    rw [climb, climbTrials, if_pos hlt, if_pos hlt, hop]
    exact (hArguments.andThen fun es => hClimb es _).shift t
  · intro min left t rest hlt
    rw [climb, climbTrials, if_neg hlt, if_neg hlt]
    exact .done _ _
  -- arguments
  · intro ts h
    rw [arguments, argumentsTrials, if_pos h, if_pos h]
    exact .of_some _ _ _
  · intro ts h hExpr hMore
    rw [arguments, argumentsTrials, if_neg h, if_neg h]
    refine hExpr.andThen fun e => ?_
    exact (hMore _).andThen_nil fun es => .done _ _
  · rw [moreArguments, moreArgumentsTrials]
    exact .expect_andThen_nil fun _ => .done _ _
  · intro t rest ht hExpr hMore
    rw [moreArguments, moreArgumentsTrials, if_pos ht, if_pos ht]
    refine Accounted.shift (hExpr.andThen fun e => ?_) t
    exact (hMore _).andThen_nil fun es => .done _ _
  · intro t rest ht
    rw [moreArguments, moreArgumentsTrials, if_neg ht, if_neg ht]
    exact .expect_andThen_nil fun _ => .done _ _
  -- operands
  · intro t ts h
    rw [operand, operandTrials, h]
    exact .done _ _
  · intro t ts h n hn
    rw [operand, operandTrials, h, hn]
    exact .done _ _
  · intro t ts h hn
    rw [operand, operandTrials, h, hn]
    exact .fail _ _ _
  · intro t ts h
    rw [operand, operandTrials, h]
    exact .done _ _
  · intro t ts h
    rw [operand, operandTrials, h]
    exact .done _ _
  · intro t ts h hExpr
    rw [operand, operandTrials, h]
    exact hExpr.andThen_nil fun e => .done _ _
  · intro t ts h hExpr
    rw [operand, operandTrials, h]
    exact hExpr.andThen_nil fun e => .done _ _
  · intro t ts h hExpr
    rw [operand, operandTrials, h]
    exact hExpr.andThen_nil fun e => .expect_andThen_nil fun _ => .done _ _
  · intro t ts h hConditional
    rw [operand, operandTrials, h]
    exact hConditional
  · intro t ts h hFunction
    rw [operand, operandTrials, h]
    exact hFunction
  · intro t ts hIdent hInt hTrue hFalse hBang hMinus hLparen hIf hFn
    have hTrials : operandTrials t ts = [] := by
      rw [operandTrials]
      split <;> first | rfl | contradiction
    rw [hTrials, operand]
    split
    all_goals try contradiction
    exact .fail _ _ _
  -- function literals and blocks
  · intro ts hBlock
    exact .function hBlock
  · rw [block, blockTrials]
    exact ⟨.nil _, rfl⟩
  · intro t rest h
    rw [block, blockTrials, if_pos h, if_pos h]
    exact ⟨.nil _, rfl⟩
  · intro t rest h hStmt hBlock
    have hRest := hBlock (stmt t rest).used
    rw [block, blockTrials, if_neg h, if_neg h]
    refine ⟨hStmt.within.stmt hRest.within, ?_⟩
    rw [hStmt.reports_concat, ← hRest.errors]
    rfl
  -- statements
  · intro t ts h hExpr
    rw [stmt, insideTrials, h]
    refine .expect_andThen fun name => .expect_andThen fun _ => ?_
    rw [List.drop_drop]
    refine hExpr.andThen_nil fun value => ?_
    rw [List.drop_drop]
    exact .ended _ _
  · intro t ts h hEnds
    rw [stmt, insideTrials, h]
    simp only [hEnds, if_true]
    exact .ended _ _
  · intro t ts h hEnds hExpr
    rw [stmt, insideTrials, h]
    simp only [hEnds, Bool.false_eq_true, if_false]
    exact hExpr.andThen_nil fun value => .ended _ _
  · intro t ts hLet hReturn hExpr
    have hTrials : insideTrials t ts = exprFromTrials .lowest t ts := by
      rw [insideTrials]
      split <;> first | rfl | contradiction
    rw [hTrials, stmt]
    split
    · contradiction
    · contradiction
    · exact hExpr.andThen_nil fun value => .ended _ _
  -- conditionals
  · intro ts hExpr hConsequence hAlternative
    exact .conditional hExpr hConsequence hAlternative

theorem accountedStmt (t : Token) (ts : List Token) :
    Accounted ts (stmt t ts) (insideTrials t ts) :=
  accounted.2.2.2.2.2.2.2.2.1 t ts

/-- A program reports what is reported of the statements that are tried. -/
theorem accountedProgram (ts : List Token) : AccountedBlock ts (program ts) (programTrials ts) := by
  induction ts using program.induct with
  | case1 =>
      rw [program, programTrials]
      exact ⟨.nil _, rfl⟩
  | case2 t rest ih =>
      have hRest := ih (stmt t rest).used
      rw [program, programTrials]
      refine ⟨(accountedStmt t rest).within.stmt hRest.within, ?_⟩
      rw [(accountedStmt t rest).reports_concat, ← hRest.errors]
      rfl

/-! ## How many are dropped -/

namespace Trial

/-- The statements that are tried inside of the statement. -/
def inside (p : Trial) : List Trial :=
  insideTrials p.first p.rest

theorem accounted (p : Trial) : Accounted p.rest p.reading p.inside :=
  accountedStmt p.first p.rest

end Trial

/-- There are as many reports as statements that are dropped. -/
theorem length_reports (ps : List Trial) : (reports ps).length = ps.countP Trial.dropped := by
  rw [reports, List.length_filterMap_eq_countP]
  exact List.countP_congr fun p _ => by rw [p.accounted.isSome_report?]

theorem Trial.length_errors (p : Trial) :
    p.reading.errors.length = p.inside.countP dropped + if p.dropped then 1 else 0 := by
  rw [p.accounted.errors_eq, List.length_append, length_reports, ← p.accounted.isSome_report?]
  cases p.report? <;> rfl

end Grammar

/-! ## Statements tried by the cursor -/

/-- A cursor in front of a statement keeps the defects that it has noticed, and notices those of the
statement behind them. -/
theorem Walk.exists_ends_statement {t : Token} {ts : List Token} {c : Cursor} {around : List Nat}
    (hts : ∀ u ∈ t :: ts, u.kind ≠ .eof) (hc : c.Stands (t :: ts))
    (hAround : ∀ n ∈ around, c.unread < n) :
    ∃ c', Ends (statement around) c (Grammar.stmt t ts).value c' ∧
      c'.errors = c.errors ++ (Grammar.stmt t ts).errors.map Diagnostic.error := by
  have hFresh : Cursor.Fresh (t :: ts) around 0 := by
    intro n hn
    rw [Nat.sub_zero, ← hc.unread_eq hts]
    exact hAround n hn
  rcases statement_follows hts rfl (.start hc) hFresh with ⟨c', -, hEnds, -, -, -, hErrors⟩
  exact ⟨c', hEnds, hErrors⟩

/-! ## Source texts -/

/-- No statement of a source text is dropped in silence, at top level or in a block of any depth.
The defects are the reports of the statements that are dropped, in order, one for each; a statement
reports one defect more than those inside of it if it is dropped, and none more if it is kept; and
what had been noticed before stays as it was.  So there is no defect exactly if every statement that
was tried is kept. -/
theorem drops_are_reported (source : String) :
    ∃ trials, trials = Grammar.programTrials (Token.lexemes source.toList) ∧
      (parse source).diagnostics = trials.filterMap Grammar.Trial.report? ∧
      (parse source).errors.length = trials.countP Grammar.Trial.dropped ∧
      (∀ p ∈ trials,
        p.reading.errors = p.inside.filterMap Grammar.Trial.report? ++ p.report?.toList ∧
        p.reading.errors.length =
          p.inside.countP Grammar.Trial.dropped + (if p.dropped then 1 else 0) ∧
        ∀ c : Cursor, c.Stands (p.first :: p.rest) →
          ∀ around, (∀ n ∈ around, c.unread < n) →
            ∃ c', Walk.Ends (Walk.statement around) c p.reading.value c' ∧
              c'.errors = c.errors ++ p.reading.errors.map Diagnostic.error) ∧
      ((parse source).errors = [] ↔ ∀ p ∈ trials, p.reading.value.isSome = true) := by
  have hProgram := Grammar.accountedProgram (Token.lexemes source.toList)
  have hLength : (parse source).errors.length =
      (Grammar.programTrials (Token.lexemes source.toList)).countP Grammar.Trial.dropped := by
    rw [Parsed.errors, List.length_map, ← Grammar.length_reports]
    exact congrArg List.length hProgram.errors
  refine ⟨_, rfl, hProgram.errors, hLength, fun p hp => ⟨p.accounted.errors_eq, p.length_errors, ?_⟩,
    ?_⟩
  · intro c hc around hAround
    refine Walk.exists_ends_statement (fun u hu => ?_) hc hAround
    have hMem : u ∈ Token.lexemes source.toList := (hProgram.within p hp).mem hu
    exact ((Token.segmented_lexemes _).proper u hMem).2
  · rw [← List.length_eq_zero_iff, hLength, List.countP_eq_zero]
    refine forall₂_congr fun p _ => ?_
    rw [Grammar.Trial.dropped]
    cases p.reading.value <;> simp

/-- A `let` that is dropped, and a statement in its block that is dropped as well. -/
def droppedTokens : List Token :=
  [⟨.letWord, "let"⟩, ⟨.ident, "f"⟩, ⟨.assign, "="⟩, ⟨.fnWord, "fn"⟩, ⟨.lparen, "("⟩, ⟨.rparen, ")"⟩,
    ⟨.lbrace, "\x7b"⟩, ⟨.ident, "x"⟩, ⟨.semicolon, ";"⟩, ⟨.comma, ","⟩, ⟨.rbrace, "\x7d"⟩,
    ⟨.plus, "+"⟩]

/-- Both are reported, the inner one first, behind a defect that the cursor noticed before. -/
theorem drops_are_reported_nested :
    (parse "let f = fn() \x7b x; , \x7d +").errors.length = 2 ∧
      ∃ c', Walk.Ends (Walk.statement [])
          ((Cursor.ofTokens droppedTokens).report (.noOperand .rparen)) none c' ∧
        c'.errors = [.noOperand .rparen, .noOperand .comma, .noOperand .eof] := by
  have hTokens : Token.lexemes "let f = fn() \x7b x; , \x7d +".toList = droppedTokens := by
    decide +kernel
  have hTrials : Grammar.programTrials droppedTokens =
      [⟨⟨.ident, "x"⟩, droppedTokens.drop 8⟩, ⟨⟨.comma, ","⟩, droppedTokens.drop 10⟩,
        ⟨⟨.letWord, "let"⟩, droppedTokens.drop 1⟩] := by
    with_unfolding_all rfl
  rcases drops_are_reported "let f = fn() \x7b x; , \x7d +" with ⟨trials, rfl, -, hCount, hEach, -⟩
  rw [hTokens, hTrials] at hCount hEach
  refine ⟨hCount.trans (by with_unfolding_all rfl), ?_⟩
  have hLet := hEach ⟨⟨.letWord, "let"⟩, droppedTokens.drop 1⟩ (by simp)
  have hStands : ((Cursor.ofTokens droppedTokens).report (.noOperand .rparen)).Stands
      droppedTokens := ⟨rfl, rfl, rfl⟩
  have hNone : (Grammar.stmt ⟨.letWord, "let"⟩ (droppedTokens.drop 1)).value = none := by
    with_unfolding_all rfl
  rcases hLet.2.2 _ hStands [] (List.forall_mem_nil _) with ⟨c', hEnds, hErrors⟩
  rw [Grammar.Trial.reading, hNone] at hEnds
  exact ⟨c', hEnds, hErrors.trans (by with_unfolding_all rfl)⟩

end MonkeyLang
