import Mathlib.Data.Int.ModEq
import MonkeyLang.Proofs.Eval.Adequacy

/-!
# Arithmetic — exact up to one wrap

An expression of integer literals, minus signs and the four operations always comes to an end, and
only in one of two ways.  It fails with a division by zero if a divisor that is met on the way is
zero, and otherwise it comes to an integer: the one that is computed when every intermediate result
is brought back into 64 bits (`Arith.value`).

Sums, differences, products and negation do not care when that is done.  So without a division the
result is the exact one (`Arith.exact`), wrapped once at the end.
-/

namespace MonkeyLang

/-! ## Wrapping -/

/-- The integer between `-2^63` and `2^63 - 1` that differs from `n` by a multiple of `2^64`. -/
def wrap (n : Int) : Int :=
  (n + 9223372036854775808) % 18446744073709551616 - 9223372036854775808

theorem wrap_bounds (n : Int) :
    -9223372036854775808 ≤ wrap n ∧ wrap n < 9223372036854775808 := by
  unfold wrap
  omega

theorem wrap_of_bounds {n : Int} (hLower : -9223372036854775808 ≤ n)
    (hUpper : n < 9223372036854775808) : wrap n = n := by
  unfold wrap
  omega

theorem wrap_modEq (n : Int) : wrap n ≡ n [ZMOD 18446744073709551616] := by
  unfold wrap Int.ModEq
  omega

/-- Integers with one residue are wrapped to one integer. -/
theorem wrap_congr {m n : Int} (h : m ≡ n [ZMOD 18446744073709551616]) : wrap m = wrap n := by
  have hResidue : m % 18446744073709551616 = n % 18446744073709551616 := h
  unfold wrap
  omega

theorem wrap_wrap (n : Int) : wrap (wrap n) = wrap n :=
  wrap_of_bounds (wrap_bounds n).1 (wrap_bounds n).2

theorem wrap_toInt (n : Int64) : wrap n.toInt = n.toInt :=
  wrap_of_bounds n.le_toInt n.toInt_lt

/-- The word of an integer is read as the integer wrapped. -/
theorem toInt_ofInt_eq_wrap (n : Int) : (Int64.ofInt n).toInt = wrap n := by
  have hWord : (Int64.ofInt n).toInt ≡ n [ZMOD 18446744073709551616] := by
    rw [Int64.toInt_ofInt]
    exact Int.bmod_emod
  calc
    (Int64.ofInt n).toInt = wrap (Int64.ofInt n).toInt := (wrap_toInt _).symm
    _ = wrap n := wrap_congr hWord

theorem ofInt_wrap (n : Int) : Int64.ofInt (wrap n) = Int64.ofInt n := by
  rw [← Int64.toInt_inj, toInt_ofInt_eq_wrap, toInt_ofInt_eq_wrap]
  exact wrap_wrap n

/-! ## Operations -/

/-- The operators that compute an integer from two. -/
inductive ArithOp
  | plus
  | minus
  | asterisk
  | slash
  deriving DecidableEq

namespace ArithOp

def infixOp : ArithOp → InfixOp
  | plus => .plus
  | minus => .minus
  | asterisk => .asterisk
  | slash => .slash

/-- What the operator computes from exact integers; a quotient is truncated toward zero. -/
def exact : ArithOp → Int → Int → Int
  | plus, m, n => m + n
  | minus, m, n => m - n
  | asterisk, m, n => m * n
  | slash, m, n => m.tdiv n

/-- The operator computes on words what it computes on integers, unless it divides by zero. -/
theorem gives (op : ArithOp) (a : Int64) {b : Int64} (h : op = slash → b.toInt ≠ 0) :
    op.infixOp.Gives (.integer a) (.integer b)
      (.ok (.integer (Int64.ofInt (op.exact a.toInt b.toInt)))) := by
  cases op with
  | plus => exact .plus a b
  | minus => exact .minus a b
  | asterisk => exact .asterisk a b
  | slash => exact .slash a (h rfl)

/-- Residues of operands determine the residue of a result, except that of a quotient. -/
theorem exact_modEq {op : ArithOp} (hop : op ≠ slash) {m m' n n' k : Int} (hm : m ≡ m' [ZMOD k])
    (hn : n ≡ n' [ZMOD k]) : op.exact m n ≡ op.exact m' n' [ZMOD k] := by
  cases op with
  | plus => exact hm.add hn
  | minus => exact hm.sub hn
  | asterisk => exact hm.mul hn
  | slash => exact absurd rfl hop

end ArithOp

/-- The operators that compare two integers. -/
inductive Comparison
  | lt
  | gt
  | eq
  | notEq

namespace Comparison

def infixOp : Comparison → InfixOp
  | lt => .lt
  | gt => .gt
  | eq => .eq
  | notEq => .notEq

def holds : Comparison → Int → Int → Bool
  | lt, m, n => m < n
  | gt, m, n => n < m
  | eq, m, n => m = n
  | notEq, m, n => m ≠ n

theorem gives (c : Comparison) (a b : Int64) :
    c.infixOp.Gives (.integer a) (.integer b) (.ok (.boolean (c.holds a.toInt b.toInt))) := by
  cases c with
  | lt => exact .lt a b
  | gt => exact .gt a b
  | eq =>
      have hEq : decide (a.toInt = b.toInt) = decide (a = b) := by simp only [Int64.toInt_inj]
      rw [holds, hEq]
      exact .eqInt a b
  | notEq =>
      have hNotEq : decide (a.toInt ≠ b.toInt) = !decide (a = b) := by
        simp only [ne_eq, Int64.toInt_inj, decide_not]
      rw [holds, hNotEq]
      exact .notEqInt a b

end Comparison

/-! ## Expressions -/

/-- An expression of integer literals, which may be negative, minus signs and operations. -/
inductive Arith
  | literal (n : Int64)
  | neg (a : Arith)
  | operation (op : ArithOp) (left right : Arith)

namespace Arith

def expr : Arith → Expr
  | literal n => .int n
  | neg a => .prefixOp .minus a.expr
  | operation op left right => .infixOp op.infixOp left.expr right.expr

/-- The integer computed if every intermediate result is wrapped.  A quotient by zero counts as
zero here. -/
def value : Arith → Int
  | literal n => n.toInt
  | neg a => wrap (-a.value)
  | operation op left right => wrap (op.exact left.value right.value)

/-- The integer computed if nothing is wrapped. -/
def exact : Arith → Int
  | literal n => n.toInt
  | neg a => -a.exact
  | operation op left right => op.exact left.exact right.exact

/-- The divisors in the order in which they are met, from left to right. -/
def divisors : Arith → List Int
  | literal _ => []
  | neg a => a.divisors
  | operation op left right =>
      left.divisors ++ right.divisors ++ if op = .slash then [right.value] else []

/-- What the expression comes to. -/
def result (a : Arith) : Except EvalError Value :=
  if 0 ∈ a.divisors then .error .divisionByZero else .ok (.integer (Int64.ofInt a.value))

/-! ### Values -/

theorem wrap_value (a : Arith) : wrap a.value = a.value := by
  cases a with
  | literal n => exact wrap_toInt n
  | neg a => exact wrap_wrap _
  | operation op left right => exact wrap_wrap _

theorem toInt_ofInt_value (a : Arith) : (Int64.ofInt a.value).toInt = a.value := by
  rw [toInt_ofInt_eq_wrap, wrap_value]

theorem result_of_mem {a : Arith} (h : 0 ∈ a.divisors) : a.result = .error .divisionByZero :=
  if_pos h

theorem result_of_not_mem {a : Arith} (h : 0 ∉ a.divisors) :
    a.result = .ok (.integer (Int64.ofInt a.value)) :=
  if_neg h

/-- Without a division the wrapped results have the residues of the exact ones. -/
theorem value_modEq {a : Arith} (h : a.divisors = []) :
    a.value ≡ a.exact [ZMOD 18446744073709551616] := by
  induction a with
  | literal n => rfl
  | neg a ih => exact (wrap_modEq _).trans (ih h).neg
  | operation op left right ihLeft ihRight =>
      rw [divisors, List.append_eq_nil_iff, List.append_eq_nil_iff] at h
      rcases h with ⟨⟨hLeft, hRight⟩, hOp⟩
      have hNoDivision : op ≠ .slash := by
        rintro rfl
        cases hOp
      exact (wrap_modEq _).trans (op.exact_modEq hNoDivision (ihLeft hLeft) (ihRight hRight))

theorem value_eq_wrap_exact {a : Arith} (h : a.divisors = []) : a.value = wrap a.exact :=
  calc
    a.value = wrap a.value := a.wrap_value.symm
    _ = wrap a.exact := wrap_congr (value_modEq h)

/-! ### Evaluation -/

open BigStep

variable {s : ScopeId} {σ : Store}

/-- A division by zero on the way is where the evaluation of whatever is around it ends. -/
theorem evaluates_of_mem {a : Arith} (h : Evaluates s σ a.expr (.ofExcept a.result) σ)
    (hZero : 0 ∈ a.divisors) :
    Evaluates s σ a.expr (Exit.failed .divisionByZero).completion σ := by
  rwa [result_of_mem hZero] at h

theorem evaluates_of_not_mem {a : Arith} (h : Evaluates s σ a.expr (.ofExcept a.result) σ)
    (hZero : 0 ∉ a.divisors) :
    Evaluates s σ a.expr (.value (.integer (Int64.ofInt a.value))) σ := by
  rwa [result_of_not_mem hZero] at h

theorem evaluates_neg {a : Arith} (ih : Evaluates s σ a.expr (.ofExcept a.result) σ) :
    Evaluates s σ a.neg.expr (.ofExcept a.neg.result) σ := by
  by_cases hZero : 0 ∈ a.divisors
  · rw [result_of_mem (a := a.neg) hZero]
    exact .prefixExit (evaluates_of_mem ih hZero)
  · have hMinus := PrefixOp.Gives.minus (Int64.ofInt a.value)
    have hWrap : Int64.ofInt a.neg.value = Int64.ofInt (-a.value) := ofInt_wrap _
    rw [toInt_ofInt_value, ← hWrap] at hMinus
    rw [result_of_not_mem (a := a.neg) hZero]
    exact .prefixOp (evaluates_of_not_mem ih hZero) hMinus

theorem evaluates_operation {op : ArithOp} {left right : Arith}
    (ihLeft : Evaluates s σ left.expr (.ofExcept left.result) σ)
    (ihRight : Evaluates s σ right.expr (.ofExcept right.result) σ) :
    Evaluates s σ (operation op left right).expr (.ofExcept (operation op left right).result) σ := by
  by_cases hLeft : 0 ∈ left.divisors
  · rw [result_of_mem (List.mem_append_left _ (List.mem_append_left _ hLeft))]
    exact .leftExit (evaluates_of_mem ihLeft hLeft)
  have hLeftValue := evaluates_of_not_mem ihLeft hLeft
  by_cases hRight : 0 ∈ right.divisors
  · rw [result_of_mem (List.mem_append_left _ (List.mem_append_right _ hRight))]
    exact .rightExit hLeftValue (evaluates_of_mem ihRight hRight)
  have hRightValue := evaluates_of_not_mem ihRight hRight
  -- both operands have come to integers, so the operator is what is left
  by_cases hOp : op = .slash ∧ right.value = 0
  · rcases hOp with ⟨rfl, hZero⟩
    have hMem : 0 ∈ (operation .slash left right).divisors := by
      simp [divisors, hZero]
    rw [hZero] at hRightValue
    rw [result_of_mem hMem]
    exact .infixOp hLeftValue hRightValue (.slashZero _)
  · have hDivisor : op = .slash → (Int64.ofInt right.value).toInt ≠ 0 := by
      rw [toInt_ofInt_value]
      exact fun hSlash hZero => hOp ⟨hSlash, hZero⟩
    have hNotMem : 0 ∉ (operation op left right).divisors := by
      simpa [divisors, hLeft, hRight, eq_comm] using hOp
    have hGives := op.gives (Int64.ofInt left.value) hDivisor
    have hWrap : Int64.ofInt (operation op left right).value =
        Int64.ofInt (op.exact left.value right.value) := ofInt_wrap _
    rw [toInt_ofInt_value, toInt_ofInt_value, ← hWrap] at hGives
    rw [result_of_not_mem hNotMem]
    exact .infixOp hLeftValue hRightValue hGives

/-- Arithmetic is evaluated to its result, in any scope, and changes nothing. -/
theorem evaluates (a : Arith) : Evaluates s σ a.expr (.ofExcept a.result) σ := by
  induction a with
  | literal n =>
      have hWord : Int64.ofInt n.toInt = n := Int64.ofInt_toInt n
      rw [result_of_not_mem List.not_mem_nil, value, hWord]
      exact .int n
  | neg a ih => exact evaluates_neg ih
  | operation op left right ihLeft ihRight => exact evaluates_operation ihLeft ihRight

/-- Two results are compared as the integers that they are. -/
theorem evaluates_comparison (c : Comparison) {a b : Arith} (ha : 0 ∉ a.divisors)
    (hb : 0 ∉ b.divisors) :
    Evaluates s σ (.infixOp c.infixOp a.expr b.expr)
      (.ofExcept (.ok (.boolean (c.holds a.value b.value)))) σ := by
  have hGives := c.gives (Int64.ofInt a.value) (Int64.ofInt b.value)
  rw [toInt_ofInt_value, toInt_ofInt_value] at hGives
  exact .infixOp (evaluates_of_not_mem a.evaluates ha) (evaluates_of_not_mem b.evaluates hb) hGives

end Arith

/-- What the rules derive for an expression is what an interpreter comes to with enough steps. -/
theorem Interpreter.exists_evaluate {s : ScopeId} {σ τ : Store} {e : Expr}
    {r : Except EvalError Value} (h : BigStep.Evaluates s σ e (.ofExcept r) τ) :
    ∃ enough, ∀ fuel, enough ≤ fuel → (Interpreter.mk s).evaluate fuel e σ = some (r, τ) := by
  rcases h.ends with ⟨enough, hEnds⟩
  refine ⟨enough, fun fuel hFuel => Option.map_eq_some_iff.2 ⟨_, hEnds fuel hFuel, ?_⟩⟩
  cases r <;> rfl

/-- Arithmetic comes to an end in any scope.  It fails with a division by zero exactly if some
divisor is zero when every intermediate result is wrapped; otherwise it comes to the integer that
is computed in this way, and such integers are compared by their order.  Without a division this
is the exact integer, wrapped once. -/
theorem arithmetic_wraps (a : Arith) (s : ScopeId) (σ : Store) :
    (∃ enough, ∀ fuel, enough ≤ fuel →
      (Interpreter.mk s).evaluate fuel a.expr σ =
        some (if 0 ∈ a.divisors then .error .divisionByZero
          else .ok (.integer (Int64.ofInt a.value)), σ)) ∧
    (Int64.ofInt a.value).toInt = a.value ∧
    (a.divisors = [] → a.value = wrap a.exact) ∧
    ∀ (c : Comparison) (b : Arith), 0 ∉ a.divisors → 0 ∉ b.divisors →
      ∃ enough, ∀ fuel, enough ≤ fuel →
        (Interpreter.mk s).evaluate fuel (.infixOp c.infixOp a.expr b.expr) σ =
          some (.ok (.boolean (c.holds a.value b.value)), σ) :=
  ⟨Interpreter.exists_evaluate a.evaluates, a.toInt_ofInt_value, Arith.value_eq_wrap_exact,
    fun c _ ha hb => Interpreter.exists_evaluate (Arith.evaluates_comparison c ha hb)⟩

/-- One more than the largest integer. -/
def overflowing : Arith :=
  .operation .plus (.literal 9223372036854775807) (.literal 1)

/-- Twice one more than the largest integer is zero as a divisor.  One more than the largest
integer is an integer, though not a large one. -/
theorem arithmetic_wraps_overflowing :
    (∃ enough, ∀ fuel, enough ≤ fuel →
      (Interpreter.mk Store.fresh.1).evaluate fuel
          (Arith.operation .slash (.literal 1) (.operation .plus overflowing overflowing)).expr
          Store.fresh.2 =
        some (.error .divisionByZero, Store.fresh.2)) ∧
    overflowing.value = wrap 9223372036854775808 ∧
    ∃ enough, ∀ fuel, enough ≤ fuel →
      (Interpreter.mk Store.fresh.1).evaluate fuel
          (.infixOp .lt overflowing.expr (Arith.literal 1).expr) Store.fresh.2 =
        some (.ok (.boolean true), Store.fresh.2) := by
  refine ⟨?quotient, ?sum, ?comparison⟩
  case quotient =>
    exact (arithmetic_wraps (.operation .slash (.literal 1)
      (.operation .plus overflowing overflowing)) _ _).1
  case sum => exact (arithmetic_wraps overflowing 0 .empty).2.2.1 rfl
  case comparison =>
    have hCompared := (arithmetic_wraps overflowing Store.fresh.1 Store.fresh.2).2.2.2
      .lt (.literal 1) (by decide) (by decide)
    exact hCompared

/-- The quotient of the least integer and minus one, and its negation, are the least integer. -/
example :
    (Arith.operation .slash (.literal Int64.minValue) (.literal (-1))).value =
        Int64.minValue.toInt ∧
      (Arith.literal Int64.minValue).neg.value = Int64.minValue.toInt := by
  decide

end MonkeyLang
