import MonkeyLang.Eval.Operator

/-!
# Operation — what operators mean

The rules that take operands to a value or to an error, one for each operator and kind of operands.
Arithmetic is stated on exact integers: `Int64.ofInt` brings an exact result back into 64 bits by
keeping its residue, and a quotient is truncated before it is brought back.

Operators are carried out by these rules and no others (`PrefixOp.gives_iff`,
`InfixOp.gives_iff`), so every pair of operands has exactly one result.
-/

namespace MonkeyLang

/-! ## Truth -/

/-- The values that do not count as true. -/
def Value.Falsy (v : Value) : Prop :=
  v = .boolean false ∨ v = .null

theorem Value.truthy_eq_false_iff {v : Value} : v.truthy = false ↔ v.Falsy := by
  cases v <;> simp [truthy, Falsy]

theorem Value.truthy_eq_true_iff {v : Value} : v.truthy = true ↔ ¬ v.Falsy := by
  rw [← truthy_eq_false_iff, Bool.not_eq_false]

/-! ## Types -/

theorem Value.exists_of_type_eq_integer {v : Value} (h : v.type = .integer) :
    ∃ a, v = .integer a := by
  cases v with
  | integer a => exact ⟨a, rfl⟩
  | boolean b => cases h
  | null => cases h
  | function c => cases h

theorem Value.exists_of_type_eq_boolean {v : Value} (h : v.type = .boolean) :
    ∃ b, v = .boolean b := by
  cases v with
  | integer a => cases h
  | boolean b => exact ⟨b, rfl⟩
  | null => cases h
  | function c => cases h

/-! ## In front of an operand -/

inductive PrefixOp.Gives : PrefixOp → Value → Except EvalError Value → Prop
  | bangFalsy {v : Value} (h : v.Falsy) : Gives .bang v (.ok (.boolean true))
  | bangTruthy {v : Value} (h : ¬ v.Falsy) : Gives .bang v (.ok (.boolean false))
  | minus (a : Int64) : Gives .minus (.integer a) (.ok (.integer (Int64.ofInt (-a.toInt))))
  | minusUnknown {v : Value} (h : v.type ≠ .integer) :
      Gives .minus v (.error (.unknownPrefixOperator .minus v.type))

theorem PrefixOp.gives_apply (op : PrefixOp) (v : Value) : op.Gives v (op.apply v) := by
  cases op with
  | bang =>
      simp only [PrefixOp.apply]
      cases hv : v.truthy with
      | false => exact .bangFalsy (Value.truthy_eq_false_iff.1 hv)
      | true => exact .bangTruthy (Value.truthy_eq_true_iff.1 hv)
  | minus =>
      cases v with
      | integer a =>
          have hExact : Int64.ofInt (-a.toInt) = -a := by rw [Int64.ofInt_neg, Int64.ofInt_toInt]
          simp only [PrefixOp.apply]
          rw [← hExact]
          exact .minus a
      | boolean b => exact .minusUnknown nofun
      | null => exact .minusUnknown nofun
      | function c => exact .minusUnknown nofun

theorem PrefixOp.gives_iff {op : PrefixOp} {v : Value} {r : Except EvalError Value} :
    op.Gives v r ↔ op.apply v = r := by
  constructor
  · intro h
    cases h with
    | bangFalsy hv => simp only [PrefixOp.apply, Value.truthy_eq_false_iff.2 hv, Bool.not_false]
    | bangTruthy hv => simp only [PrefixOp.apply, Value.truthy_eq_true_iff.2 hv, Bool.not_true]
    | minus a => simp only [PrefixOp.apply, Int64.ofInt_neg, Int64.ofInt_toInt]
    | minusUnknown hv =>
        cases v with
        | integer a => exact absurd rfl hv
        | boolean b => rfl
        | null => rfl
        | function c => rfl
  · rintro rfl
    exact gives_apply op v

/-! ## Between two operands -/

inductive InfixOp.Gives : InfixOp → Value → Value → Except EvalError Value → Prop
  -- arithmetic
  | plus (a b : Int64) : Gives .plus (.integer a) (.integer b)
      (.ok (.integer (Int64.ofInt (a.toInt + b.toInt))))
  | minus (a b : Int64) : Gives .minus (.integer a) (.integer b)
      (.ok (.integer (Int64.ofInt (a.toInt - b.toInt))))
  | asterisk (a b : Int64) : Gives .asterisk (.integer a) (.integer b)
      (.ok (.integer (Int64.ofInt (a.toInt * b.toInt))))
  | slash (a : Int64) {b : Int64} (hb : b.toInt ≠ 0) : Gives .slash (.integer a) (.integer b)
      (.ok (.integer (Int64.ofInt (a.toInt.tdiv b.toInt))))
  | slashZero (a : Int64) : Gives .slash (.integer a) (.integer 0) (.error .divisionByZero)
  -- comparison
  | lt (a b : Int64) : Gives .lt (.integer a) (.integer b)
      (.ok (.boolean (decide (a.toInt < b.toInt))))
  | gt (a b : Int64) : Gives .gt (.integer a) (.integer b)
      (.ok (.boolean (decide (b.toInt < a.toInt))))
  | eqInt (a b : Int64) : Gives .eq (.integer a) (.integer b) (.ok (.boolean (decide (a = b))))
  | notEqInt (a b : Int64) : Gives .notEq (.integer a) (.integer b)
      (.ok (.boolean !decide (a = b)))
  | eqBool (a b : Bool) : Gives .eq (.boolean a) (.boolean b) (.ok (.boolean (decide (a = b))))
  | notEqBool (a b : Bool) : Gives .notEq (.boolean a) (.boolean b)
      (.ok (.boolean !decide (a = b)))
  -- everything else fails
  | mismatch (op : InfixOp) {v w : Value} (h : v.type ≠ w.type) :
      Gives op v w (.error (.typeMismatch v.type op w.type))
  | unknown {op : InfixOp} {v w : Value} (h : v.type = w.type) (hInt : v.type ≠ .integer)
      (hBool : v.type = .boolean → op ≠ .eq ∧ op ≠ .notEq) :
      Gives op v w (.error (.unknownInfixOperator v.type op w.type))

namespace InfixOp

theorem ofInt_tdiv (a b : Int64) : Int64.ofInt (a.toInt.tdiv b.toInt) = a / b := by
  rw [← Int64.toInt_inj, Int64.toInt_ofInt, Int64.toInt_div]

/-- Between integers every operator but division has a value. -/
theorem gives_applyInt (op : InfixOp) (a b : Int64) :
    op.Gives (.integer a) (.integer b) (op.applyInt a b) := by
  cases op with
  | plus =>
      have hExact : Int64.ofInt (a.toInt + b.toInt) = a + b := by
        rw [Int64.ofInt_add, Int64.ofInt_toInt, Int64.ofInt_toInt]
      simp only [applyInt]
      rw [← hExact]
      exact .plus a b
  | minus =>
      have hExact : Int64.ofInt (a.toInt - b.toInt) = a - b := by
        rw [Int64.ofInt_sub, Int64.ofInt_toInt, Int64.ofInt_toInt]
      simp only [applyInt]
      rw [← hExact]
      exact .minus a b
  | asterisk =>
      have hExact : Int64.ofInt (a.toInt * b.toInt) = a * b := by
        rw [Int64.ofInt_mul, Int64.ofInt_toInt, Int64.ofInt_toInt]
      simp only [applyInt]
      rw [← hExact]
      exact .asterisk a b
  | slash =>
      simp only [applyInt]
      split
      · next hb =>
          subst hb
          exact .slashZero a
      · next hb =>
          rw [← ofInt_tdiv]
          refine .slash a fun hZero => hb ?_
          exact Int64.toInt_inj.1 (hZero.trans Int64.toInt_zero.symm)
  | lt =>
      simp only [applyInt, Int64.lt_iff_toInt_lt]
      exact .lt a b
  | gt =>
      simp only [applyInt, Int64.lt_iff_toInt_lt]
      exact .gt a b
  | eq => exact .eqInt a b
  | notEq => exact .notEqInt a b

/-- Operands that are neither two integers nor, with a test for equality, two booleans. -/
def Refuses (op : InfixOp) (v w : Value) : Prop :=
  v.type = w.type → v.type ≠ .integer ∧ (v.type = .boolean → op ≠ .eq ∧ op ≠ .notEq)

theorem Refuses.gives {op : InfixOp} {v w : Value} (h : op.Refuses v w) :
    op.Gives v w (.error (op.refuse v.type w.type)) := by
  unfold refuse
  split
  · next hType => exact .unknown hType (h hType).1 (h hType).2
  · next hType => exact .mismatch op hType

theorem Refuses.apply_eq {op : InfixOp} {v w : Value} (h : op.Refuses v w) :
    op.apply v w = .error (op.refuse v.type w.type) := by
  unfold apply
  split
  · exact absurd rfl (h rfl).1
  · exact absurd rfl ((h rfl).2 rfl).1
  · exact absurd rfl ((h rfl).2 rfl).2
  · rfl

theorem gives_apply (op : InfixOp) (v w : Value) : op.Gives v w (op.apply v w) := by
  unfold apply
  split
  · next a b => exact gives_applyInt op a b
  · next a b => exact .eqBool a b
  · next a b => exact .notEqBool a b
  · next hInts hEq hNotEq =>
      refine Refuses.gives fun hType => ⟨fun hv => ?_, fun hv => ?_⟩
      · rcases Value.exists_of_type_eq_integer hv with ⟨a, rfl⟩
        rcases Value.exists_of_type_eq_integer hType.symm with ⟨b, rfl⟩
        exact hInts a b rfl rfl
      · rcases Value.exists_of_type_eq_boolean hv with ⟨a, rfl⟩
        rcases Value.exists_of_type_eq_boolean hType.symm with ⟨b, rfl⟩
        exact ⟨fun hOp => hEq a b hOp rfl rfl, fun hOp => hNotEq a b hOp rfl rfl⟩

theorem gives_iff {op : InfixOp} {v w : Value} {r : Except EvalError Value} :
    op.Gives v w r ↔ op.apply v w = r := by
  constructor
  · intro h
    cases h with
    | plus a b => simp only [apply, applyInt, Int64.ofInt_add, Int64.ofInt_toInt]
    | minus a b => simp only [apply, applyInt, Int64.ofInt_sub, Int64.ofInt_toInt]
    | asterisk a b => simp only [apply, applyInt, Int64.ofInt_mul, Int64.ofInt_toInt]
    | @slash a b hb =>
        have hNonzero : b ≠ 0 := fun hZero => hb (by rw [hZero, Int64.toInt_zero])
        simp only [apply, applyInt, if_neg hNonzero, ofInt_tdiv]
    | slashZero a => simp only [apply, applyInt, if_true]
    | lt a b => simp only [apply, applyInt, Int64.lt_iff_toInt_lt]
    | gt a b => simp only [apply, applyInt, Int64.lt_iff_toInt_lt]
    | eqInt a b => rfl
    | notEqInt a b => rfl
    | eqBool a b => rfl
    | notEqBool a b => rfl
    | mismatch op hType =>
        have hRefuses : op.Refuses v w := fun h => absurd h hType
        rw [hRefuses.apply_eq, refuse, if_neg hType]
    | unknown hType hInt hBool =>
        have hRefuses : op.Refuses v w := fun _ => ⟨hInt, hBool⟩
        rw [hRefuses.apply_eq, refuse, if_pos hType]
  · rintro rfl
    exact gives_apply op v w

end InfixOp

end MonkeyLang
