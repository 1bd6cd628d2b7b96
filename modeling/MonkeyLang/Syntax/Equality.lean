import MonkeyLang.Syntax.Basic

/-!
# Equality — when two syntax trees are the same

A test that compares two trees node by node (`Expr.same`, `Stmt.same` and their list forms),
and the fact that it decides equality, which makes equality of programs decidable.
-/

namespace MonkeyLang

/-! ## The test -/

mutual

def Expr.same : Expr → Expr → Bool
  | .ident n, .ident n' => n == n'
  | .int v, .int v' => v == v'
  | .bool b, .bool b' => b == b'
  | .prefixOp op e, .prefixOp op' e' => op == op' && e.same e'
  | .infixOp op l r, .infixOp op' l' r' => op == op' && l.same l' && r.same r'
  | .cond c t none, .cond c' t' none => c.same c' && Stmt.sames t t'
  | .cond c t (some e), .cond c' t' (some e') =>
      c.same c' && Stmt.sames t t' && Stmt.sames e e'
  | .fn ps b, .fn ps' b' => ps == ps' && Stmt.sames b b'
  | .call f es, .call f' es' => f.same f' && Expr.sames es es'
  | _, _ => false

def Expr.sames : List Expr → List Expr → Bool
  | [], [] => true
  | e :: es, e' :: es' => e.same e' && Expr.sames es es'
  | _, _ => false

def Stmt.same : Stmt → Stmt → Bool
  | .bind n e, .bind n' e' => n == n' && e.same e'
  | .ret none, .ret none => true
  | .ret (some e), .ret (some e') => e.same e'
  | .expr e, .expr e' => e.same e'
  | .block b, .block b' => Stmt.sames b b'
  | _, _ => false

def Stmt.sames : List Stmt → List Stmt → Bool
  | [], [] => true
  | s :: ss, s' :: ss' => s.same s' && Stmt.sames ss ss'
  | _, _ => false

end

/-! ## It decides equality -/

mutual

theorem Expr.same_iff (e e' : Expr) : e.same e' = true ↔ e = e' := by
  cases e with
  | ident n => cases e' <;> simp [Expr.same]
  | int v => cases e' <;> simp [Expr.same]
  | bool b => cases e' <;> simp [Expr.same]
  | prefixOp op e =>
      cases e' <;> simp [Expr.same, Expr.same_iff e]
  | infixOp op l r =>
      cases e' <;> simp [Expr.same, Expr.same_iff l, Expr.same_iff r, and_assoc]
  | cond c t e =>
      cases e with
      | none =>
          rcases e' with _ | _ | _ | _ | _ | ⟨c', t', _ | e'⟩ | _ | _ <;>
            simp [Expr.same, Expr.same_iff c, Stmt.sames_iff t]
      | some e =>
          rcases e' with _ | _ | _ | _ | _ | ⟨c', t', _ | e'⟩ | _ | _ <;>
            simp [Expr.same, Expr.same_iff c, Stmt.sames_iff t, Stmt.sames_iff e, and_assoc]
  | fn ps b =>
      cases e' <;> simp [Expr.same, Stmt.sames_iff b]
  | call f es =>
      cases e' <;> simp [Expr.same, Expr.same_iff f, Expr.sames_iff es]

theorem Expr.sames_iff (es es' : List Expr) : Expr.sames es es' = true ↔ es = es' := by
  cases es with
  | nil => cases es' <;> simp [Expr.sames]
  | cons e es =>
      cases es' <;> simp [Expr.sames, Expr.same_iff e, Expr.sames_iff es]

theorem Stmt.same_iff (s s' : Stmt) : s.same s' = true ↔ s = s' := by
  cases s with
  | bind n e => cases s' <;> simp [Stmt.same, Expr.same_iff e]
  | ret e =>
      cases e with
      | none => rcases s' with _ | ⟨_ | e'⟩ | _ | _ <;> simp [Stmt.same]
      | some e => rcases s' with _ | ⟨_ | e'⟩ | _ | _ <;> simp [Stmt.same, Expr.same_iff e]
  | expr e => cases s' <;> simp [Stmt.same, Expr.same_iff e]
  | block b => cases s' <;> simp [Stmt.same, Stmt.sames_iff b]

theorem Stmt.sames_iff (ss ss' : List Stmt) : Stmt.sames ss ss' = true ↔ ss = ss' := by
  cases ss with
  | nil => cases ss' <;> simp [Stmt.sames]
  | cons s ss =>
      cases ss' <;> simp [Stmt.sames, Stmt.same_iff s, Stmt.sames_iff ss]

end

instance : DecidableEq Stmt := fun s s' =>
  decidable_of_iff _ (Stmt.same_iff s s')

instance : DecidableEq Expr := fun e e' =>
  decidable_of_iff _ (Expr.same_iff e e')

/-- Two programs are the same if their statements are. -/
def Program.same (p q : Program) : Bool :=
  Stmt.sames p.statements q.statements

theorem Program.same_iff (p q : Program) : p.same q = true ↔ p = q := by
  cases p
  cases q
  simp [Program.same, Stmt.sames_iff]

instance : DecidableEq Program := fun p q =>
  decidable_of_iff _ (Program.same_iff p q)

end MonkeyLang
