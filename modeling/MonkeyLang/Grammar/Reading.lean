import MonkeyLang.Grammar.Diagnostic
import MonkeyLang.Token.Basic

/-!
# Reading — results of reading from a list of tokens

A reading is what was understood of the tokens at the front of a list, the defects noticed on
the way, and how many tokens were used up.  It never fails as a whole: what could not be
understood is an absent value (`Attempt`), and reading goes on behind the tokens used.
-/

namespace MonkeyLang

/-- A value read from the front of a token list. -/
structure Reading (α : Type) where
  value : α
  errors : List Diagnostic
  used : Nat

/-- A reading that may have come to nothing. -/
abbrev Attempt (α : Type) :=
  Reading (Option α)

namespace Reading

variable {α β γ : Type}

/-! ## Putting readings together -/

/-- A value that takes no token. -/
def pure (a : α) : Reading α :=
  ⟨a, [], 0⟩

/-- One reading and then another that starts behind it, which is told the value read and the
number of tokens used. -/
def bind (r : Reading α) (f : α → Nat → Reading β) : Reading β :=
  let next := f r.value r.used
  ⟨next.value, r.errors ++ next.errors, r.used + next.used⟩

def map (f : α → β) (r : Reading α) : Reading β :=
  ⟨f r.value, r.errors, r.used⟩

/-- The same reading with one more token in front of it. -/
def shift (r : Reading α) : Reading α :=
  { r with used := r.used + 1 }

/-! ## Attempts -/

def done (a : α) : Attempt α :=
  pure (some a)

/-- An attempt that comes to nothing because of one defect, and takes no token. -/
def fail (error : SyntaxError) (unread : Nat) : Attempt α :=
  ⟨none, [⟨error, unread⟩], 0⟩

/-- One attempt and, unless it came to nothing, another one behind it. -/
def andThen (r : Attempt α) (f : α → Nat → Attempt β) : Attempt β :=
  r.bind fun
    | some a, n => f a n
    | none, _ => pure none

/-! ## Single tokens -/

/-- The kind of the first token; behind the last token stands the end of input. -/
def lookahead : List Token → Kind
  | [] => .eof
  | t :: _ => t.kind

/-- Take the first token if it has the given kind, and otherwise report it and leave it. -/
def expect (kind : Kind) (ts : List Token) : Attempt Token :=
  match ts with
  | [] => fail (.unexpected kind .eof) 0
  | t :: _ =>
      if t.kind = kind then ⟨some t, [], 1⟩
      else fail (.unexpected kind t.kind) ts.length

/-! ## Fields of combined readings -/

@[simp] theorem used_shift (r : Reading α) : r.shift.used = r.used + 1 := rfl
@[simp] theorem errors_shift (r : Reading α) : r.shift.errors = r.errors := rfl
@[simp] theorem value_shift (r : Reading α) : r.shift.value = r.value := rfl

@[simp] theorem used_map (f : α → β) (r : Reading α) : (r.map f).used = r.used := rfl
@[simp] theorem errors_map (f : α → β) (r : Reading α) : (r.map f).errors = r.errors := rfl
@[simp] theorem used_bind (r : Reading α) (f : α → Nat → Reading β) :
    (r.bind f).used = r.used + (f r.value r.used).used := rfl
@[simp] theorem errors_bind (r : Reading α) (f : α → Nat → Reading β) :
    (r.bind f).errors = r.errors ++ (f r.value r.used).errors := rfl
@[simp] theorem value_bind (r : Reading α) (f : α → Nat → Reading β) :
    (r.bind f).value = (f r.value r.used).value := rfl

/-- Behind an attempt that came to nothing, nothing is read. -/
theorem andThen_of_none {r : Attempt α} (f : α → Nat → Attempt β) (h : r.value = none) :
    r.andThen f = ⟨none, r.errors, r.used⟩ := by
  simp [andThen, bind, h, pure]

theorem andThen_of_some {r : Attempt α} (f : α → Nat → Attempt β) {a : α}
    (h : r.value = some a) :
    r.andThen f =
      ⟨(f a r.used).value, r.errors ++ (f a r.used).errors, r.used + (f a r.used).used⟩ := by
  simp [andThen, bind, h]

theorem done_andThen (a : α) (f : α → Nat → Attempt β) : (done a).andThen f = f a 0 := by
  have hDone : (done a).value = some a := rfl
  rw [andThen_of_some f hDone]
  simp [done, pure]

/-- Attempts one behind the other may be put together from the front or from the back. -/
theorem andThen_andThen (r : Attempt α) (f : α → Nat → Attempt β) (g : β → Nat → Attempt γ) :
    (r.andThen f).andThen g = r.andThen fun a n => (f a n).andThen fun b m => g b (n + m) := by
  cases hr : r.value with
  | none =>
      rw [andThen_of_none f hr, andThen_of_none _ hr]
      exact andThen_of_none g rfl
  | some a =>
      rw [andThen_of_some f hr, andThen_of_some _ hr]
      cases hf : (f a r.used).value with
      | none => rw [andThen_of_none g rfl, andThen_of_none _ hf]
      | some b =>
          rw [andThen_of_some g rfl, andThen_of_some _ hf]
          simp only [List.append_assoc, Nat.add_assoc]

theorem expect_of_eq {k : Kind} {t : Token} (h : t.kind = k) (ts : List Token) :
    expect k (t :: ts) = ⟨some t, [], 1⟩ := by
  simp [expect, h]

theorem expect_of_ne {k : Kind} {t : Token} (h : t.kind ≠ k) (ts : List Token) :
    expect k (t :: ts) = fail (.unexpected k t.kind) (ts.length + 1) := by
  simp [expect, h]

/-- Behind an expected token one token is used. -/
theorem expect_andThen_congr {k : Kind} {ts : List Token} {f g : Token → Nat → Attempt α}
    (h : ∀ t, f t 1 = g t 1) : (expect k ts).andThen f = (expect k ts).andThen g := by
  cases ts with
  | nil => rfl
  | cons t ts =>
      by_cases ht : t.kind = k
      · simp only [expect_of_eq ht, andThen, bind, h]
      · rw [expect_of_ne ht, andThen_of_none f rfl, andThen_of_none g rfl]

/-! ## Places behind tokens -/

/-- A token that the lookahead names is the first one, and the next place is behind it. -/
theorem exists_drop_eq_cons {ts : List Token} {k : Kind} {n : Nat}
    (h : lookahead (ts.drop n) = k) (hk : k ≠ .eof) :
    ∃ t, t.kind = k ∧ ts.drop n = t :: ts.drop (n + 1) := by
  cases hRest : ts.drop n with
  | nil =>
      rw [hRest] at h
      exact absurd h.symm hk
  | cons t rest =>
      rw [hRest] at h
      refine ⟨t, h, ?_⟩
      rw [← List.drop_drop, hRest, List.drop_one, List.tail_cons]

/-- One token behind the place that `n` tokens and what was read behind them lead to. -/
theorem drop_succ_add (ts : List Token) (n m : Nat) :
    (ts.drop (n + m)).drop 1 = ts.drop (n + 1 + m) := by
  rw [List.drop_drop, Nat.add_right_comm]

/-- Behind the first block of a conditional, the keyword of the second one is the first token, and
one token more is in front of that block. -/
theorem exists_drop_eq_else_cons {ts : List Token} {n m : Nat}
    (h : lookahead (ts.drop (3 + n + m)) = .elseWord) :
    ∃ t, t.kind = .elseWord ∧ ts.drop (3 + n + m) = t :: ts.drop (4 + n + m) ∧
      (ts.drop (4 + n + m)).drop 1 = ts.drop (5 + n + m) := by
  rcases exists_drop_eq_cons h (by decide) with ⟨t, ht, hRest⟩
  have hBehind : 3 + n + m + 1 = 4 + n + m := by omega
  rw [hBehind] at hRest
  refine ⟨t, ht, hRest, ?_⟩
  rw [drop_succ_add, Nat.add_right_comm 4]

end Reading
end MonkeyLang
