import MonkeyLang.Proofs.Eval.InTurn
import MonkeyLang.Proofs.Syntax.Splicing

/-!
# Opened — lists of statements, with and without blocks

How a list of statements ends follows from how its members do.  Said with `Run.Ends`, for any
number of steps that suffices, the rules for an empty list, for a first statement and for lists one
behind the other are equivalences, and blocks disappear from them: a block and its statements in
its place end in the same ways, since blocks have no scope of their own.
-/

namespace MonkeyLang

/-! ## Ends of two runs in order -/

namespace Run

variable {α β : Type} {σ τ : Store}

/-- More steps change no end. -/
def Growing (m : Nat → Run α) : Prop :=
  ∀ n k, n ≤ k → (m n).Refines (m k)

theorem ends_succ_iff {m : Nat → Run α} {c : Completion α} :
    Ends (fun n => m (n + 1)) σ c τ ↔ Ends m σ c τ := by
  constructor
  · exact Ends.of_succ
  · rintro ⟨n, h⟩
    exact ⟨n, fun k hk => h (k + 1) (Nat.le_succ_of_le hk)⟩

/-- The second of two runs is reached with a value, and any exit of the first one is an end. -/
theorem ends_bind_iff {m : Nat → Run α} {f : Nat → α → Run β} {c : Completion β}
    (hm : Growing m) (hf : ∀ a, Growing fun n => f n a) :
    Ends (fun n => m n >>= f n) σ c τ ↔
      (∃ a υ, Ends m σ (.value a) υ ∧ Ends (fun n => f n a) υ c τ) ∨
        ∃ x : Exit, Ends m σ x.completion τ ∧ c = x.completion := by
  constructor
  · rintro ⟨n, h⟩
    rcases exists_of_bind (h n (Nat.le_refl n)) with ⟨a, υ, hFirst, hSecond⟩ | ⟨x, hFirst, rfl⟩
    · exact .inl ⟨a, υ, (ends_iff hm).2 ⟨n, hFirst⟩, (ends_iff (hf a)).2 ⟨n, hSecond⟩⟩
    · exact .inr ⟨x, (ends_iff hm).2 ⟨n, hFirst⟩, rfl⟩
  · rintro (⟨a, υ, hFirst, hSecond⟩ | ⟨x, hFirst, rfl⟩)
    · exact hFirst.bind hSecond
    · exact hFirst.bind_exit

end Run

/-! ## Ends of statements -/

open Run (Ends)

theorem evalStmts_growing (s : ScopeId) (v : Value) (ss : List Stmt) :
    Run.Growing fun n => evalStmts n s v ss :=
  fun _ _ h => evalStmts_of_le h s v ss

theorem evalStmt_growing (s : ScopeId) (st : Stmt) : Run.Growing fun n => evalStmt n s st :=
  fun _ _ h => evalStmt_of_le h s st

section

variable {s : ScopeId} {v : Value} {σ τ : Store} {c : Completion Value}

theorem ends_stmts_nil_iff :
    Ends (fun n => evalStmts n s v []) σ c τ ↔ c = .value v ∧ τ = σ := by
  constructor
  · rintro ⟨n, h⟩
    exact eq_of_evalStmts_nil (h n (Nat.le_refl n))
  · rintro ⟨rfl, rfl⟩
    refine .of_succ ?_
    simp only [evalStmts]
    exact .of_eq rfl

theorem ends_stmts_cons_iff {st : Stmt} {ss : List Stmt} :
    Ends (fun n => evalStmts n s v (st :: ss)) σ c τ ↔
      (∃ w υ, Ends (fun n => evalStmt n s st) σ (.value w) υ ∧
        Ends (fun n => evalStmts n s w ss) υ c τ) ∨
      ∃ x : Exit, Ends (fun n => evalStmt n s st) σ x.completion τ ∧ c = x.completion := by
  rw [← Run.ends_succ_iff]
  simp only [evalStmts]
  exact Run.ends_bind_iff (evalStmt_growing s st) fun w => evalStmts_growing s w ss

/-- What is in front of statements is evaluated before them, and is the end if it is an exit. -/
theorem ends_stmts_append_iff {ss ts : List Stmt} :
    Ends (fun n => evalStmts n s v (ss ++ ts)) σ c τ ↔
      (∃ w υ, Ends (fun n => evalStmts n s v ss) σ (.value w) υ ∧
        Ends (fun n => evalStmts n s w ts) υ c τ) ∨
      ∃ x : Exit, Ends (fun n => evalStmts n s v ss) σ x.completion τ ∧ c = x.completion := by
  induction ss generalizing v σ with
  | nil =>
      simp only [List.nil_append, ends_stmts_nil_iff]
      constructor
      · intro h
        exact .inl ⟨v, σ, ⟨rfl, rfl⟩, h⟩
      · rintro (⟨w, υ, ⟨hw, rfl⟩, h⟩ | ⟨x, ⟨hx, -⟩, -⟩)
        · cases hw
          exact h
        · exact absurd hx.symm (x.value_ne_completion v)
  | cons st ss ih =>
      simp only [List.cons_append, ends_stmts_cons_iff, ih]
      constructor
      · rintro (⟨u, ρ, hFirst, ⟨w, υ, hRest, h⟩ | ⟨x, hRest, rfl⟩⟩ | ⟨x, hFirst, rfl⟩)
        · exact .inl ⟨w, υ, .inl ⟨u, ρ, hFirst, hRest⟩, h⟩
        · exact .inr ⟨x, .inl ⟨u, ρ, hFirst, hRest⟩, rfl⟩
        · exact .inr ⟨x, .inr ⟨x, hFirst, rfl⟩, rfl⟩
      · rintro (⟨w, υ, ⟨u, ρ, hFirst, hRest⟩ | ⟨x, -, hx⟩, h⟩ |
          ⟨x, ⟨u, ρ, hFirst, hRest⟩ | ⟨y, hFirst, hx⟩, rfl⟩)
        · exact .inl ⟨u, ρ, hFirst, .inl ⟨w, υ, hRest, h⟩⟩
        · exact absurd hx (x.value_ne_completion w)
        · exact .inl ⟨u, ρ, hFirst, .inr ⟨x, hRest, rfl⟩⟩
        · exact .inr ⟨y, hFirst, hx⟩

theorem ends_stmts_singleton_iff {st : Stmt} :
    Ends (fun n => evalStmts n s v [st]) σ c τ ↔ Ends (fun n => evalStmt n s st) σ c τ := by
  simp only [ends_stmts_cons_iff, ends_stmts_nil_iff]
  constructor
  · rintro (⟨w, υ, h, rfl, rfl⟩ | ⟨x, h, rfl⟩)
    · exact h
    · exact h
  · intro h
    rcases c.value_or_exit with ⟨w, rfl⟩ | ⟨x, rfl⟩
    · exact .inl ⟨w, τ, h, rfl, rfl⟩
    · exact .inr ⟨x, h, rfl⟩

theorem ends_block_iff {ss : List Stmt} :
    Ends (fun n => evalStmt n s (.block ss)) σ c τ ↔
      Ends (fun n => evalStmts n s .null ss) σ c τ := by
  rw [← Run.ends_succ_iff]
  simp only [evalStmt]

/-- What statements start from does not count if there are any. -/
theorem ends_stmts_start_iff {ss : List Stmt} (h : ss ≠ []) (w : Value) :
    Ends (fun n => evalStmts n s v ss) σ c τ ↔ Ends (fun n => evalStmts n s w ss) σ c τ := by
  cases ss with
  | nil => exact absurd rfl h
  | cons st ss => rw [ends_stmts_cons_iff, ends_stmts_cons_iff]

end

/-! ## Opening blocks -/

mutual

theorem ends_opened_iff : ∀ {s : ScopeId} {v : Value} {σ τ : Store} {c : Completion Value}
    (st : Stmt), Ends (fun n => evalStmts n s v st.opened) σ c τ ↔
      Ends (fun n => evalStmt n s st) σ c τ
  | _, _, _, _, _, .bind name e => by simp only [Stmt.opened, ends_stmts_singleton_iff]
  | _, _, _, _, _, .ret e => by simp only [Stmt.opened, ends_stmts_singleton_iff]
  | _, _, _, _, _, .expr e => by simp only [Stmt.opened, ends_stmts_singleton_iff]
  | _, _, _, _, _, .block [] => by simp only [Stmt.opened, ends_stmts_singleton_iff]
  | s, v, σ, τ, c, .block (t :: ts) => by
      have hOpened : (Stmt.block (t :: ts)).opened = Stmt.openedAll (t :: ts) := by
        simp only [Stmt.opened, Stmt.openedAll]
      rw [hOpened, ends_openedAll_iff (t :: ts), ends_stmts_start_iff (List.cons_ne_nil t ts) .null,
        ends_block_iff]

/-- Statements and what is left when their blocks are opened end in the same ways. -/
theorem ends_openedAll_iff : ∀ {s : ScopeId} {v : Value} {σ τ : Store} {c : Completion Value}
    (ss : List Stmt), Ends (fun n => evalStmts n s v (Stmt.openedAll ss)) σ c τ ↔
      Ends (fun n => evalStmts n s v ss) σ c τ
  | _, _, _, _, _, [] => by simp only [Stmt.openedAll]
  | _, _, _, _, _, t :: ts => by
      simp only [Stmt.openedAll, ends_stmts_append_iff, ends_stmts_cons_iff, ends_opened_iff t,
        ends_openedAll_iff ts]

end

end MonkeyLang
