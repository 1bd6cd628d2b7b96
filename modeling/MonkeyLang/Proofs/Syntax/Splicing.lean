import MonkeyLang.Syntax.Canonical

/-!
# Splicing — trees without blocks among their statements

A block that stands as a statement can give way to its own statements, in the list that it stands
in.  `spliced` does so everywhere in a tree: in the program itself, in the branches of conditionals
and in the bodies of functions.  An empty block stays where it is, since its value is null and that
of nothing at all is the one before it.

Splicing is done in one go from the root.  Proofs take it in two steps: the blocks of one list open
up (`Stmt.opened`), and the statements found there are spliced within (`Stmt.within`).
-/

namespace MonkeyLang

/-! ## Splicing -/

mutual

def Expr.spliced : Expr → Expr
  | .ident name => .ident name
  | .int n => .int n
  | .bool b => .bool b
  | .prefixOp op right => .prefixOp op right.spliced
  | .infixOp op left right => .infixOp op left.spliced right.spliced
  | .cond condition consequence none =>
      .cond condition.spliced (Stmt.splicedAll consequence) none
  | .cond condition consequence (some alternative) =>
      .cond condition.spliced (Stmt.splicedAll consequence) (some (Stmt.splicedAll alternative))
  | .fn parameters body => .fn parameters (Stmt.splicedAll body)
  | .call callee arguments => .call callee.spliced (Expr.splicedAll arguments)

def Expr.splicedAll : List Expr → List Expr
  | [] => []
  | e :: es => e.spliced :: Expr.splicedAll es

/-- The statements that stand for one. -/
def Stmt.spliced : Stmt → List Stmt
  | .bind name e => [.bind name e.spliced]
  | .ret none => [.ret none]
  | .ret (some e) => [.ret (some e.spliced)]
  | .expr e => [.expr e.spliced]
  | .block [] => [.block []]
  | .block (s :: ss) => s.spliced ++ Stmt.splicedAll ss

def Stmt.splicedAll : List Stmt → List Stmt
  | [] => []
  | s :: ss => s.spliced ++ Stmt.splicedAll ss

end

def Program.spliced (p : Program) : Program :=
  ⟨Stmt.splicedAll p.statements⟩

/-- A block with statements in it is gone. -/
theorem Stmt.spliced_block {ss : List Stmt} (h : ss ≠ []) :
    (Stmt.block ss).spliced = Stmt.splicedAll ss := by
  cases ss with
  | nil => exact absurd rfl h
  | cons s ss => simp only [Stmt.spliced, Stmt.splicedAll]

/-- Every statement leaves something behind. -/
theorem Stmt.spliced_ne_nil : ∀ s : Stmt, s.spliced ≠ []
  | .bind name e => by simp [Stmt.spliced]
  | .ret none => by simp [Stmt.spliced]
  | .ret (some e) => by simp [Stmt.spliced]
  | .expr e => by simp [Stmt.spliced]
  | .block [] => by simp [Stmt.spliced]
  | .block (s :: ss) => by simp [Stmt.spliced, s.spliced_ne_nil]

theorem Stmt.splicedAll_append (ss ts : List Stmt) :
    Stmt.splicedAll (ss ++ ts) = Stmt.splicedAll ss ++ Stmt.splicedAll ts := by
  induction ss with
  | nil => simp only [List.nil_append, Stmt.splicedAll]
  | cons s ss ih => simp only [List.cons_append, Stmt.splicedAll, ih, List.append_assoc]

/-- A conditional, whether or not it has a second branch. -/
theorem Expr.spliced_cond (condition : Expr) (consequence : List Stmt)
    (alternative : Option (List Stmt)) :
    (Expr.cond condition consequence alternative).spliced =
      .cond condition.spliced (Stmt.splicedAll consequence)
        (alternative.map Stmt.splicedAll) := by
  cases alternative <;> simp only [Expr.spliced, Option.map_none, Option.map_some]

/-! ## Splicing again -/

mutual

theorem Expr.spliced_spliced : ∀ e : Expr, e.spliced.spliced = e.spliced
  | .ident name => by simp only [Expr.spliced]
  | .int n => by simp only [Expr.spliced]
  | .bool b => by simp only [Expr.spliced]
  | .prefixOp op right => by simp only [Expr.spliced, right.spliced_spliced]
  | .infixOp op left right => by
      simp only [Expr.spliced, left.spliced_spliced, right.spliced_spliced]
  | .cond condition consequence none => by
      simp only [Expr.spliced, condition.spliced_spliced, Stmt.splicedAll_splicedAll consequence]
  | .cond condition consequence (some alternative) => by
      simp only [Expr.spliced, condition.spliced_spliced, Stmt.splicedAll_splicedAll consequence,
        Stmt.splicedAll_splicedAll alternative]
  | .fn parameters body => by simp only [Expr.spliced, Stmt.splicedAll_splicedAll body]
  | .call callee arguments => by
      simp only [Expr.spliced, callee.spliced_spliced, Expr.splicedAll_splicedAll arguments]

theorem Expr.splicedAll_splicedAll : ∀ es : List Expr,
    Expr.splicedAll (Expr.splicedAll es) = Expr.splicedAll es
  | [] => by simp only [Expr.splicedAll]
  | e :: es => by
      simp only [Expr.splicedAll, e.spliced_spliced, Expr.splicedAll_splicedAll es]

theorem Stmt.splicedAll_spliced : ∀ s : Stmt, Stmt.splicedAll s.spliced = s.spliced
  | .bind name e => by
      simp only [Stmt.spliced, Stmt.splicedAll, e.spliced_spliced, List.append_nil]
  | .ret none => by simp only [Stmt.spliced, Stmt.splicedAll, List.append_nil]
  | .ret (some e) => by
      simp only [Stmt.spliced, Stmt.splicedAll, e.spliced_spliced, List.append_nil]
  | .expr e => by simp only [Stmt.spliced, Stmt.splicedAll, e.spliced_spliced, List.append_nil]
  | .block [] => by simp only [Stmt.spliced, Stmt.splicedAll, List.append_nil]
  | .block (s :: ss) => by
      simp only [Stmt.spliced, Stmt.splicedAll_append, s.splicedAll_spliced,
        Stmt.splicedAll_splicedAll ss]

/-- There is nothing left to splice. -/
theorem Stmt.splicedAll_splicedAll : ∀ ss : List Stmt,
    Stmt.splicedAll (Stmt.splicedAll ss) = Stmt.splicedAll ss
  | [] => by simp only [Stmt.splicedAll]
  | s :: ss => by
      simp only [Stmt.splicedAll, Stmt.splicedAll_append, s.splicedAll_spliced,
        Stmt.splicedAll_splicedAll ss]

end

/-! ## Texts -/

theorem Stmt.texts_append (ss ts : List Stmt) :
    Stmt.texts (ss ++ ts) = Stmt.texts ss ++ Stmt.texts ts := by
  induction ss with
  | nil => simp only [List.nil_append, Stmt.texts, String.empty_append]
  | cons s ss ih => simp only [List.cons_append, Stmt.texts, ih, String.append_assoc]

mutual

/-- Canonical text has no braces, so it does not tell what was grouped. -/
theorem Expr.text_spliced : ∀ e : Expr, e.spliced.text = e.text
  | .ident name => by simp only [Expr.spliced]
  | .int n => by simp only [Expr.spliced]
  | .bool b => by simp only [Expr.spliced]
  | .prefixOp op right => by simp only [Expr.spliced, Expr.text, right.text_spliced]
  | .infixOp op left right => by
      simp only [Expr.spliced, Expr.text, left.text_spliced, right.text_spliced]
  | .cond condition consequence none => by
      simp only [Expr.spliced, Expr.text, condition.text_spliced,
        Stmt.texts_splicedAll consequence]
  | .cond condition consequence (some alternative) => by
      simp only [Expr.spliced, Expr.text, condition.text_spliced,
        Stmt.texts_splicedAll consequence, Stmt.texts_splicedAll alternative]
  | .fn parameters body => by simp only [Expr.spliced, Expr.text, Stmt.texts_splicedAll body]
  | .call callee arguments => by
      simp only [Expr.spliced, Expr.text, callee.text_spliced, Expr.textList_splicedAll arguments]

theorem Expr.textList_splicedAll : ∀ es : List Expr,
    Expr.textList (Expr.splicedAll es) = Expr.textList es
  | [] => by simp only [Expr.splicedAll]
  | e :: es => by
      simp only [Expr.splicedAll, Expr.textList, e.text_spliced, Expr.textList_splicedAll es]

theorem Stmt.texts_spliced : ∀ s : Stmt, Stmt.texts s.spliced = s.text
  | .bind name e => by
      simp only [Stmt.spliced, Stmt.texts, Stmt.text, e.text_spliced, String.append_empty]
  | .ret none => by simp only [Stmt.spliced, Stmt.texts, String.append_empty]
  | .ret (some e) => by
      simp only [Stmt.spliced, Stmt.texts, Stmt.text, e.text_spliced, String.append_empty]
  | .expr e => by
      simp only [Stmt.spliced, Stmt.texts, Stmt.text, e.text_spliced, String.append_empty]
  | .block [] => by simp only [Stmt.spliced, Stmt.texts, String.append_empty]
  | .block (s :: ss) => by
      simp only [Stmt.spliced, Stmt.text, Stmt.texts, Stmt.texts_append, s.texts_spliced,
        Stmt.texts_splicedAll ss]

theorem Stmt.texts_splicedAll : ∀ ss : List Stmt,
    Stmt.texts (Stmt.splicedAll ss) = Stmt.texts ss
  | [] => by simp only [Stmt.splicedAll]
  | s :: ss => by
      simp only [Stmt.splicedAll, Stmt.texts, Stmt.texts_append, s.texts_spliced,
        Stmt.texts_splicedAll ss]

end

/-! ## Blocks -/

mutual

/-- The blocks that stand as statements, at every depth. -/
def Expr.blocks : Expr → List (List Stmt)
  | .ident _ => []
  | .int _ => []
  | .bool _ => []
  | .prefixOp _ right => right.blocks
  | .infixOp _ left right => left.blocks ++ right.blocks
  | .cond condition consequence none => condition.blocks ++ Stmt.blocksAll consequence
  | .cond condition consequence (some alternative) =>
      condition.blocks ++ Stmt.blocksAll consequence ++ Stmt.blocksAll alternative
  | .fn _ body => Stmt.blocksAll body
  | .call callee arguments => callee.blocks ++ Expr.blocksAll arguments

def Expr.blocksAll : List Expr → List (List Stmt)
  | [] => []
  | e :: es => e.blocks ++ Expr.blocksAll es

def Stmt.blocks : Stmt → List (List Stmt)
  | .bind _ e => e.blocks
  | .ret none => []
  | .ret (some e) => e.blocks
  | .expr e => e.blocks
  | .block ss => ss :: Stmt.blocksAll ss

def Stmt.blocksAll : List Stmt → List (List Stmt)
  | [] => []
  | s :: ss => s.blocks ++ Stmt.blocksAll ss

end

def Program.blocks (p : Program) : List (List Stmt) :=
  Stmt.blocksAll p.statements

theorem Stmt.blocksAll_append (ss ts : List Stmt) :
    Stmt.blocksAll (ss ++ ts) = Stmt.blocksAll ss ++ Stmt.blocksAll ts := by
  induction ss with
  | nil => simp only [List.nil_append, Stmt.blocksAll]
  | cons s ss ih => simp only [List.cons_append, Stmt.blocksAll, ih, List.append_assoc]

mutual

theorem Expr.blocks_spliced : ∀ e : Expr, [] ∉ e.blocks → e.spliced.blocks = []
  | .ident name, _ => by simp only [Expr.spliced, Expr.blocks]
  | .int n, _ => by simp only [Expr.spliced, Expr.blocks]
  | .bool b, _ => by simp only [Expr.spliced, Expr.blocks]
  | .prefixOp op right, h => by
      simp only [Expr.blocks] at h
      simp only [Expr.spliced, Expr.blocks, right.blocks_spliced h]
  | .infixOp op left right, h => by
      simp only [Expr.blocks, List.mem_append, not_or] at h
      simp only [Expr.spliced, Expr.blocks, left.blocks_spliced h.1, right.blocks_spliced h.2,
        List.append_nil]
  | .cond condition consequence none, h => by
      simp only [Expr.blocks, List.mem_append, not_or] at h
      simp only [Expr.spliced, Expr.blocks, condition.blocks_spliced h.1,
        Stmt.blocksAll_splicedAll consequence h.2, List.append_nil]
  | .cond condition consequence (some alternative), h => by
      simp only [Expr.blocks, List.mem_append, not_or] at h
      simp only [Expr.spliced, Expr.blocks, condition.blocks_spliced h.1.1,
        Stmt.blocksAll_splicedAll consequence h.1.2, Stmt.blocksAll_splicedAll alternative h.2,
        List.append_nil]
  | .fn parameters body, h => by
      simp only [Expr.blocks] at h
      simp only [Expr.spliced, Expr.blocks, Stmt.blocksAll_splicedAll body h]
  | .call callee arguments, h => by
      simp only [Expr.blocks, List.mem_append, not_or] at h
      simp only [Expr.spliced, Expr.blocks, callee.blocks_spliced h.1,
        Expr.blocksAll_splicedAll arguments h.2, List.append_nil]

theorem Expr.blocksAll_splicedAll : ∀ es : List Expr, [] ∉ Expr.blocksAll es →
    Expr.blocksAll (Expr.splicedAll es) = []
  | [], _ => by simp only [Expr.splicedAll, Expr.blocksAll]
  | e :: es, h => by
      simp only [Expr.blocksAll, List.mem_append, not_or] at h
      simp only [Expr.splicedAll, Expr.blocksAll, e.blocks_spliced h.1,
        Expr.blocksAll_splicedAll es h.2, List.append_nil]

theorem Stmt.blocksAll_spliced : ∀ s : Stmt, [] ∉ s.blocks → Stmt.blocksAll s.spliced = []
  | .bind name e, h => by
      simp only [Stmt.blocks] at h
      simp only [Stmt.spliced, Stmt.blocksAll, Stmt.blocks, e.blocks_spliced h, List.append_nil]
  | .ret none, _ => by simp only [Stmt.spliced, Stmt.blocksAll, Stmt.blocks, List.append_nil]
  | .ret (some e), h => by
      simp only [Stmt.blocks] at h
      simp only [Stmt.spliced, Stmt.blocksAll, Stmt.blocks, e.blocks_spliced h, List.append_nil]
  | .expr e, h => by
      simp only [Stmt.blocks] at h
      simp only [Stmt.spliced, Stmt.blocksAll, Stmt.blocks, e.blocks_spliced h, List.append_nil]
  | .block [], h => absurd List.mem_cons_self (by simpa only [Stmt.blocks] using h)
  | .block (s :: ss), h => by
      simp only [Stmt.blocks, Stmt.blocksAll, List.mem_cons, List.mem_append, not_or] at h
      simp only [Stmt.spliced, Stmt.blocksAll_append, s.blocksAll_spliced h.2.1,
        Stmt.blocksAll_splicedAll ss h.2.2, List.append_nil]

/-- If no block was empty then no block is left. -/
theorem Stmt.blocksAll_splicedAll : ∀ ss : List Stmt, [] ∉ Stmt.blocksAll ss →
    Stmt.blocksAll (Stmt.splicedAll ss) = []
  | [], _ => by simp only [Stmt.splicedAll, Stmt.blocksAll]
  | s :: ss, h => by
      simp only [Stmt.blocksAll, List.mem_append, not_or] at h
      simp only [Stmt.splicedAll, Stmt.blocksAll_append, s.blocksAll_spliced h.1,
        Stmt.blocksAll_splicedAll ss h.2, List.append_nil]

end

/-! ## One list of statements -/

mutual

/-- A statement, or what is in the block: blocks in blocks are opened too, but nothing else. -/
def Stmt.opened : Stmt → List Stmt
  | .bind name e => [.bind name e]
  | .ret e => [.ret e]
  | .expr e => [.expr e]
  | .block [] => [.block []]
  | .block (s :: ss) => s.opened ++ Stmt.openedAll ss

def Stmt.openedAll : List Stmt → List Stmt
  | [] => []
  | s :: ss => s.opened ++ Stmt.openedAll ss

end

/-- A statement with its expression spliced. -/
def Stmt.within : Stmt → Stmt
  | .bind name e => .bind name e.spliced
  | .ret e => .ret (e.map Expr.spliced)
  | .expr e => .expr e.spliced
  | .block ss => .block ss

mutual

theorem Stmt.spliced_eq_map : ∀ s : Stmt, s.spliced = s.opened.map Stmt.within
  | .bind name e => by
      simp only [Stmt.spliced, Stmt.opened, List.map_cons, Stmt.within, List.map_nil]
  | .ret none => by
      simp only [Stmt.spliced, Stmt.opened, List.map_cons, Stmt.within, Option.map_none,
        List.map_nil]
  | .ret (some e) => by
      simp only [Stmt.spliced, Stmt.opened, List.map_cons, Stmt.within, Option.map_some,
        List.map_nil]
  | .expr e => by simp only [Stmt.spliced, Stmt.opened, List.map_cons, Stmt.within, List.map_nil]
  | .block [] => by simp only [Stmt.spliced, Stmt.opened, List.map_cons, Stmt.within, List.map_nil]
  | .block (s :: ss) => by
      simp only [Stmt.spliced, Stmt.opened, List.map_append, s.spliced_eq_map,
        Stmt.splicedAll_eq_map ss]

theorem Stmt.splicedAll_eq_map : ∀ ss : List Stmt,
    Stmt.splicedAll ss = (Stmt.openedAll ss).map Stmt.within
  | [] => by simp only [Stmt.splicedAll, Stmt.openedAll, List.map_nil]
  | s :: ss => by
      simp only [Stmt.splicedAll, Stmt.openedAll, List.map_append, s.spliced_eq_map,
        Stmt.splicedAll_eq_map ss]

end

end MonkeyLang
