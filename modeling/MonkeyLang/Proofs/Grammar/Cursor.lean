import MonkeyLang.Grammar.Program

/-!
# Cursor — reading with one token in hand

The functions of `Grammar` get a list of tokens and say how many of them they used.  Here the same
reading is done by a cursor that moves through the tokens: it has one token in hand, sees the next
one, and takes it only by letting go of the one in hand.  Behind the last token stands the end of
input, as often as it is asked for.

Nothing that the cursor does is known to end in advance.  A walk is granted a number of nested
steps (`fuel`), and it comes to nothing if they are not enough; that there are enough for every
list of tokens is left to be proved.  To speak about the way, a cursor records each token that comes
to hand and each place where an expression or a block begins.
-/

namespace MonkeyLang

/-- The beginning of an expression or of a block: the number of tokens not read, and those numbers
at the beginnings of the expressions around it that are not finished, the innermost first. -/
structure Entry where
  unread : Nat
  around : List Nat

/-- The place reached in the tokens, the defects noticed, and the record of the way there. -/
structure Cursor where
  current : Token
  peek : Token
  rest : List Token
  errors : List SyntaxError
  seen : List Token
  entries : List Entry

namespace Cursor

/-- A cursor with the first token in hand. -/
def ofTokens (ts : List Token) : Cursor where
  current := ts.headD .eof
  peek := ts.tail.headD .eof
  rest := ts.tail.tail
  errors := []
  seen := [ts.headD .eof]
  entries := []

/-- How many tokens are left, the one in hand included; the end of input is none of them. -/
def unread (c : Cursor) : Nat :=
  (c.current :: c.peek :: c.rest).countP fun t => t.kind ≠ .eof

def next (c : Cursor) : Cursor :=
  { c with
    current := c.peek
    peek := c.rest.headD .eof
    rest := c.rest.tail
    seen := c.seen ++ [c.peek] }

def report (c : Cursor) (error : SyntaxError) : Cursor :=
  { c with errors := c.errors ++ [error] }

/-- Record that an expression or a block begins. -/
def enter (c : Cursor) (around : List Nat) : Cursor :=
  { c with entries := c.entries ++ [⟨c.unread, around⟩] }

end Cursor

/-- What is done with a cursor; nothing if it was not granted enough steps. -/
abbrev Walk :=
  StateT Cursor Option

namespace Walk

/-! ## Single tokens -/

/-- Not enough steps were granted. -/
def exhausted {α : Type} : Walk α :=
  fun _ => none

def nextToken : Walk Unit :=
  modify Cursor.next

/-- Come to nothing because of a defect. -/
def fail {α : Type} (error : SyntaxError) : Walk (Option α) := do
  modify fun c => c.report error
  return none

/-- Take the next token if it has the given kind, and otherwise report it and leave it. -/
def expectPeek (k : Kind) : Walk (Option Unit) := do
  let next := (← get).peek.kind
  if next = k then
    nextToken
    return some ()
  else fail (.unexpected k next)

def skipSemicolon : Walk Unit := do
  if (← get).peek.kind = .semicolon then nextToken

section

variable {α β : Type} {c c' : Cursor}

theorem bind_eq {w : Walk α} {a : α} (h : w c = some (a, c')) (f : α → Walk β) :
    (w >>= f) c = f a c' := by
  show (w c).bind (fun p => f p.1 p.2) = f a c'
  rw [h]
  rfl

theorem nextToken_eq (c : Cursor) : nextToken c = some ((), c.next) :=
  rfl

theorem expectPeek_of_eq {k : Kind} (h : c.peek.kind = k) :
    expectPeek k c = some (some (), c.next) := by
  show (if c.peek.kind = k then _ else _ : Walk (Option Unit)) c = _
  rw [if_pos h]
  rfl

theorem expectPeek_of_ne {k : Kind} (h : c.peek.kind ≠ k) :
    expectPeek k c = some (none, c.report (.unexpected k c.peek.kind)) := by
  show (if c.peek.kind = k then _ else _ : Walk (Option Unit)) c = _
  rw [if_neg h]
  rfl

theorem skipSemicolon_of_eq (h : c.peek.kind = .semicolon) :
    skipSemicolon c = some ((), c.next) := by
  show (if c.peek.kind = .semicolon then _ else _ : Walk Unit) c = _
  rw [if_pos h]
  rfl

theorem skipSemicolon_of_ne (h : c.peek.kind ≠ .semicolon) : skipSemicolon c = some ((), c) := by
  show (if c.peek.kind = .semicolon then _ else _ : Walk Unit) c = _
  rw [if_neg h]
  rfl

end

/-! ## Parameters -/

/-- The rest of a parameter list, with a parameter in hand, to the closing bracket. -/
def moreParameters : Nat → Walk (Option (List String))
  | 0 => exhausted
  | fuel + 1 => do
      if (← get).peek.kind = .comma then
        nextToken
        let some _ ← expectPeek .ident | return none
        let name := (← get).current.literal
        let some names ← moreParameters fuel | return none
        return some (name :: names)
      else
        let some _ ← expectPeek .rparen | return none
        return some []

/-- A parameter list, with its opening bracket in hand. -/
def parameters (fuel : Nat) : Walk (Option (List String)) := do
  if (← get).peek.kind = .rparen then
    nextToken
    return some []
  else
    let some _ ← expectPeek .ident | return none
    let name := (← get).current.literal
    let some names ← moreParameters fuel | return none
    return some (name :: names)

/-! ## Expressions and statements -/

/-- Whether a token of this kind ends the statements of a block. -/
def closesBlock (k : Kind) : Bool :=
  k = .rbrace || k = .eof

/-- Whether a token of this kind ends the statements of a program. -/
def closesProgram (k : Kind) : Bool :=
  k = .eof

mutual

/-- The expression that begins with the token in hand, as far as it binds tighter than `min`. -/
def expression (min : Precedence) (around : List Nat) : Nat → Walk (Option Expr)
  | 0 => exhausted
  | fuel + 1 => do
      modify fun c => c.enter around
      let here := (← get).unread
      let some left ← operand (here :: around) fuel | return none
      climb min left (here :: around) fuel

/-- The operand that begins with the token in hand. -/
def operand (around : List Nat) : Nat → Walk (Option Expr)
  | 0 => exhausted
  | fuel + 1 => do
      let t := (← get).current
      match t.kind with
      | .ident => return some (.ident t.literal)
      | .int =>
          match Grammar.intOf? t.literal with
          | some n => return some (.int n)
          | none => fail (.invalidInteger t.literal)
      | .trueWord => return some (.bool true)
      | .falseWord => return some (.bool false)
      | .bang =>
          nextToken
          let some right ← expression .unary around fuel | return none
          return some (.prefixOp .bang right)
      | .minus =>
          nextToken
          let some right ← expression .unary around fuel | return none
          return some (.prefixOp .minus right)
      | .lparen =>
          nextToken
          let some e ← expression .lowest around fuel | return none
          let some _ ← expectPeek .rparen | return none
          return some e
      | .ifWord => conditional around fuel
      | .fnWord => function around fuel
      | k => fail (.noOperand k)

/-- Whatever continues `left` and binds tighter than `min`. -/
def climb (min : Precedence) (left : Expr) (around : List Nat) : Nat → Walk (Option Expr)
  | 0 => exhausted
  | fuel + 1 => do
      let k := (← get).peek.kind
      if k ≠ .semicolon ∧ min < Precedence.ofKind k then
        match InfixOp.ofKind? k with
        | some op =>
            nextToken
            nextToken
            let some right ← expression (Precedence.ofKind k) around fuel | return none
            climb min (.infixOp op left right) around fuel
        | none =>
            if k = .lparen then
              nextToken
              let some es ← arguments around fuel | return none
              climb min (.call left es) around fuel
            else return some left
      else return some left

/-- The arguments of a call, with the opening bracket in hand, to the closing one. -/
def arguments (around : List Nat) : Nat → Walk (Option (List Expr))
  | 0 => exhausted
  | fuel + 1 => do
      if (← get).peek.kind = .rparen then
        nextToken
        return some []
      else
        nextToken
        let some e ← expression .lowest around fuel | return none
        let some es ← moreArguments around fuel | return none
        return some (e :: es)

/-- The rest of an argument list, behind an argument, to the closing bracket. -/
def moreArguments (around : List Nat) : Nat → Walk (Option (List Expr))
  | 0 => exhausted
  | fuel + 1 => do
      if (← get).peek.kind = .comma then
        nextToken
        nextToken
        let some e ← expression .lowest around fuel | return none
        let some es ← moreArguments around fuel | return none
        return some (e :: es)
      else
        let some _ ← expectPeek .rparen | return none
        return some []

/-- A conditional, with its keyword in hand. -/
def conditional (around : List Nat) : Nat → Walk (Option Expr)
  | 0 => exhausted
  | fuel + 1 => do
      let some _ ← expectPeek .lparen | return none
      nextToken
      let some condition ← expression .lowest around fuel | return none
      let some _ ← expectPeek .rparen | return none
      let some _ ← expectPeek .lbrace | return none
      let consequence ← block around fuel
      if (← get).peek.kind = .elseWord then
        nextToken
        let some _ ← expectPeek .lbrace | return none
        let alternative ← block around fuel
        return some (.cond condition consequence (some alternative))
      else return some (.cond condition consequence none)

/-- A function literal, with its keyword in hand. -/
def function (around : List Nat) : Nat → Walk (Option Expr)
  | 0 => exhausted
  | fuel + 1 => do
      let some _ ← expectPeek .lparen | return none
      let some names ← parameters fuel | return none
      let some _ ← expectPeek .lbrace | return none
      let body ← block around fuel
      return some (.fn names body)

/-- A block, with its opening brace in hand, to the closing one or to the end of input. -/
def block (around : List Nat) : Nat → Walk (List Stmt)
  | 0 => exhausted
  | fuel + 1 => do
      modify fun c => c.enter around
      nextToken
      statements closesBlock around fuel

/-- Statements, of which the first begins with the token in hand, until a token comes to hand that
ends them.  Of those that come to nothing, nothing is kept. -/
def statements (closes : Kind → Bool) (around : List Nat) : Nat → Walk (List Stmt)
  | 0 => exhausted
  | fuel + 1 => do
      if closes (← get).current.kind then return []
      else
        let s ← statement around fuel
        nextToken
        let ss ← statements closes around fuel
        return s.toList ++ ss

/-- The statement that begins with the token in hand. -/
def statement (around : List Nat) : Nat → Walk (Option Stmt)
  | 0 => exhausted
  | fuel + 1 => do
      match (← get).current.kind with
      | .letWord =>
          let some _ ← expectPeek .ident | return none
          let name := (← get).current.literal
          let some _ ← expectPeek .assign | return none
          nextToken
          let some value ← expression .lowest around fuel | return none
          skipSemicolon
          return some (.bind name value)
      | .returnWord =>
          if Grammar.endsReturn (← get).peek.kind then
            skipSemicolon
            return some (.ret none)
          else
            nextToken
            let some value ← expression .lowest around fuel | return none
            skipSemicolon
            return some (.ret (some value))
      | _ =>
          let some value ← expression .lowest around fuel | return none
          skipSemicolon
          return some (.expr value)

end

/-- All statements, to the end of input. -/
def program : Nat → Walk (List Stmt) :=
  statements closesProgram []

end Walk
end MonkeyLang
