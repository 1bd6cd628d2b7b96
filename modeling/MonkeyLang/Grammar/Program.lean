import MonkeyLang.Grammar.Precedence
import MonkeyLang.Grammar.Reading
import MonkeyLang.Token.Scan

/-!
# Program — reading programs from tokens

Recursive descent over a token list, with precedence climbing for operators.  Each function
reads from the front of the list and says how many tokens it used; its caller goes on behind
them.  Nothing stops the reading before the last token: a statement that cannot be understood is
reported, dropped, and the next one starts at the first token that was not used.

Statements end at an optional semicolon, blocks at a closing brace or at the end of the input.
-/

namespace MonkeyLang
namespace Grammar

open Reading

/-! ## Numbers -/

/-- The number that a run of decimal digits stands for. -/
def digitsValue (digits : List Char) : Nat :=
  digits.foldl (fun n c => 10 * n + (c.toNat - '0'.toNat)) 0

/-- The largest 64-bit signed integer. -/
def largestInt : Nat :=
  9223372036854775807

/-- The value of an integer literal; a number beyond the largest integer has none. -/
def intOf? (digits : String) : Option Int64 :=
  let n := digitsValue digits.toList
  if n ≤ largestInt then some (Int64.ofNat n) else none

/-! ## Parameters -/

/-- The rest of a parameter list, behind a parameter, up to and with the closing bracket. -/
def moreParameters (ts : List Token) : Attempt (List String) :=
  match ts with
  | [] => (expect .rparen []).andThen fun _ _ => done []
  | t :: rest =>
      if t.kind = .comma then
        ((expect .ident rest).andThen fun name _ =>
          (moreParameters (rest.drop 1)).andThen fun names _ =>
            done (name.literal :: names)).shift
      else
        (expect .rparen (t :: rest)).andThen fun _ _ => done []
termination_by ts.length
decreasing_by
  simp only [List.length_drop, List.length_cons]
  omega

/-- A parameter list behind its opening bracket. -/
def parameters (ts : List Token) : Attempt (List String) :=
  if lookahead ts = .rparen then ⟨some [], [], 1⟩
  else
    (expect .ident ts).andThen fun name _ =>
      (moreParameters (ts.drop 1)).andThen fun names _ =>
        done (name.literal :: names)

/-! ## Expressions and statements -/

/-- A statement that has been read, with the semicolon that may end it. -/
def ended (s : Stmt) (ts : List Token) : Attempt Stmt :=
  ⟨some s, [], if lookahead ts = .semicolon then 1 else 0⟩

/-- Whether a `return` that is followed by a token of this kind has no value. -/
def endsReturn (k : Kind) : Bool :=
  k = .semicolon || k = .rbrace || k = .eof

mutual

/-- An expression at the front of the list, as far as it binds tighter than `min`. -/
def expr (min : Precedence) (ts : List Token) : Attempt Expr :=
  match ts with
  | [] => fail (.noOperand .eof) 0
  | t :: rest => (exprFrom min t rest).shift
termination_by 6 * ts.length
decreasing_by all_goals grind

/-- An expression that starts with the token `t`, which has been taken already. -/
def exprFrom (min : Precedence) (t : Token) (ts : List Token) : Attempt Expr :=
  (operand t ts).andThen fun left n => climb min left (ts.drop n)
termination_by 6 * ts.length + 3
decreasing_by all_goals grind

/-- An operand that starts with the token `t`: what stands before and between infix
operators. -/
def operand (t : Token) (ts : List Token) : Attempt Expr :=
  match t.kind with
  | .ident => done (.ident t.literal)
  | .int =>
      match intOf? t.literal with
      | some n => done (.int n)
      | none => fail (.invalidInteger t.literal) (ts.length + 1)
  | .trueWord => done (.bool true)
  | .falseWord => done (.bool false)
  | .bang => (expr .unary ts).andThen fun e _ => done (.prefixOp .bang e)
  | .minus => (expr .unary ts).andThen fun e _ => done (.prefixOp .minus e)
  | .lparen =>
      (expr .lowest ts).andThen fun e n =>
        (expect .rparen (ts.drop n)).andThen fun _ _ => done e
  | .ifWord => conditional ts
  | .fnWord => function ts
  | k => fail (.noOperand k) (ts.length + 1)
termination_by 6 * ts.length + 2
decreasing_by all_goals grind

/-- Everything behind `left` that binds tighter than `min`: infix operators with their right
operands, and calls.  An operator takes from its right only what binds tighter than itself, so
equal levels group to the left. -/
def climb (min : Precedence) (left : Expr) (ts : List Token) : Attempt Expr :=
  match ts with
  | [] => done left
  | t :: rest =>
      if min < Precedence.ofKind t.kind then
        match InfixOp.ofKind? t.kind with
        | some op =>
            ((expr (Precedence.ofKind t.kind) rest).andThen fun right n =>
              climb min (.infixOp op left right) (rest.drop n)).shift
        | none =>
            ((arguments rest).andThen fun es n =>
              climb min (.call left es) (rest.drop n)).shift
      else done left
termination_by 6 * ts.length
decreasing_by all_goals grind

/-- The arguments of a call behind the opening bracket, up to and with the closing one. -/
def arguments (ts : List Token) : Attempt (List Expr) :=
  if lookahead ts = .rparen then ⟨some [], [], 1⟩
  else
    (expr .lowest ts).andThen fun e n =>
      (moreArguments (ts.drop n)).andThen fun es _ => done (e :: es)
termination_by 6 * ts.length + 1
decreasing_by all_goals grind

/-- The rest of an argument list, behind an argument, up to and with the closing bracket. -/
def moreArguments (ts : List Token) : Attempt (List Expr) :=
  match ts with
  | [] => (expect .rparen []).andThen fun _ _ => done []
  | t :: rest =>
      if t.kind = .comma then
        ((expr .lowest rest).andThen fun e n =>
          (moreArguments (rest.drop n)).andThen fun es _ => done (e :: es)).shift
      else
        (expect .rparen (t :: rest)).andThen fun _ _ => done []
termination_by 6 * ts.length
decreasing_by all_goals grind

/-- A conditional behind its keyword. -/
def conditional (ts : List Token) : Attempt Expr :=
  (expect .lparen ts).andThen fun _ _ =>
    (expr .lowest (ts.drop 1)).andThen fun condition n =>
      (expect .rparen (ts.drop (1 + n))).andThen fun _ _ =>
        (expect .lbrace (ts.drop (2 + n))).andThen fun _ _ =>
          (block (ts.drop (3 + n))).bind fun consequence m =>
            if lookahead (ts.drop (3 + n + m)) = .elseWord then
              ((expect .lbrace (ts.drop (4 + n + m))).andThen fun _ _ =>
                (block (ts.drop (5 + n + m))).map fun alternative =>
                  some (.cond condition consequence (some alternative))).shift
            else done (.cond condition consequence none)
termination_by 6 * ts.length + 1
decreasing_by all_goals grind

/-- A function literal behind its keyword. -/
def function (ts : List Token) : Attempt Expr :=
  (expect .lparen ts).andThen fun _ _ =>
    (parameters (ts.drop 1)).andThen fun names n =>
      (expect .lbrace (ts.drop (1 + n))).andThen fun _ _ =>
        (block (ts.drop (2 + n))).map fun body => some (.fn names body)
termination_by 6 * ts.length + 1
decreasing_by all_goals grind

/-- The statements of a block behind its opening brace, up to and with the closing one; the end
of the input closes a block too. -/
def block (ts : List Token) : Reading (List Stmt) :=
  match ts with
  | [] => .pure []
  | t :: rest =>
      if t.kind = .rbrace then ⟨[], [], 1⟩
      else
        ((stmt t rest).bind fun s n =>
          (block (rest.drop n)).map fun ss => s.toList ++ ss).shift
termination_by 6 * ts.length
decreasing_by all_goals grind

/-- A statement that starts with the token `t`, which has been taken already. -/
def stmt (t : Token) (ts : List Token) : Attempt Stmt :=
  match t.kind with
  | .letWord =>
      (expect .ident ts).andThen fun name _ =>
        (expect .assign (ts.drop 1)).andThen fun _ _ =>
          (expr .lowest (ts.drop 2)).andThen fun value n =>
            ended (.bind name.literal value) (ts.drop (2 + n))
  | .returnWord =>
      if endsReturn (lookahead ts) then ended (.ret none) ts
      else
        (expr .lowest ts).andThen fun value n => ended (.ret (some value)) (ts.drop n)
  | _ => (exprFrom .lowest t ts).andThen fun value n => ended (.expr value) (ts.drop n)
termination_by 6 * ts.length + 4
decreasing_by all_goals grind

end

/-- All statements of a token list, to its end. -/
def program (ts : List Token) : Reading (List Stmt) :=
  match ts with
  | [] => .pure []
  | t :: rest =>
      ((stmt t rest).bind fun s n =>
        (program (rest.drop n)).map fun ss => s.toList ++ ss).shift
termination_by ts.length
decreasing_by
  simp only [List.length_drop, List.length_cons]
  omega

end Grammar

/-! ## Source texts -/

/-- What reading a source text gives: the statements that could be understood, and the defects
in the order in which they were noticed. -/
structure Parsed where
  program : Program
  diagnostics : List Diagnostic

/-- The defects without their places. -/
def Parsed.errors (p : Parsed) : List SyntaxError :=
  p.diagnostics.map fun d => d.error

/-- Read a program from tokens. -/
def Parsed.ofTokens (ts : List Token) : Parsed :=
  let reading := Grammar.program ts
  ⟨⟨reading.value⟩, reading.errors⟩

/-- Read a program from source text. -/
def parse (source : String) : Parsed :=
  Parsed.ofTokens (Token.lexemes source.toList)

/-- The program of a source text without defects, or else the defects. -/
def parse? (source : String) : Except (List SyntaxError) Program :=
  let p := parse source
  if p.errors.isEmpty then .ok p.program else .error p.errors

end MonkeyLang
