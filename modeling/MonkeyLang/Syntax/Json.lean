import MonkeyLang.Json.Basic
import MonkeyLang.Syntax.Basic

/-!
# Json — syntax trees as JSON values

A node with several forms is an object with one member, named for the form; its parts are
members in a fixed order.  What is absent is null.  `Program.toJson` writes a program and
`Program.ofJson?` reads exactly what is written so, refusing every other value.
-/

namespace MonkeyLang

/-! ## Operators -/

def PrefixOp.tag : PrefixOp → String
  | .bang => "Bang"
  | .minus => "Minus"

def PrefixOp.ofTag? : String → Option PrefixOp
  | "Bang" => some .bang
  | "Minus" => some .minus
  | _ => none

def InfixOp.tag : InfixOp → String
  | .plus => "Plus"
  | .minus => "Minus"
  | .asterisk => "Asterisk"
  | .slash => "Slash"
  | .lt => "Lt"
  | .gt => "Gt"
  | .eq => "Eq"
  | .notEq => "NotEq"

def InfixOp.ofTag? : String → Option InfixOp
  | "Plus" => some .plus
  | "Minus" => some .minus
  | "Asterisk" => some .asterisk
  | "Slash" => some .slash
  | "Lt" => some .lt
  | "Gt" => some .gt
  | "Eq" => some .eq
  | "NotEq" => some .notEq
  | _ => none

theorem PrefixOp.ofTag?_tag (op : PrefixOp) : PrefixOp.ofTag? op.tag = some op := by
  cases op <;> rfl

theorem InfixOp.ofTag?_tag (op : InfixOp) : InfixOp.ofTag? op.tag = some op := by
  cases op <;> rfl

/-! ## Names -/

/-- A name is an object of its own wherever it stands. -/
def nameToJson (name : String) : Json :=
  .obj [("name", .str name)]

def nameOfJson? : Json → Option String
  | .obj [("name", .str name)] => some name
  | _ => none

/-! ## Writing -/

mutual

def Expr.toJson : Expr → Json
  | .ident name => .obj [("Identifier", nameToJson name)]
  | .int value => .obj [("IntegerLiteral", .num value.toInt)]
  | .bool value => .obj [("BooleanLiteral", .bool value)]
  | .prefixOp op right =>
      .obj [("Prefix", .obj [("operator", .str op.tag), ("right", right.toJson)])]
  | .infixOp op left right =>
      .obj [("Infix", .obj [("left", left.toJson), ("operator", .str op.tag),
        ("right", right.toJson)])]
  | .cond condition consequence none =>
      .obj [("If", .obj [("condition", condition.toJson),
        ("consequence", .obj [("statements", .arr (Stmt.toJsonList consequence))]),
        ("alternative", .null)])]
  | .cond condition consequence (some alternative) =>
      .obj [("If", .obj [("condition", condition.toJson),
        ("consequence", .obj [("statements", .arr (Stmt.toJsonList consequence))]),
        ("alternative", .obj [("statements", .arr (Stmt.toJsonList alternative))])])]
  | .fn parameters body =>
      .obj [("FunctionLiteral", .obj [("parameters", .arr (parameters.map nameToJson)),
        ("body", .obj [("statements", .arr (Stmt.toJsonList body))])])]
  | .call callee arguments =>
      .obj [("Call", .obj [("function", callee.toJson),
        ("arguments", .arr (Expr.toJsonList arguments))])]

def Expr.toJsonList : List Expr → List Json
  | [] => []
  | e :: es => e.toJson :: Expr.toJsonList es

def Stmt.toJson : Stmt → Json
  | .bind name value =>
      .obj [("Let", .obj [("name", nameToJson name), ("value", value.toJson)])]
  | .ret none => .obj [("Return", .obj [("value", .null)])]
  | .ret (some value) => .obj [("Return", .obj [("value", value.toJson)])]
  | .expr value => .obj [("Expression", value.toJson)]
  | .block body => .obj [("Block", .obj [("statements", .arr (Stmt.toJsonList body))])]

def Stmt.toJsonList : List Stmt → List Json
  | [] => []
  | s :: ss => s.toJson :: Stmt.toJsonList ss

end

def Program.toJson (p : Program) : Json :=
  .obj [("statements", .arr (Stmt.toJsonList p.statements))]

/-! ## Reading -/

/-- The 64-bit signed integer of this value, if there is one. -/
def int64OfInt? (n : Int) : Option Int64 :=
  if Int64.minValue.toInt ≤ n ∧ n ≤ Int64.maxValue.toInt then some (Int64.ofInt n) else none

mutual

def Expr.ofJson? : Json → Option Expr
  | .obj [("Identifier", .obj [("name", .str name)])] => some (.ident name)
  | .obj [("IntegerLiteral", .num n)] => (int64OfInt? n).map .int
  | .obj [("BooleanLiteral", .bool value)] => some (.bool value)
  | .obj [("Prefix", .obj [("operator", .str op), ("right", right)])] =>
      match PrefixOp.ofTag? op, Expr.ofJson? right with
      | some op, some right => some (.prefixOp op right)
      | _, _ => none
  | .obj [("Infix", .obj [("left", left), ("operator", .str op), ("right", right)])] =>
      match Expr.ofJson? left, InfixOp.ofTag? op, Expr.ofJson? right with
      | some left, some op, some right => some (.infixOp op left right)
      | _, _, _ => none
  | .obj [("If", .obj [("condition", condition),
      ("consequence", .obj [("statements", .arr consequence)]), ("alternative", .null)])] =>
      match Expr.ofJson? condition, Stmt.ofJsonList? consequence with
      | some condition, some consequence => some (.cond condition consequence none)
      | _, _ => none
  | .obj [("If", .obj [("condition", condition),
      ("consequence", .obj [("statements", .arr consequence)]),
      ("alternative", .obj [("statements", .arr alternative)])])] =>
      match Expr.ofJson? condition, Stmt.ofJsonList? consequence,
          Stmt.ofJsonList? alternative with
      | some condition, some consequence, some alternative =>
          some (.cond condition consequence (some alternative))
      | _, _, _ => none
  | .obj [("FunctionLiteral", .obj [("parameters", .arr parameters),
      ("body", .obj [("statements", .arr body)])])] =>
      match parameters.mapM nameOfJson?, Stmt.ofJsonList? body with
      | some parameters, some body => some (.fn parameters body)
      | _, _ => none
  | .obj [("Call", .obj [("function", callee), ("arguments", .arr arguments)])] =>
      match Expr.ofJson? callee, Expr.ofJsonList? arguments with
      | some callee, some arguments => some (.call callee arguments)
      | _, _ => none
  | _ => none

def Expr.ofJsonList? : List Json → Option (List Expr)
  | [] => some []
  | j :: js =>
      match Expr.ofJson? j, Expr.ofJsonList? js with
      | some e, some es => some (e :: es)
      | _, _ => none

def Stmt.ofJson? : Json → Option Stmt
  | .obj [("Let", .obj [("name", .obj [("name", .str name)]), ("value", value)])] =>
      (Expr.ofJson? value).map fun value => .bind name value
  | .obj [("Return", .obj [("value", .null)])] => some (.ret none)
  | .obj [("Return", .obj [("value", value)])] =>
      (Expr.ofJson? value).map fun value => .ret (some value)
  | .obj [("Expression", value)] => (Expr.ofJson? value).map .expr
  | .obj [("Block", .obj [("statements", .arr body)])] => (Stmt.ofJsonList? body).map .block
  | _ => none

def Stmt.ofJsonList? : List Json → Option (List Stmt)
  | [] => some []
  | j :: js =>
      match Stmt.ofJson? j, Stmt.ofJsonList? js with
      | some s, some ss => some (s :: ss)
      | _, _ => none

end

def Program.ofJson? : Json → Option Program
  | .obj [("statements", .arr statements)] => (Stmt.ofJsonList? statements).map Program.mk
  | _ => none

end MonkeyLang
