import MonkeyLang.Syntax.Canonical
import MonkeyLang.Syntax.Equality

/-!
# Value — what programs compute

Integers, booleans, null, and functions.  A function value is a closure: the parameters and body
of a function literal, the scope in which the literal was evaluated, and a number of its own.
Two function values are the same only if they carry the same number, however alike they look.
-/

namespace MonkeyLang

/-- Scopes are known by number. -/
abbrev ScopeId :=
  Nat

/-- A function literal with the scope that it was evaluated in.  The number `id` is given to it
when it is made, and to no other closure. -/
structure Closure where
  id : Nat
  parameters : List String
  body : List Stmt
  scope : ScopeId
  deriving DecidableEq

inductive Value
  | integer (n : Int64)
  | boolean (b : Bool)
  | null
  | function (c : Closure)
  deriving DecidableEq

/-! ## Types of values -/

inductive ValueType
  | integer
  | boolean
  | null
  | function
  deriving DecidableEq

/-- The name of a type in error messages. -/
def ValueType.name : ValueType → String
  | .integer => "INTEGER"
  | .boolean => "BOOLEAN"
  | .null => "NULL"
  | .function => "FUNCTION"

namespace Value

def type : Value → ValueType
  | integer _ => .integer
  | boolean _ => .boolean
  | null => .null
  | function _ => .function

/-! ## Truth, sameness and text -/

/-- Everything but `false` and null counts as true. -/
def truthy : Value → Bool
  | boolean b => b
  | null => false
  | _ => true

/-- Integers, booleans and null are the same by value, functions only if they are the very same
closure. -/
def same (v w : Value) : Bool :=
  match v with
  | integer n =>
      match w with
      | integer m => n == m
      | _ => false
  | boolean a =>
      match w with
      | boolean b => a == b
      | _ => false
  | null =>
      match w with
      | null => true
      | _ => false
  | function c =>
      match w with
      | function d => c.id == d.id
      | _ => false

/-- How a value is shown; a function shows its parameters and the canonical text of its body. -/
def text : Value → String
  | integer n => decimal n
  | boolean b => truthText b
  | null => "null"
  | function c => "fn(" ++ listed c.parameters ++ ") \x7b " ++ Stmt.texts c.body ++ " \x7d"

/-- Sameness is an equivalence. -/
theorem same_refl (v : Value) : v.same v = true := by
  cases v <;> simp [same]

theorem same_symm {v w : Value} (h : v.same w = true) : w.same v = true := by
  cases v <;> cases w <;> simp_all [same]

theorem same_trans {u v w : Value} (h : u.same v = true) (h' : v.same w = true) :
    u.same w = true := by
  cases u <;> cases v <;> cases w <;> simp_all [same]

end Value
end MonkeyLang
