import MonkeyLang.Eval.Error
import MonkeyLang.Store.Basic

/-!
# Run — computations that change a store

A run takes a store and ends in one of three ways, with the store as it then is: with a value,
by a `return` on its way outward, or by a failure.  Only a value lets the computation behind it
go on.  A run that needed more steps than it was granted has no end at all, which is told apart
from all three.
-/

namespace MonkeyLang

/-- How a run ends. -/
inductive Completion (α : Type)
  | value (a : α)
  | returned (v : Value)
  | failed (e : EvalError)

/-- A computation on a store; nothing if it was not granted enough steps. -/
def Run (α : Type) :=
  Store → Option (Completion α × Store)

namespace Run

variable {α β : Type}

/-! ## Sequencing -/

@[inline]
def pure (a : α) : Run α :=
  fun σ => some (.value a, σ)

/-- One run and then, if it ended with a value, another one on the store it left. -/
@[inline]
def bind (m : Run α) (f : α → Run β) : Run β :=
  fun σ =>
    match m σ with
    | none => none
    | some (.value a, σ') => f a σ'
    | some (.returned v, σ') => some (.returned v, σ')
    | some (.failed e, σ') => some (.failed e, σ')

@[always_inline]
instance : Monad Run where
  pure := pure
  bind := bind

/-! ## Ends -/

/-- Not enough steps were granted. -/
def exhausted : Run α :=
  fun _ => none

/-- Leave with a value, as `return` does. -/
def leave (v : Value) : Run α :=
  fun σ => some (.returned v, σ)

def fail (e : EvalError) : Run α :=
  fun σ => some (.failed e, σ)

/-- The result of an operator. -/
def ofExcept : Except EvalError α → Run α
  | .ok a => pure a
  | .error e => fail e

/-- Turn a `return` into the value of the run; failures pass. -/
def settle (m : Run Value) : Run Value :=
  fun σ =>
    match m σ with
    | some (.returned v, σ') => some (.value v, σ')
    | other => other

/-! ## Reaching the store -/

/-- The value of a name as seen from a scope. -/
def lookUp (s : ScopeId) (name : String) : Run Value :=
  fun σ =>
    match σ.get? s name with
    | some v => some (.value v, σ)
    | none => some (.failed (.identifierNotFound name), σ)

def define (s : ScopeId) (name : String) (v : Value) : Run Value :=
  fun σ => some (.value v, σ.define s name v)

def close (s : ScopeId) (parameters : List String) (body : List Stmt) : Run Value :=
  fun σ =>
    let (c, σ') := σ.close s parameters body
    some (.value (.function c), σ')

def openScope (enclosing : ScopeId) (bindings : List (String × Value)) : Run ScopeId :=
  fun σ =>
    let (s, σ') := σ.openScope (some enclosing) bindings
    some (.value s, σ')

end Run
end MonkeyLang
