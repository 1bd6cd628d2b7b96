import MonkeyLang.Eval.Machine

/-!
# Session — commands on a store, one after the other

A session keeps one store.  Its commands open scopes, define and copy bindings, look names up,
compare them, and run programs.  Bindings made before a failure stay.
-/

namespace MonkeyLang
namespace Session

/-! ## Commands and replies -/

/-- The ways to run a program in a scope: as a program on its own, with a machine that has the
scope in effect, or only the expression that is its first statement, with such a machine. -/
inductive Mode
  | eval
  | interpret
  | evaluate
  deriving DecidableEq

inductive Command
  | openScope (enclosing : Option ScopeId)
  | define (scope : ScopeId) (name : String) (v : Value)
  | copy (source : ScopeId) (sourceName : String) (target : ScopeId) (targetName : String)
  | get (scope : ScopeId) (name : String)
  | same (left : ScopeId) (leftName : String) (right : ScopeId) (rightName : String)
  | run (mode : Mode) (scope : ScopeId) (p : Program)

inductive Reply
  | opened (scope : ScopeId)
  | defined
  | found (v? : Option Value)
  | compared (equal : Bool)
  | result (r : Except EvalError Value)
  | notAnExpression

/-! ## Execution -/

/-- Two lookups are the same if both found the same value, or neither found any. -/
def sameFound : Option Value → Option Value → Bool
  | some v, some w => v.same w
  | none, none => true
  | _, _ => false

/-- Run a program in a scope. -/
def runProgram (fuel : Nat) (mode : Mode) (s : ScopeId) (p : Program) (σ : Store) :
    Option (Reply × Store) :=
  match mode with
  | .eval => (MonkeyLang.eval fuel p s σ).map fun (r, σ') => (.result r, σ')
  | .interpret => ((Machine.mk s σ).interpret fuel p).map fun (r, k) => (.result r, k.store)
  | .evaluate =>
      match p.statements with
      | .expr e :: _ => ((Machine.mk s σ).evaluate fuel e).map fun (r, k) => (.result r, k.store)
      | _ => some (.notAnExpression, σ)

/-- Carry out one command.  Copying a name that is not bound binds nothing. -/
def exec (fuel : Nat) (c : Command) (σ : Store) : Option (Reply × Store) :=
  match c with
  | .openScope enclosing =>
      let (s, σ') := σ.openScope enclosing []
      some (.opened s, σ')
  | .define s name v => some (.defined, σ.define s name v)
  | .copy source sourceName target targetName =>
      match σ.get? source sourceName with
      | some v => some (.defined, σ.define target targetName v)
      | none => some (.found none, σ)
  | .get s name => some (.found (σ.get? s name), σ)
  | .same left leftName right rightName =>
      some (.compared (sameFound (σ.get? left leftName) (σ.get? right rightName)), σ)
  | .run mode s p => runProgram fuel mode s p σ

/-- Carry out commands in order. -/
def execAll (fuel : Nat) : List Command → Store → Option (List Reply × Store)
  | [], σ => some ([], σ)
  | c :: cs, σ =>
      match exec fuel c σ with
      | none => none
      | some (r, σ') => (execAll fuel cs σ').map fun (rs, σ'') => (r :: rs, σ'')

/-- The command that runs a source text, unless the text has syntax errors. -/
def Command.ofSource (mode : Mode) (s : ScopeId) (source : String) :
    Except (List SyntaxError) Command :=
  (parse? source).map fun p => .run mode s p

end Session
end MonkeyLang
