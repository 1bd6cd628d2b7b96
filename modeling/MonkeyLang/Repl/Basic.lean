import MonkeyLang.Eval.Program
import MonkeyLang.Repl.Sink

/-!
# Repl — the interactive loop

The loop writes a prompt, reads a line, and answers it: with the value of the line, with the
error that its evaluation failed with, or with its syntax errors under a banner.  It ends at the
end of the input, at a line that is empty once the line breaks at its end are gone, at a line
that is no UTF-8, and as soon as its writer fails.

A persistent loop evaluates all lines in one scope; otherwise every line has a scope of its own.
-/

namespace MonkeyLang
namespace Repl

/-! ## Texts -/

def prompt : String :=
  ">> "

/-- The picture above a list of syntax errors. -/
def monkeyFace : String :=
  "            __,__\n" ++
  "   .--.  .-\"     \"-.  .--.\n" ++
  "  / .. \\/  .-. .-.  \\/ .. \\\n" ++
  " | |  '|  /   Y   \\  |'  | |\n" ++
  " | \\   \\  \\ 0 | 0 /  /   / |\n" ++
  "  \\ '- ,\\.-\"\"\"\"\"\"\"-./, -' /\n" ++
  "   ''-' /_   ^ ^   _\\ '-''\n" ++
  "       |  \\._   _./  |\n" ++
  "       \\   \\ '~' /   /\n" ++
  "        '._ '-=-' _.'\n" ++
  "           '-----'\n"

/-- One line for every error, behind a tab. -/
def errorLines : List SyntaxError → String
  | [] => ""
  | e :: es => "\t" ++ e.message ++ "\n" ++ errorLines es

def parseAnswer (errors : List SyntaxError) : String :=
  monkeyFace ++ "Woops! We ran into some monkey business here!\n" ++ " parser errors:\n"
    ++ errorLines errors

def resultAnswer : Except EvalError Value → String
  | .ok v => v.text ++ "\n"
  | .error e => "ERROR: " ++ e.message ++ "\n"

/-! ## Lines -/

/-- Whether a character is one of those that break lines. -/
def isLineBreak (c : Char) : Bool :=
  c = '\n' || c = '\r'

/-- A line without the line feeds and carriage returns at its end. -/
def trimmed (line : String) : String :=
  String.ofList (line.toList.reverse.dropWhile isLineBreak).reverse

/-- The lines of an input, each with the line feed that ends it; the last may have none. -/
def lines : List UInt8 → List (List UInt8)
  | [] => []
  | b :: bs =>
      if b = 10 then [b] :: lines bs
      else
        match lines bs with
        | [] => [[b]]
        | l :: ls => (b :: l) :: ls

/-! ## One line -/

/-- What the loop keeps between lines: whether it is persistent, and the store and scope of a
persistent loop. -/
structure State where
  persist : Bool
  store : Store
  scope : ScopeId

def State.start (persist : Bool) : State :=
  let (s, σ) := Store.fresh
  ⟨persist, σ, s⟩

/-- What a line leads to. -/
inductive Turn
  | answer (text : String) (next : State)
  | stop
  | notUtf8

/-- Answer a line that has been trimmed and is not empty. -/
def answer (fuel : Nat) (st : State) (source : String) : Option Turn :=
  match parse? source with
  | .error errors => some (.answer (parseAnswer errors) st)
  | .ok p =>
      if st.persist then
        (eval fuel p st.scope st.store).map fun (r, σ) =>
          .answer (resultAnswer r) { st with store := σ }
      else
        (evalFresh fuel p).map fun r => .answer (resultAnswer r) st

/-- Take one line, as the bytes that were read. -/
def turn (fuel : Nat) (st : State) (line : List UInt8) : Option Turn :=
  match String.fromUTF8? ⟨line.toArray⟩ with
  | none => some .notUtf8
  | some text =>
      let source := trimmed text
      if source.isEmpty then some .stop else answer fuel st source

/-! ## The loop -/

/-- How a loop ends. -/
inductive Ending
  | finished
  | notUtf8
  | writerFailed
  deriving DecidableEq

/-- Take lines one after the other, writing a prompt before each and an answer behind it.  At
the end of the lines a last prompt stands. -/
def converse (fuel : Nat) (st : State) (ls : List (List UInt8)) (out : Sink) :
    Option (Ending × Sink) :=
  match out.writeText prompt with
  | (false, out) => some (.writerFailed, out)
  | (true, out) =>
      match ls with
      | [] => some (.finished, out)
      | l :: ls =>
          match turn fuel st l with
          | none => none
          | some .stop => some (.finished, out)
          | some .notUtf8 => some (.notUtf8, out)
          | some (.answer text next) =>
              match out.writeText text with
              | (false, out) => some (.writerFailed, out)
              | (true, out) => converse fuel next ls out

/-- Run the loop on an input. -/
def start (fuel : Nat) (persist : Bool) (input : List UInt8) (out : Sink) :
    Option (Ending × Sink) :=
  converse fuel (State.start persist) (lines input) out

end Repl
end MonkeyLang
