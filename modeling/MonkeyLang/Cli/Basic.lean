import MonkeyLang.Cli.Request
import MonkeyLang.Repl.Basic
import MonkeyLang.Syntax.Json

/-!
# Cli — what the commands print

Each command reads its source text from a file, prints what it found, and ends with an exit
code: 0 if all is well, 65 for defects of the text, 70 for a failed evaluation, and 1 if the
file or the input cannot be read.  Without a file there is nothing to do.
-/

namespace MonkeyLang
namespace Cli

/-! ## Ends -/

/-- The exit code of the program, and what it printed. -/
structure Exit where
  code : Nat
  stdout : String
  stderr : String
  deriving DecidableEq

/-- A failure of reading or writing, with its cause below it. -/
def broken (context cause : String) : String :=
  "Error: " ++ context ++ "\n\nCaused by:\n    " ++ cause ++ "\n"

/-- The end of a command that was given no file. -/
def noInput : Exit :=
  ⟨0, "No input filepath was provided. Exiting...\n", ""⟩

/-- Texts on lines of their own. -/
def printedLines : List String → String
  | [] => ""
  | s :: ss => s ++ "\n" ++ printedLines ss

/-! ## Files -/

/-- Why the bytes of a file cannot be had. -/
inductive FileError
  | notFound
  deriving DecidableEq

def FileError.message : FileError → String
  | .notFound => "No such file or directory (os error 2)"

/-- Why bytes are no text. -/
def notUtf8Message : String :=
  "stream did not contain valid UTF-8"

/-- A path between quotes. -/
def quotedPath (path : String) : String :=
  "\"" ++ path ++ "\""

/-- The text of a file, or the end that its absence leads to. -/
def sourceOf (path : String) (contents : Except FileError (List UInt8)) : Except Exit String :=
  match contents with
  | .error e => .error ⟨1, "", broken ("Failed to open file " ++ quotedPath path) e.message⟩
  | .ok bytes =>
      match String.fromUTF8? ⟨bytes.toArray⟩ with
      | some source => .ok source
      | none =>
          .error ⟨1, "", broken ("Failed to read file " ++ quotedPath path) notUtf8Message⟩

/-! ## Tokens -/

def tokenToJson (t : Token) : Json :=
  .obj [("token_type", .str t.kind.name), ("literal", .str t.literal)]

/-- List the tokens of a text.  Any character that starts no token makes the command fail,
after the whole list has been printed. -/
def tokenize (json : Bool) (source : String) : Exit :=
  let ts := Token.ofString source
  let listing :=
    if json then (Json.arr (ts.map tokenToJson)).pretty ++ "\n"
    else printedLines (ts.map Token.display)
  ⟨if ts.any fun t => t.kind = .illegal then 65 else 0, listing, ""⟩

/-! ## Programs -/

/-- The end that syntax errors lead to. -/
def rejected (errors : List SyntaxError) : Exit :=
  ⟨65, "", printedLines (errors.map SyntaxError.message)⟩

/-- Show the program that a text is, in its canonical form or as JSON. -/
def parse (json : Bool) (source : String) : Exit :=
  match parse? source with
  | .error errors => rejected errors
  | .ok p => ⟨0, (if json then p.toJson.pretty else p.text) ++ "\n", ""⟩

/-- Show what a text evaluates to. -/
def run (fuel : Nat) (source : String) : Option Exit :=
  match parse? source with
  | .error errors => some (rejected errors)
  | .ok p =>
      (evalFresh fuel p).map fun
        | .ok v => ⟨0, v.text ++ "\n", ""⟩
        | .error e => ⟨70, "", e.message ++ "\n"⟩

/-! ## The interactive loop -/

/-- What is printed before the first prompt. -/
def greeting : String :=
  "This is the Monkey programming language!\nFeel free to type in commands\n"

/-- What the end of the loop adds: an exit code and a message. -/
def loopEnd : Repl.Ending → Nat × String
  | .finished => (0, "")
  | .notUtf8 => (1, broken "REPL I/O failed" notUtf8Message)
  | .writerFailed => (1, broken "REPL I/O failed" "closed")

/-- Run the interactive loop on a whole input. -/
def repl (fuel : Nat) (persist : Bool) (stdin : List UInt8) : Option Exit :=
  (Repl.start fuel persist stdin (Sink.ofRoom none)).map fun (ending, out) =>
    ⟨(loopEnd ending).1, greeting ++ out.text?.getD "", (loopEnd ending).2⟩

/-! ## Requests -/

/-- Carry out a request, given what is in its file and on the standard input.  Nothing if `fuel`
nested steps of evaluation are not enough. -/
def perform (fuel : Nat) (r : Request) (contents : Except FileError (List UInt8))
    (stdin : List UInt8) : Option Exit :=
  let reading (use : String → Option Exit) : Option Exit :=
    match r.file with
    | none => some noInput
    | some path =>
        match sourceOf path contents with
        | .error e => some e
        | .ok source => use source
  match r.command with
  | .tokenize json => reading fun source => some (tokenize json source)
  | .parse json => reading fun source => some (parse json source)
  | .run => reading (run fuel)
  | .repl persist => repl fuel persist stdin

end Cli
end MonkeyLang
