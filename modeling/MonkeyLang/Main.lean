import MonkeyLang.Cli.Basic

/-!
# Main — the program

The outer layer of the command line: it reads files and the standard input, prints, and leaves
every decision to `MonkeyLang.Cli` and `MonkeyLang.Repl`.
-/

namespace MonkeyLang

/-- The bytes of one line of the standard input, its line feed included. -/
partial def readLine (stdin : IO.FS.Stream) (line : List UInt8) : IO (List UInt8) := do
  let bytes ← stdin.read 1
  match bytes.toList with
  | [] => pure line.reverse
  | b :: _ => if b = 10 then pure (b :: line).reverse else readLine stdin (b :: line)

/-- The interactive loop on the standard input, a line at a time. -/
partial def interact (stdin stdout : IO.FS.Stream) (st : Repl.State) : IO Repl.Ending := do
  stdout.putStr Repl.prompt
  stdout.flush
  let line ← readLine stdin []
  if line.isEmpty then pure .finished
  else
    match Repl.turn ampleFuel st line with
    | some (.answer text next) => do
        stdout.putStr text
        interact stdin stdout next
    | some .notUtf8 => pure .notUtf8
    | _ => pure .finished

/-- The bytes of the file that a request names. -/
def fileContents (r : Cli.Request) : IO (Except Cli.FileError (List UInt8)) := do
  match r.file with
  | none => pure (.error .notFound)
  | some path =>
      try
        let bytes ← IO.FS.readBinFile path
        pure (.ok bytes.toList)
      catch
        | .noFileOrDirectory _ _ _ => pure (.error .notFound)
        | e => throw e

/-- How the program is called. -/
def usage : String :=
  "Usage: monkey <tokenize [--json] | parse [--json] | run | repl [--persist]> [FILE]\n"

end MonkeyLang

open MonkeyLang in
def main (args : List String) : IO UInt32 := do
  let stdout ← IO.getStdout
  let stderr ← IO.getStderr
  match Cli.Request.ofArgs? args with
  | none =>
      stderr.putStr usage
      pure 2
  | some ⟨.repl persist, _⟩ =>
      stdout.putStr Cli.greeting
      let ending ← interact (← IO.getStdin) stdout (Repl.State.start persist)
      let (code, message) := Cli.loopEnd ending
      stderr.putStr message
      pure code.toUInt32
  | some r =>
      match Cli.perform ampleFuel r (← fileContents r) [] with
      | none => pure 70
      | some exit =>
          stdout.putStr exit.stdout
          stderr.putStr exit.stderr
          pure exit.code.toUInt32
