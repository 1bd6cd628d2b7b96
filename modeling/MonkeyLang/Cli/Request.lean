/-!
# Request — what the command line asks for

A request is a command with its options, and the path of a file for the commands that read one.
`Request.ofArgs?` reads a request from the arguments of the program; options may stand before or
behind the path.
-/

namespace MonkeyLang
namespace Cli

inductive Command
  | tokenize (json : Bool)
  | parse (json : Bool)
  | run
  | repl (persist : Bool)
  deriving DecidableEq

structure Request where
  command : Command
  file : Option String
  deriving DecidableEq

/-- Whether the option is among the arguments, and the path among them.  Nothing if an argument
is given twice, or is an option of another kind. -/
def scanArgs? (option : Option String) : List String → Option (Bool × Option String)
  | [] => some (false, none)
  | arg :: args =>
      match scanArgs? option args with
      | none => none
      | some (given, file) =>
          if some arg = option then
            if given then none else some (true, file)
          else if arg.startsWith "-" then none
          else
            match file with
            | none => some (given, some arg)
            | some _ => none

/-- The request that the arguments make, if they make one. -/
def Request.ofArgs? : List String → Option Request
  | "tokenize" :: args =>
      (scanArgs? (some "--json") args).map fun (json, file) => ⟨.tokenize json, file⟩
  | "parse" :: args =>
      (scanArgs? (some "--json") args).map fun (json, file) => ⟨.parse json, file⟩
  | "run" :: args => (scanArgs? none args).map fun (_, file) => ⟨.run, file⟩
  | "repl" :: args =>
      match scanArgs? (some "--persist") args with
      | some (persist, none) => some ⟨.repl persist, none⟩
      | _ => none
  | _ => none

end Cli
end MonkeyLang
