import MonkeyLang.Eval.Fuel
import MonkeyLang.Main
import MonkeyLang.Proofs.Cli.Listing
import MonkeyLang.Proofs.Eval.Arithmetic
import MonkeyLang.Proofs.Eval.EarlyExit
import MonkeyLang.Proofs.Eval.InTurn
import MonkeyLang.Proofs.Eval.Kept
import MonkeyLang.Proofs.Eval.Locality
import MonkeyLang.Proofs.Eval.Repetition
import MonkeyLang.Proofs.Eval.Unread
import MonkeyLang.Proofs.Eval.WellScoped
import MonkeyLang.Proofs.Grammar.Canonical
import MonkeyLang.Proofs.Grammar.Closing
import MonkeyLang.Proofs.Grammar.Concatenation
import MonkeyLang.Proofs.Grammar.Leaves
import MonkeyLang.Proofs.Grammar.Order
import MonkeyLang.Proofs.Grammar.Reports
import MonkeyLang.Proofs.Grammar.Seam
import MonkeyLang.Proofs.Grammar.Soundness
import MonkeyLang.Proofs.Grammar.Trials
import MonkeyLang.Proofs.Json.Trees
import MonkeyLang.Proofs.Repl.Joined
import MonkeyLang.Proofs.Repl.Lines
import MonkeyLang.Proofs.Session.Sound
import MonkeyLang.Proofs.Token.Boundary
import MonkeyLang.Proofs.Token.Interleaving
import MonkeyLang.Proofs.Token.Juncture
import MonkeyLang.Session.Basic
import MonkeyLang.Syntax.Equality
import MonkeyLang.Syntax.Leading
import MonkeyLang.Token.Lexer
import MonkeyLang.Proofs.Eval.Numerals
import MonkeyLang.Proofs.Eval.Opened
import MonkeyLang.Proofs.Eval.Regrouping
import MonkeyLang.Proofs.Session.Ledger
import MonkeyLang.Proofs.Eval.Makings
import MonkeyLang.Proofs.Session.Origin
