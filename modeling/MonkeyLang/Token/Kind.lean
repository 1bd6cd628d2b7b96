/-!
# Kind — the closed set of token kinds

Every token has one of these kinds.  Punctuation, operators and keywords are their own kinds;
names, numbers and stray characters share one kind each, and the text that tells them apart is
kept in the token.
-/

namespace MonkeyLang

/-- What a token is. -/
inductive Kind
  | illegal
  | eof
  | int
  | ident
  | comma
  | semicolon
  | lparen
  | rparen
  | lbrace
  | rbrace
  | assign
  | plus
  | minus
  | bang
  | asterisk
  | slash
  | backslash
  | eq
  | notEq
  | lt
  | gt
  | ltEq
  | gtEq
  | fnWord
  | letWord
  | returnWord
  | trueWord
  | falseWord
  | ifWord
  | elseWord
  deriving DecidableEq

namespace Kind

/-! ## Names -/

/-- The name of a kind, as token listings give it. -/
def name : Kind → String
  | illegal => "ILLEGAL"
  | eof => "EOF"
  | int => "INT"
  | ident => "IDENT"
  | comma => "COMMA"
  | semicolon => "SEMICOLON"
  | lparen => "LPAREN"
  | rparen => "RPAREN"
  | lbrace => "LBRACE"
  | rbrace => "RBRACE"
  | assign => "ASSIGN"
  | plus => "PLUS"
  | minus => "MINUS"
  | bang => "BANG"
  | asterisk => "ASTERISK"
  | slash => "SLASH"
  | backslash => "BACKSLASH"
  | eq => "EQ"
  | notEq => "NOT_EQ"
  | lt => "LT"
  | gt => "GT"
  | ltEq => "LT_EQ"
  | gtEq => "GT_EQ"
  | fnWord => "FUNCTION"
  | letWord => "LET"
  | returnWord => "RETURN"
  | trueWord => "TRUE"
  | falseWord => "FALSE"
  | ifWord => "IF"
  | elseWord => "ELSE"

/-- The text of a kind in diagnostics: the symbol itself for punctuation and operators, the
name for every other kind. -/
def symbol : Kind → String
  | comma => ","
  | semicolon => ";"
  | lparen => "("
  | rparen => ")"
  | lbrace => "\x7b"
  | rbrace => "\x7d"
  | assign => "="
  | plus => "+"
  | minus => "-"
  | bang => "!"
  | asterisk => "*"
  | slash => "/"
  | backslash => "\\"
  | eq => "=="
  | notEq => "!="
  | lt => "<"
  | gt => ">"
  | ltEq => "<="
  | gtEq => ">="
  | k => k.name

/-! ## Words -/

/-- The reserved words and their kinds. -/
def keywords : List (String × Kind) :=
  [("fn", fnWord), ("let", letWord), ("true", trueWord), ("false", falseWord),
    ("if", ifWord), ("else", elseWord), ("return", returnWord)]

/-- The kind of a word: its own kind if it is reserved, and otherwise a name.  The match is
exact, so case and surrounding blanks count. -/
def ofWord (word : String) : Kind :=
  (keywords.lookup word).getD ident

/-- The name of a kind tells it apart from every other kind. -/
theorem name_injective {k l : Kind} (h : k.name = l.name) : k = l := by
  revert h
  cases k <;> cases l <;> decide

end Kind
end MonkeyLang
