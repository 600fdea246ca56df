/-
# Tokens

A text falls into parentheses, string literals, runs of blanks and atoms;
comments belong to no token. A token carries the characters it was read from
and a column: the one at which the token before it ended, 0 for the first.
Between two tokens there is nothing but comments, so for a token that no
comment precedes this is the column of its first character.

Key definitions: `Token`, `Token.Kind`, `isBlank`, `isAtomChar`.
-/

namespace ParenLint

/-- The characters that separate forms: space, tab, line feed and carriage
return. -/
def isBlank (c : Char) : Bool := c == ' ' || c == '\t' || c == '\n' || c == '\r'

/-- The characters atoms are made of: all but parentheses, blanks, the quote
that opens a literal and the semicolon that opens a comment. -/
def isAtomChar (c : Char) : Bool := !(c == '(' || c == ')' || c == '"' || c == ';' || isBlank c)

/-- What a token is. A literal is `unterminated` if the text ends before its
closing quote. -/
inductive Token.Kind
  | leftParen
  | rightParen
  | literal
  | unterminated
  | space
  | atom
  deriving DecidableEq

def Token.Kind.name : Token.Kind → String
  | .leftParen => "LeftParenthesis"
  | .rightParen => "RightParenthesis"
  | .literal => "StringLiteral"
  | .unterminated => "UnterminatedStringLiteral"
  | .space => "Whitespace"
  | .atom => "Atom"

/-- A piece of a text and the column at which the piece before it ended. -/
structure Token where
  kind : Token.Kind
  /-- Its characters, quotes and escapes included; a run of blanks has the
  blanks only, not the comments it contains. -/
  text : List Char
  /-- The column at which the token before it ended. -/
  column : Nat
  deriving DecidableEq

end ParenLint
