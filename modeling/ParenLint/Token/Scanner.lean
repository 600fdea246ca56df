/-
# Scanning a text into tokens

The scanner reads a text one character at a time. Its state is the token
that is open, if there is one, the tokens read so far, and two columns: the
running column, of the next character, and the mark, where the last finished
token ended. Reading a character is `Scanner.step`, reading a text is a fold
of it, and `Scanner.finish` ends the token that is open when the text ends.
How columns are computed is an argument of `Scanner.stepWith`; in
`Scanner.step` they are any numbers.

The three rules that need care:

* A comment runs from a semicolon up to, not including, the next line feed.
  It puts the running column back to 0 but leaves the mark alone, and it does
  not end a run of blanks: the run goes on after it.
* In a literal a backslash makes the next character part of the literal,
  whatever it is, and only a bare quote ends it.
* A literal that is still open at the end of the text is a token all the
  same, of the kind `unterminated`.

Key definitions: `Scanner.stepWith`, `Scanner.step`, `Scanner.finish`, `scan`,
`tokenize`.
-/
import ParenLint.Column
import ParenLint.Token.Basic

namespace ParenLint

/-- A token and the running column at its first character. The two columns
differ only if a comment stands between the token and the one before it. -/
structure Lexeme where
  token : Token
  start : Nat
  deriving DecidableEq

/-- What the scanner is in the middle of; in a gap, of a run of blanks or of
no token at all. -/
inductive Scanner.Mode
  | gap
  | comment
  | atom
  | literal
  | escape
  deriving DecidableEq

/-- The scanner between two characters. -/
structure Scanner where
  mode : Scanner.Mode
  column : Nat
  /-- The column at which the last finished token ended. -/
  mark : Nat
  /-- The characters of the open token, latest first; none if no token is
  open. -/
  taken : List Char
  /-- The running column at the first character of the open token. -/
  start : Nat
  /-- The finished tokens, latest first. -/
  done : List Lexeme
  deriving DecidableEq

namespace Scanner

def init : Scanner := ⟨.gap, 0, 0, [], 0, []⟩

/-- Adds `c` to the open token, or opens one with it; `column` is the column
after it. -/
def take (s : Scanner) (mode : Mode) (column : Nat) (c : Char) : Scanner :=
  { s with
    mode := mode
    column := column
    taken := c :: s.taken
    start := if s.taken = [] then s.column else s.start }

/-- Ends the open token, of the kind `kind`: its column is the mark, and the
mark moves to where it ends. -/
def close (s : Scanner) (kind : Token.Kind) : Scanner :=
  { s with
    mode := .gap
    mark := s.column
    taken := []
    done := ⟨⟨kind, s.taken.reverse, s.mark⟩, s.start⟩ :: s.done }

def finish (s : Scanner) : Scanner :=
  match s.mode with
  | .gap | .comment => if s.taken = [] then s else s.close .space
  | .atom => s.close .atom
  | .literal | .escape => s.close .unterminated

/-- Ends the open token unless it is one that `mode` goes on with. -/
def turnTo (s : Scanner) (mode : Mode) : Scanner := if s.mode = mode then s else s.finish

section Step

-- how columns are computed
variable (a : Column.Arithmetic)

/-- Reads `c` outside literals and comments. -/
def stepCode (s : Scanner) (c : Char) : Scanner :=
  if isBlank c then (s.turnTo .gap).take .gap (a.advance s.column c) c
  else if c = ';' then { s.turnTo .gap with mode := .comment, column := 0 }
  else if c = '(' then (s.finish.take .gap (a.advance s.column c) c).close .leftParen
  else if c = ')' then (s.finish.take .gap (a.advance s.column c) c).close .rightParen
  else if c = '"' then s.finish.take .literal (a.advanceInLiteral s.column c) c
  else (s.turnTo .atom).take .atom (a.advance s.column c) c

/-- Reads `c` in a literal, not right after a backslash. -/
def stepLiteral (s : Scanner) (c : Char) : Scanner :=
  if c = '"' then (s.take .literal (a.advanceInLiteral s.column c) c).close .literal
  else if c = '\\' then s.take .escape (a.advanceInLiteral s.column c) c
  else s.take .literal (a.advanceInLiteral s.column c) c

/-- Reads the character `c`. -/
def stepWith (s : Scanner) (c : Char) : Scanner :=
  match s.mode with
  | .gap | .atom => s.stepCode a c
  | .comment => if c = '\n' then s.take .gap (a.advance s.column c) c else s
  | .literal => s.stepLiteral a c
  | .escape => s.take .literal (a.advanceInLiteral s.column c) c

end Step

def step (s : Scanner) (c : Char) : Scanner := s.stepWith Column.exact c

def run (s : Scanner) (cs : List Char) : Scanner := cs.foldl step s

@[simp] theorem run_nil (s : Scanner) : s.run [] = s := rfl

@[simp] theorem run_cons (s : Scanner) (c : Char) (cs : List Char) :
    s.run (c :: cs) = (s.step c).run cs := rfl

/-- Reading is compositional: what has been read matters only through the
state it leaves. -/
theorem run_append (s : Scanner) (cs ds : List Char) : s.run (cs ++ ds) = (s.run cs).run ds := by
  simp [run]

end Scanner

/-- The tokens of a text, each with the running column at its start. -/
def scan (text : List Char) : List Lexeme := (Scanner.init.run text).finish.done.reverse

def tokenize (text : List Char) : List Token := (scan text).map Lexeme.token

end ParenLint
