/-
# The log of a run

What a run leaves in the log: each token as it is read, each list as it ends,
and the first place where the indentation is wrong. An `Entry` is one such
event; its stage, its level and its wording follow from it.

The two ways of running differ in their order. A lenient run reads a token
only when the builder asks for it, so tokens and lists take turns in the log
and the tokens after the end of the build are not in it. A strict run reads
all tokens before it builds, and builds nothing if a literal is unterminated.

Key definitions: `Log.Entry`, `Log.lenient`, `Log.strict`.
-/
import ParenLint.Verdict
import ParenLint.Text.Layout
import ParenLint.Text.Quoted

namespace ParenLint
namespace Log

/-- How much detail an entry is: a log may keep the debug entries alone, or
the trace entries too. -/
inductive Level
  | debug
  | trace
  deriving DecidableEq

def Level.name : Level → String
  | .debug => "debug"
  | .trace => "trace"

inductive Stage
  | tokens
  | forms
  | indentation
  deriving DecidableEq

inductive Entry
  /-- The literal opened at this column is still open at the end of the
  text. -/
  | literalLeftOpen (column : Nat)
  | token (t : Token)
  | listEnded (size : Nat) (closing : Option Nat)
  /-- The list opened at this column is still open at the end of the build. -/
  | listLeftOpen (column : Nat)
  /-- The `(` at this column opens a list too deep, and ends the build. -/
  | tooDeep (column : Nat)
  | violation (v : Violation)
  deriving DecidableEq

namespace Entry

def stage : Entry → Stage
  | literalLeftOpen _ | token _ => .tokens
  | listEnded _ _ | listLeftOpen _ | tooDeep _ => .forms
  | violation _ => .indentation

/-- Tokens and ends of lists are trace, the rest is debug. -/
def level : Entry → Level
  | token _ | listEnded _ _ => .trace
  | literalLeftOpen _ | listLeftOpen _ | tooDeep _ | violation _ => .debug

end Entry

def violationMessage : Violation → String
  | .notRightOfParent label column parent =>
    let name := quoted label
    s!"{name} at column {column} is not right of its parent at column {parent}"
  | .leftOfFirst column first =>
    s!"child at column {column} is left of the first child at column {first}"
  | .rightOfClosing column closing =>
    s!"child at column {column} is right of the closing parenthesis at column {closing}"

def Entry.message : Entry → String
  | .literalLeftOpen column => s!"string literal at column {column} runs to end of input"
  | .token t =>
    let text := quoted t.text
    s!"token {t.kind.name} {text} before column {t.column}"
  | .listEnded size closing =>
    let place := String.ofList (Layout.ofColumn? closing).inline
    s!"list of {size} children closed at {place}"
  | .listLeftOpen column => s!"list opened at column {column} reached end of input"
  | .tooDeep column => s!"list opened at column {column} exceeds the nesting limit"
  | .violation v => violationMessage v

def atLevel : Level → List Entry → List Entry
  | .debug, entries => entries.filter (·.level = .debug)
  | .trace, entries => entries

/-! ### Entries of the stages -/

/-- What reading one token leaves in the log. -/
def ofLexeme (x : Lexeme) : List Entry :=
  if x.token.kind = .unterminated then [.literalLeftOpen x.start, .token x.token]
  else [.token x.token]

/-- What ending all open lists without a closing column leaves in the log,
from the inside out. -/
def ofUnwind (inner : OpenList) : List OpenList → List Entry
  | [] => [.listEnded inner.children.length none]
  | around :: outer =>
    .listEnded inner.children.length none :: .listLeftOpen inner.column ::
      ofUnwind (around.add (inner.toForm none)) outer

/-- What a build that ends with its tokens leaves in the log. -/
def ofFinish (b : Builder) : List Entry := ofUnwind b.inner b.outer

def ofFeed (b : Builder) (t : Token) : List Entry :=
  match t.kind with
  | .leftParen => if b.depth = maxDepth then .tooDeep t.column :: ofFinish b else []
  | .rightParen => [.listEnded b.inner.children.length (some t.column)]
  | .space | .literal | .unterminated | .atom => []

/-- A build's entries in front of `log`, latest first. Each token comes with
the entries of reading it, which are logged when the build asks for it. -/
def ofRunOnto (log : List Entry) (b : Builder) : List (List Entry × Token) → List Entry
  | [] => (ofFinish b).reverse ++ log
  | (reading, t) :: rest =>
    match b.feed t with
    | .more b' => ofRunOnto ((ofFeed b t).reverse ++ (reading.reverse ++ log)) b' rest
    | .done _ _ => (ofFeed b t).reverse ++ (reading.reverse ++ log)

/-- What a build leaves in the log, with the entries of reading each token
when the build asks for it. -/
def ofRun (tokens : List (List Entry × Token)) : List Entry :=
  (ofRunOnto [] .init tokens).reverse

/-- What checking a form leaves in the log: its first violation, if any. -/
def ofCheck (f : Form) : List Entry := (f.violation? 0).toList.map .violation

/-! ### Entries of whole runs -/

def reading (text : List Char) : List Entry := (scan text).flatMap ofLexeme

/-- Building the forms of a text while reading it. -/
def building (text : List Char) : List Entry :=
  ofRun ((scan text).map fun x => (ofLexeme x, x.token))

/-- Building the forms of a token sequence that has been read. -/
def ofBuild (ts : List Token) : List Entry := ofRun (ts.map fun t => ([], t))

/-- Reading all tokens of a text, and building its forms unless a literal is
unterminated. -/
def parsing (text : List Char) : List Entry :=
  reading text ++
    if (tokenize text).any (·.kind = .unterminated) then [] else ofBuild (tokenize text)

def lenient (text : List Char) : List Entry := building text ++ ofCheck (build (tokenize text))

/-- The strict verdict on a text: the indentation is checked if the text is
well structured. -/
def strict (text : List Char) : List Entry :=
  parsing text ++
    match parse text with
    | .ok root => ofCheck root
    | .error _ => []

end Log
end ParenLint
