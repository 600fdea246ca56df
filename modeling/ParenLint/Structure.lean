/-
# Well-structured texts

A text is well structured if every string literal in it is terminated, every
parenthesis has its partner and no list is nested too deep. `parse` gives the
forms of such a text and says of any other what is wrong with it. Of several
faults it reports one: an unterminated literal before all others, then the
fault that ends the build, and last the outermost list that is still open.

Key definitions: `StructureError`, `Form.firstOpen?`, `parse`.
-/
import ParenLint.Token.Scanner
import ParenLint.Form.Builder

namespace ParenLint

/-- What is wrong with the structure of a text, and at which column. -/
inductive StructureError
  | unterminatedLiteral (column : Nat)
  | unclosedList (column : Nat)
  | strayClose (column : Nat)
  | tooDeep (column : Nat)
  deriving DecidableEq

namespace StructureError

def column : StructureError → Nat
  | unterminatedLiteral column | unclosedList column | strayClose column | tooDeep column => column

def name : StructureError → String
  | unterminatedLiteral _ => "UnterminatedStringLiteral"
  | unclosedList _ => "UnclosedList"
  | strayClose _ => "UnexpectedClose"
  | tooDeep _ => "TooDeep"

def message : StructureError → String
  | unterminatedLiteral column => s!"string literal at column {column} runs to end of input"
  | unclosedList column => s!"list opened at column {column} is never closed"
  | strayClose column => s!"unexpected `)` at column {column}"
  | tooDeep column =>
    s!"list opened at column {column} is nested deeper than {maxDepth} levels"

end StructureError

namespace Form

mutual

/-- The first list without a closing parenthesis, a list before the forms in
it. -/
def firstOpen? : Form → Option Form
  | atom _ _ _ => none
  | list space column children closing =>
    match closing with
    | none => some (list space column children closing)
    | some _ => firstOpenAmong? children

def firstOpenAmong? : List Form → Option Form
  | [] => none
  | f :: fs =>
    match firstOpen? f with
    | some g => some g
    | none => firstOpenAmong? fs

end

end Form

/-- What is wrong with a build, if anything: the fault that ended it, or the
first list in the root that is still open. -/
def Built.fault? (b : Built) : Option StructureError :=
  match b.ending with
  | .tooDeep column => some (.tooDeep column)
  | .strayClose column => some (.strayClose column)
  | .endOfTokens => (Form.firstOpenAmong? b.root.children).map fun f => .unclosedList f.column

def fault? (ts : List Token) : Option StructureError :=
  match ts.find? (·.kind = .unterminated) with
  | some t => some (.unterminatedLiteral t.column)
  | none => (Built.ofTokens ts).fault?

/-- The forms of a well-structured text, as the children of a list. -/
def parse (text : List Char) : Except StructureError Form :=
  match fault? (tokenize text) with
  | some e => .error e
  | none => .ok (build (tokenize text))

end ParenLint
