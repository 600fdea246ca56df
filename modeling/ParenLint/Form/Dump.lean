/-
# The dump of a form

A form is dumped one line per form inside it, in source order, each indented
two blanks per list it is in. The line of an atom shows its characters in
quotes, the line of a list the word `list`; then come the column the form
opens at, the column of its closing parenthesis, or a dash if it has none,
and the blanks before the form, in quotes.

Key definitions: `Form.dumpLine`, `Form.dump`.
-/
import ParenLint.Form.Basic
import ParenLint.Text.Decimal
import ParenLint.Text.Quoted

namespace ParenLint
namespace Form

def dumpHead : Form → List Char
  | atom _ _ label => quote label
  | list _ _ _ _ => "list".toList

def dumpClosing : Option Nat → List Char
  | some column => decimal column
  | none => ['-']

/-- The line of a form at depth `depth`, with the line feed that ends it. -/
def dumpLine (depth : Nat) (f : Form) : List Char :=
  List.replicate (2 * depth) ' ' ++ f.dumpHead ++ " indent=".toList ++ decimal f.column ++
    " close=".toList ++ dumpClosing f.closing ++ " space=".toList ++ quote f.space ++ ['\n']

def dump (f : Form) : List Char := f.outline.flatMap fun g => dumpLine g.1 g.2

end Form
end ParenLint
