/-
# Tokens, forms and verdicts in full

Everything a token, a form or a verdict holds, as a layout to be written on
one line or over several.

Key definitions: `Token.describe`, `Form.describe`, `Verdict.describe`.
-/
import ParenLint.Verdict
import ParenLint.Text.Layout
import ParenLint.Text.Decimal
import ParenLint.Text.Quoted

namespace ParenLint

def Token.describe (t : Token) : Layout :=
  .record "Token"
    [("kind", .word t.kind.name.toList),
     ("text", .word (quote t.text)),
     ("indent_before", .word (decimal t.column))]

def Token.describeAll (ts : List Token) : Layout := .sequence (ts.map Token.describe)

namespace Form

def describeNode (column : Nat) (space : List Char) (kind : Layout) : Layout :=
  .record "Node"
    [("indent", .word (decimal column)),
     ("leading_space", .word (quote space)),
     ("kind", kind)]

mutual

def describe : Form → Layout
  | atom space column label => describeNode column space (.applied "Atom" [.word (quote label)])
  | list space column children closing =>
    describeNode column space
      (.record "List"
        [("children", .sequence (describeAll children)),
         ("close_indent", .ofColumn? closing)])

def describeAll : List Form → List Layout
  | [] => []
  | f :: fs => describe f :: describeAll fs

end

end Form

def StructureError.describe (e : StructureError) : Layout :=
  .record e.name [("indent", .word (decimal e.column))]

def Verdict.describe : Except StructureError Bool → Layout
  | .ok true => .applied "Ok" [.word "true".toList]
  | .ok false => .applied "Ok" [.word "false".toList]
  | .error e => .applied "Err" [e.describe]

end ParenLint
