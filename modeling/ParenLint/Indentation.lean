/-
# Indentation rules

Indentation agrees with nesting if three rules hold of every list:

* an atom in it stands right of the column the list opens at;
* no form in it stands left of the first one;
* no form in it stands right of its closing parenthesis, if it has one.

The first rule asks nothing of a list inside a list; the column a list opens
at matters to the forms in it. A form that is checked by itself is given the
column of a form it is meant to be in, which matters only if it is an atom.

`Form.violation?` finds the first place where a rule is broken, in source
order, a form before the forms after it.

Key definitions: `Violation`, `Form.violation?`, `Form.isIndentedUnder`.
-/
import ParenLint.Form.Basic

namespace ParenLint

/-- A broken rule, with the columns that break it. -/
inductive Violation
  | notRightOfParent (label : List Char) (column parent : Nat)
  | leftOfFirst (column first : Nat)
  | rightOfClosing (column closing : Nat)
  deriving DecidableEq

/-- Which of the bounds of its list a form at `column` breaks: that of the
first form, or that of the closing parenthesis. -/
def boundViolation? (first : Nat) (closing : Option Nat) (column : Nat) : Option Violation :=
  if column < first then some (.leftOfFirst column first)
  else
    match closing with
    | some k => if k < column then some (.rightOfClosing column k) else none
    | none => none

namespace Form

mutual

/-- The first violation in a form that stands in a form at the column
`parent`. -/
def violation? (parent : Nat) : Form → Option Violation
  | atom _ column label =>
    if column ≤ parent then some (.notRightOfParent label column parent) else none
  | list _ column children closing =>
    match children with
    | [] => none
    | f :: fs => childViolation? column f.column closing (f :: fs)

/-- The first violation among the forms of a list that opens at `parent`, has
its first form at `first` and is closed at `closing`. -/
def childViolation? (parent first : Nat) (closing : Option Nat) : List Form → Option Violation
  | [] => none
  | f :: fs =>
    match violation? parent f with
    | some v => some v
    | none =>
      match boundViolation? first closing f.column with
      | some v => some v
      | none => childViolation? parent first closing fs

end

/-- Whether all indentation in the form agrees with its nesting, the form
itself standing in a form at the column `parent`. -/
def isIndentedUnder (parent : Nat) (f : Form) : Bool := (f.violation? parent).isNone

/-- Whether all indentation in the form agrees with its nesting, the form
itself standing in a form at column 0. -/
def isIndented (f : Form) : Bool := f.isIndentedUnder 0

end Form
end ParenLint
