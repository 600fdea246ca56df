/-
# Structured values in writing

A value made of parts is written with its parts between an opening and a
closing word, as in `Point(1, 2)`, `[1, 2]` or a record with a label before
each part. A layout is such a value before it is decided how many lines it
takes. `Layout.inline` puts it on one, the parts separated by commas;
`Layout.spread` gives every part lines of its own, indented below the opening
word and ended by a comma, and leaves a value without parts on one.

Key definitions: `Layout`, `Layout.inline`, `Layout.spread`.
-/
import ParenLint.Text.Decimal

namespace ParenLint

/-- A value in writing. -/
inductive Layout
  /-- A text that is written as it is. -/
  | word (text : List Char)
  | field (label : List Char) (value : Layout)
  /-- Parts between an opening and a closing word; on one line, blanks keep
  the parts of a `padded` group off these words. -/
  | group (opening closing : List Char) (padded : Bool) (parts : List Layout)

namespace Layout

def record (name : String) (fields : List (String × Layout)) : Layout :=
  group (name.toList ++ [' ', '\x7b']) ['\x7d'] true (fields.map fun f => field f.1.toList f.2)

def applied (name : String) (parts : List Layout) : Layout :=
  group (name.toList ++ ['(']) [')'] false parts

def sequence (parts : List Layout) : Layout := group ['['] [']'] false parts

def ofColumn? : Option Nat → Layout
  | some column => applied "Some" [word (decimal column)]
  | none => word "None".toList

/-! ### On one line -/

mutual

/-- The layout on one line, followed by `rest`. -/
def inlineThen (rest : List Char) : Layout → List Char
  | word text => text ++ rest
  | field label value => label ++ ':' :: ' ' :: inlineThen rest value
  | group opening closing padded parts =>
    opening ++ inlineAllThen (if padded then [' '] else [])
      ((if padded then [' '] else []) ++ closing ++ rest) parts

/-- The parts on one line, `before` in front of the first and a comma in
front of the others, followed by `rest`. -/
def inlineAllThen (before rest : List Char) : List Layout → List Char
  | [] => rest
  | part :: parts => before ++ inlineThen (inlineAllThen [',', ' '] rest parts) part

end

def inline (l : Layout) : List Char := inlineThen [] l

/-! ### Over several lines -/

/-- The blanks at the start of a line inside `level` groups. -/
def margin (level : Nat) : List Char := List.replicate (4 * level) ' '

mutual

/-- The layout inside `level` groups over several lines, from its first word
on, followed by `rest`. -/
def spreadThen (level : Nat) (rest : List Char) : Layout → List Char
  | word text => text ++ rest
  | field label value => label ++ ':' :: ' ' :: spreadThen level rest value
  | group opening closing _ parts =>
    if parts.isEmpty then opening ++ closing ++ rest
    else opening ++ '\n' :: spreadAllThen (level + 1) (margin level ++ closing ++ rest) parts

/-- The parts of the innermost of `level` groups, each on its own lines,
followed by `rest`. -/
def spreadAllThen (level : Nat) (rest : List Char) : List Layout → List Char
  | [] => rest
  | part :: parts =>
    margin level ++ spreadThen level (',' :: '\n' :: spreadAllThen level rest parts) part

end

def spread (l : Layout) : List Char := spreadThen 0 [] l

end Layout
end ParenLint
