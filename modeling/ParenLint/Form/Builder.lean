/-
# Building forms from tokens

A token sequence becomes one list, the root, whose children are the
outermost forms. The builder keeps the lists that are open: the innermost
one, which takes the next form, and the ones around it, out to the root.
A `(` opens a list inside the innermost one, a `)` closes the innermost one,
blanks wait for the next form, and every other token is an atom.

A build ends in one of three ways (`Ending`). At the end of the tokens, and
at a `(` that would be nested deeper than `maxDepth` lists, the open lists
all end without a closing column. A `)` with nothing but the root open closes
the root. The tokens after the one that ends a build are not read; `Built`
keeps them.

Key definitions: `Builder.feed`, `Builder.run`, `Built`, `build`, `maxDepth`.
-/
import ParenLint.Token.Basic
import ParenLint.Form.Basic

namespace ParenLint

/-- How many lists may be open inside the root at once. -/
def maxDepth : Nat := 512

/-- A list whose end has not been read. -/
structure OpenList where
  space : List Char
  column : Nat
  /-- The forms in it so far, latest first. -/
  children : List Form
  deriving DecidableEq

namespace OpenList

/-- The root before the first token: it has no `(`, and counts as opening at
column 0. -/
def root : OpenList := ⟨[], 0, []⟩

def add (l : OpenList) (f : Form) : OpenList := { l with children := f :: l.children }

/-- The list as a form, ended by a `)` at the column `closing` or by none. -/
def toForm (l : OpenList) (closing : Option Nat) : Form :=
  .list l.space l.column l.children.reverse closing

end OpenList

inductive Ending
  | endOfTokens
  /-- A `)` at this column closed the root. -/
  | strayClose (column : Nat)
  /-- A `(` at this column would have opened a list too deep. -/
  | tooDeep (column : Nat)
  deriving DecidableEq

structure Builder where
  /-- The innermost open list. -/
  inner : OpenList
  /-- The open lists around it, from the inside out; the root is the last. -/
  outer : List OpenList
  /-- The blanks read since the last form or parenthesis, latest first. -/
  space : List Char
  deriving DecidableEq

namespace Builder

def init : Builder := ⟨.root, [], []⟩

/-- How many lists are open inside the root. -/
def depth (b : Builder) : Nat := b.outer.length

/-- Ends `inner` and the lists around it without a closing column, from the
inside out, and gives the outermost. -/
def unwind (inner : OpenList) : List OpenList → Form
  | [] => inner.toForm none
  | around :: outer => unwind (around.add (inner.toForm none)) outer

/-- The root if no more is read. -/
def finish (b : Builder) : Form := unwind b.inner b.outer

inductive Fed
  | more (b : Builder)
  | done (root : Form) (ending : Ending)

def feed (b : Builder) (t : Token) : Fed :=
  match t.kind with
  | .space => .more { b with space := t.text.reverse ++ b.space }
  | .leftParen =>
    if b.depth = maxDepth then .done b.finish (.tooDeep t.column)
    else .more ⟨⟨b.space.reverse, t.column, []⟩, b.inner :: b.outer, []⟩
  | .rightParen =>
    match b.outer with
    | [] => .done (b.inner.toForm (some t.column)) (.strayClose t.column)
    | around :: outer => .more ⟨around.add (b.inner.toForm (some t.column)), outer, []⟩
  | .literal | .unterminated | .atom =>
    .more ⟨b.inner.add (.atom b.space.reverse t.column t.text), b.outer, []⟩

end Builder

structure Built where
  root : Form
  ending : Ending
  unread : List Token
  deriving DecidableEq

def Builder.run (b : Builder) : List Token → Built
  | [] => ⟨b.finish, .endOfTokens, []⟩
  | t :: ts =>
    match b.feed t with
    | .more b => b.run ts
    | .done root ending => ⟨root, ending, ts⟩

def Built.ofTokens (ts : List Token) : Built := Builder.init.run ts

/-- The root for a token sequence: the list of its outermost forms, whatever
way the build ends. -/
def build (ts : List Token) : Form := (Built.ofTokens ts).root

end ParenLint
