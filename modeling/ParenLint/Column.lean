/-
# Columns

The column of a place in a text is counted in characters from the start of
its line. A tab runs to the next tab stop, of which there is one every
`tabWidth` columns, and a line feed goes back to column 0. Inside a string
literal a line feed counts as one column like any other character, so the
column of what follows a literal counts the literal as if it were all on one
line.

Key definitions: `Column.advance`, `Column.advanceInLiteral`,
`Column.Arithmetic`, `Column.trail`.
Key theorem: `Column.nextStop_le_iff`.
-/

namespace ParenLint
namespace Column

/-- The distance between two tab stops. -/
def tabWidth : Nat := 8

/-- The first tab stop right of `column`; a tab at a tab stop moves a whole
tab width. -/
def nextStop (column : Nat) : Nat := (column / tabWidth + 1) * tabWidth

def advance (column : Nat) (c : Char) : Nat :=
  if c = '\n' then 0
  else if c = '\t' then nextStop column
  else column + 1

/-- The column after the character `c` of a string literal: a line feed does
not go back to column 0. -/
def advanceInLiteral (column : Nat) (c : Char) : Nat :=
  if c = '\t' then nextStop column else column + 1

theorem lt_nextStop (column : Nat) : column < nextStop column := by
  simp only [nextStop, tabWidth]; omega

theorem nextStop_le (column : Nat) : nextStop column ≤ column + tabWidth := by
  simp only [nextStop, tabWidth]; omega

theorem dvd_nextStop (column : Nat) : tabWidth ∣ nextStop column := Nat.dvd_mul_left _ _

/-- The next tab stop is the least multiple of the tab width right of
`column`. -/
theorem nextStop_le_iff {column stop : Nat} (h : tabWidth ∣ stop) :
    nextStop column ≤ stop ↔ column < stop := by
  obtain ⟨n, rfl⟩ := h
  simp only [nextStop, tabWidth]
  omega

/-- A way to compute columns. -/
structure Arithmetic where
  advance : Nat → Char → Nat
  advanceInLiteral : Nat → Char → Nat

/-- Columns are any numbers. -/
def exact : Arithmetic := ⟨advance, advanceInLiteral⟩

@[simp] theorem exact_advance : exact.advance = advance := rfl

@[simp] theorem exact_advanceInLiteral : exact.advanceInLiteral = advanceInLiteral := rfl

/-- Reading `cs` from `column`, the column after each character in turn, put
in front of `seen`, latest first. -/
def trailOnto (seen : List Nat) (column : Nat) : List Char → List Nat
  | [] => seen
  | c :: cs => trailOnto (advance column c :: seen) (advance column c) cs

def trail (column : Nat) (cs : List Char) : List Nat := (trailOnto [] column cs).reverse

theorem trailOnto_eq : ∀ (cs : List Char) (seen : List Nat) (column : Nat),
    trailOnto seen column cs = trailOnto [] column cs ++ seen
  | [], _, _ => rfl
  | c :: cs, seen, column => by
    rw [trailOnto, trailOnto, trailOnto_eq cs (_ :: seen), trailOnto_eq cs [_]]
    simp

@[simp] theorem trail_nil (column : Nat) : trail column [] = [] := rfl

@[simp] theorem trail_cons (column : Nat) (c : Char) (cs : List Char) :
    trail column (c :: cs) = advance column c :: trail (advance column c) cs := by
  rw [trail, trailOnto, trailOnto_eq]
  simp [trail]

end Column
end ParenLint
