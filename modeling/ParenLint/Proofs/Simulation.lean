/-
# Scanners that read side by side

To the scanner a character is one of nine that it tells apart, or any other
one. A map of characters that keeps these nine as they are, and makes none of
the others one of them (`KeepsClasses`), keeps all that a step looks at.

So two scanners in the same mode at the same running column, the second of
which reads `f c` where the first one reads `c`, do the same: they add the
character to the open token, end that token, or begin a comment. A relation
between scanners that is kept by each of these (`Scanner.Simulation`) is then
kept by whole texts (`Scanner.Simulation.run`).

Key definitions: `significant`, `KeepsClasses`, `Scanner.Simulation`.
Key theorems: `KeepsClasses.eq_iff`, `Scanner.Simulation.step`,
`Scanner.Simulation.run`.
-/
import ParenLint.Proofs.Scanning
import Mathlib.Tactic.SplitIfs

namespace ParenLint

/-! ### Classes of characters -/

/-- The characters that the scanner tells apart. -/
def significant : List Char := ['(', ')', '"', ';', '\\', ' ', '\t', '\n', '\r']

structure KeepsClasses (f : Char → Char) : Prop where
  fixed : ∀ c ∈ significant, f c = c
  other : ∀ c, c ∉ significant → f c ∉ significant

variable {f : Char → Char}

theorem keepsClasses_id : KeepsClasses id where
  fixed := fun _ _ => rfl
  other := fun _ hc => hc

namespace KeepsClasses

/-- Only a significant character itself is mapped to it. -/
theorem eq_iff (h : KeepsClasses f) {d : Char} (hd : d ∈ significant) (c : Char) :
    f c = d ↔ c = d := by
  constructor
  · intro hc
    by_cases hs : c ∈ significant
    · rw [← h.fixed c hs, hc]
    · exact absurd (hc ▸ hd) (h.other c hs)
  · rintro rfl
    exact h.fixed c hd

theorem isBlank (h : KeepsClasses f) (c : Char) : isBlank (f c) = isBlank c := by
  rw [Bool.eq_iff_iff, isBlank_iff, isBlank_iff, h.eq_iff (by decide), h.eq_iff (by decide),
    h.eq_iff (by decide), h.eq_iff (by decide)]

theorem advance (h : KeepsClasses f) (i : Nat) (c : Char) :
    Column.advance i (f c) = Column.advance i c := by
  unfold Column.advance
  rw [if_congr (h.eq_iff (by decide) c) rfl rfl, if_congr (h.eq_iff (by decide) c) rfl rfl]

theorem advanceInLiteral (h : KeepsClasses f) (i : Nat) (c : Char) :
    Column.advanceInLiteral i (f c) = Column.advanceInLiteral i c := by
  unfold Column.advanceInLiteral
  rw [if_congr (h.eq_iff (by decide) c) rfl rfl]

end KeepsClasses

/-! ### Scanners -/

namespace Scanner

/-- The relation `R` is kept by all that a step does, if the second scanner
reads `f c` where the first one reads `c`. -/
structure Simulation (f : Char → Char) (R : Scanner → Scanner → Prop) : Prop where
  mode {s u : Scanner} : R s u → u.mode = s.mode
  column {s u : Scanner} : R s u → u.column = s.column
  idle {s u : Scanner} : R s u → (u.taken = [] ↔ s.taken = [])
  take {s u : Scanner} : R s u → ∀ (mode : Mode) (i : Nat) (c : Char),
    R (s.take mode i c) (u.take mode i (f c))
  close {s u : Scanner} : R s u → ∀ kind : Token.Kind, R (s.close kind) (u.close kind)
  comment {s u : Scanner} : R s u →
    R { s with mode := .comment, column := 0 } { u with mode := .comment, column := 0 }

namespace Simulation

variable {R : Scanner → Scanner → Prop} {s u : Scanner}

theorem finish (h : Simulation f R) (hr : R s u) : R s.finish u.finish := by
  rw [finish_eq s, finish_eq u, h.mode hr, if_congr (and_congr_right fun _ => h.idle hr) rfl rfl]
  split_ifs
  · exact hr
  · exact h.close hr _

theorem turnTo (h : Simulation f R) (hr : R s u) (mode : Mode) :
    R (s.turnTo mode) (u.turnTo mode) := by
  unfold Scanner.turnTo
  rw [h.mode hr]
  split_ifs
  · exact hr
  · exact h.finish hr

theorem stepCode (h : Simulation f R) (hf : KeepsClasses f) (hr : R s u) (c : Char) :
    R (s.stepCode Column.exact c) (u.stepCode Column.exact (f c)) := by
  have hs := hf.eq_iff (show ';' ∈ significant by decide) c
  have hl := hf.eq_iff (show '(' ∈ significant by decide) c
  have hright := hf.eq_iff (show ')' ∈ significant by decide) c
  have hq := hf.eq_iff (show '"' ∈ significant by decide) c
  unfold Scanner.stepCode
  simp only [Column.exact_advance, Column.exact_advanceInLiteral, hf.isBlank, hf.advance,
    hf.advanceInLiteral, h.column hr, hs, hl, hright, hq]
  split_ifs
  · exact h.take (h.turnTo hr .gap) _ _ c
  · exact h.comment (h.turnTo hr .gap)
  · exact h.close (h.take (h.finish hr) _ _ c) _
  · exact h.close (h.take (h.finish hr) _ _ c) _
  · exact h.take (h.finish hr) _ _ c
  · exact h.take (h.turnTo hr .atom) _ _ c

theorem stepLiteral (h : Simulation f R) (hf : KeepsClasses f) (hr : R s u) (c : Char) :
    R (s.stepLiteral Column.exact c) (u.stepLiteral Column.exact (f c)) := by
  have hq := hf.eq_iff (show '"' ∈ significant by decide) c
  have hb := hf.eq_iff (show '\\' ∈ significant by decide) c
  unfold Scanner.stepLiteral
  simp only [Column.exact_advanceInLiteral, hf.advanceInLiteral, h.column hr, hq, hb]
  split_ifs
  · exact h.close (h.take hr _ _ c) _
  · exact h.take hr _ _ c
  · exact h.take hr _ _ c

theorem step (h : Simulation f R) (hf : KeepsClasses f) (hr : R s u) (c : Char) :
    R (s.step c) (u.step (f c)) := by
  unfold Scanner.step Scanner.stepWith
  rw [Column.exact_advance, Column.exact_advanceInLiteral, h.mode hr, h.column hr, hf.advance,
    hf.advanceInLiteral]
  cases s.mode with
  | gap => exact h.stepCode hf hr c
  | atom => exact h.stepCode hf hr c
  | comment =>
    show R (if c = '\n' then _ else _) (if f c = '\n' then _ else _)
    rw [if_congr (hf.eq_iff (by decide) c) rfl rfl]
    split_ifs
    · exact h.take hr _ _ c
    · exact hr
  | literal => exact h.stepLiteral hf hr c
  | escape => exact h.take hr _ _ c

theorem run (h : Simulation f R) (hf : KeepsClasses f) : ∀ (cs : List Char) {s u : Scanner},
    R s u → R (s.run cs) (u.run (cs.map f))
  | [], _, _, hr => hr
  | c :: cs, _, _, hr => h.run hf cs (h.step hf hr c)

theorem run_same (h : Simulation id R) (hr : R s u) (cs : List Char) :
    R (s.run cs) (u.run cs) := by
  have hrun := h.run keepsClasses_id cs hr
  rwa [List.map_id] at hrun

end Simulation
end Scanner
end ParenLint
