/-
# Reading on behind other text

Reading does not look back at finished tokens (`Scanner.run_onto`). So a text
that is read behind another one gives the tokens of its own, but for blanks:
if the other text ends in a run of blanks, that run goes on with the blanks
the text begins with. A scanner with blanks open is compared with one that
has only just begun, at the same running column (`Scanner.fresh`), for as
long as there are nothing but blanks and comments (`Scanner.Behind`). The
first other character ends the blanks on both sides, and from there on the
two read alike (`Scanner.tokens_run_of_begins`).

Key definitions: `Scanner.onto`, `Scanner.fresh`, `Scanner.Behind`,
`spaceToken`.
Key theorems: `Scanner.run_onto`, `Scanner.tokens_run_of_begins`,
`Scanner.Behind.step`, `Scanner.Behind.tokens_run`.
-/
import ParenLint.Proofs.Comments
import ParenLint.Proofs.Lexical

namespace ParenLint

/-- The token for blanks at the column `column`, if there are any. -/
def spaceToken (text : List Char) (column : Nat) : List Token :=
  if text = [] then [] else [⟨.space, text, column⟩]

theorem spaceToken_of_ne {text : List Char} (h : text ≠ []) (column : Nat) :
    spaceToken text column = [⟨.space, text, column⟩] := if_neg h

namespace Scanner

/-! ### Finished tokens -/

def onto (s : Scanner) (before : List Lexeme) : Scanner := { s with done := s.done ++ before }

theorem simulation_onto (before : List Lexeme) :
    Simulation id fun s u => u = s.onto before where
  mode := fun h => by rw [h]; rfl
  column := fun h => by rw [h]; rfl
  idle := fun h => by rw [h]; rfl
  take := fun h _ _ _ => by rw [h]; rfl
  close := fun h _ => by rw [h]; rfl
  comment := fun h => by rw [h]; rfl

theorem finish_onto (s : Scanner) (before : List Lexeme) :
    (s.onto before).finish = s.finish.onto before :=
  (simulation_onto before).finish rfl

/-- Reading does not look back. -/
theorem run_onto (cs : List Char) (s : Scanner) (before : List Lexeme) :
    (s.onto before).run cs = (s.run cs).onto before :=
  (simulation_onto before).run_same rfl cs

theorem tokens_onto (s : Scanner) (before : List Lexeme) :
    (s.onto before).tokens = inOrder before ++ s.tokens := by
  rw [tokens, finish_onto, tokens, onto, inOrder, List.reverse_append, List.map_append]
  rfl

/-! ### The first character of a token -/

/-- A scanner that has read nothing and is at the column `column`. -/
def fresh (column : Nat) : Scanner := ⟨.gap, column, column, [], 0, []⟩

/-- A scanner in a run of blanks, or at its start with both columns the same,
reads a text that begins with another token as a fresh one does, once the
blanks are ended. -/
theorem tokens_run_of_begins {s : Scanner} (hm : s.mode = .gap)
    (hidle : s.taken = [] → s.mark = s.column) {c : Char} (hb : isBlank c = false) (hs : c ≠ ';')
    (cs : List Char) :
    (s.run (c :: cs)).tokens =
      inOrder s.done ++ spaceToken s.taken.reverse s.mark ++
        ((fresh s.column).run (c :: cs)).tokens := by
  -- the character ends the blanks first
  have hstep : s.finish.step c = s.step c :=
    step_finish (Or.inl hm) (fun _ => ⟨hb, hs⟩) fun ha => by simp [hm] at ha
  have hagree : Agree s.finish ((fresh s.column).onto s.finish.done) := by
    rcases finish_cases (Or.inl hm) with ⟨-, ht, hf⟩ | ⟨-, -, hf⟩ | ⟨ha, -⟩
    · rw [hf]
      exact ⟨hm, rfl, hidle ht, ht, rfl⟩
    · rw [hf]
      exact ⟨rfl, rfl, rfl, rfl, rfl⟩
    · rw [hm] at ha
      cases ha
  have hdone : inOrder s.finish.done = inOrder s.done ++ spaceToken s.taken.reverse s.mark := by
    show s.tokens = _
    rw [tokens_eq, hm, spaceToken]
    simp [Mode.kind]
  rw [run_cons, ← hstep, ← run_cons, (hagree.run (c :: cs)).tokens, run_onto, tokens_onto, hdone]

/-- A line feed outside literals goes into a run of blanks, behind those that
the tokens so far end in, and puts the running column back to 0. -/
theorem step_lineFeed {s : Scanner} (h : s.mode = .comment ∨ s.InCode) :
    ∃ blanks, (s.step '\n').mode = .gap ∧ (s.step '\n').column = 0 ∧
      (s.step '\n').taken.reverse = blanks ++ ['\n'] ∧
      s.tokens = inOrder (s.step '\n').done ++ spaceToken blanks (s.step '\n').mark := by
  -- what is open before it, if anything, is blanks
  have hopen : ∃ u : Scanner, u.mode.kind = .space ∧ u.tokens = s.tokens ∧
      s.step '\n' = u.take .gap 0 '\n' := by
    rcases h with hm | hc
    · exact ⟨s, by rw [hm]; rfl, rfl, by simp [step_comment hm, Column.advance]⟩
    · have hturn : s.step '\n' = (s.turnTo .gap).take .gap 0 '\n' := by
        rw [step_blank hc rfl]
        simp [Column.advance]
      rw [hturn]
      rcases hc with hm | hm
      · rw [turnTo_self hm]
        exact ⟨s, by rw [hm]; rfl, rfl, rfl⟩
      · rw [turnTo_of_ne (by simp [hm])]
        refine ⟨s.finish, by rw [finish_mode (Or.inr hm)]; rfl, ?_, rfl⟩
        rw [tokens_eq, finish_taken, if_pos ⟨by rw [finish_mode (Or.inr hm)]; rfl, rfl⟩,
          List.append_nil, tokens]
  obtain ⟨u, hk, ht, hs⟩ := hopen
  refine ⟨u.taken.reverse, by rw [hs]; rfl, by rw [hs]; rfl, by rw [hs]; simp, ?_⟩
  rw [← ht, hs, tokens_eq, hk, spaceToken]
  simp

/-! ### Blanks and comments before it -/

/-- Nothing but blanks and comments has been read so far, and the second
scanner has the blanks `before` in front of them. -/
structure Behind (before : List Char) (s u : Scanner) : Prop where
  mode : u.mode = s.mode
  column : u.column = s.column
  taken : u.taken = s.taken ++ before.reverse
  blank : s.mode.kind = .space
  /-- As long as there is nothing at all, the two columns agree. -/
  idle : s.mode = .gap → s.taken = [] → s.mark = s.column
  fresh : s.done = []
  fresh' : u.done = []

namespace Behind

variable {before : List Char} {s u : Scanner}

theorem mode_cases (h : Behind before s u) : s.mode = .gap ∨ s.mode = .comment := by
  have hb := h.blank
  cases hm : s.mode <;> rw [hm] at hb <;> first | exact Or.inl rfl | exact Or.inr rfl | cases hb

theorem take (h : Behind before s u) (column : Nat) (c : Char) :
    Behind before (s.take .gap column c) (u.take .gap column c) where
  mode := rfl
  column := rfl
  taken := congrArg (c :: ·) h.taken
  blank := rfl
  idle := fun _ ht => absurd ht (by simp)
  fresh := h.fresh
  fresh' := h.fresh'

theorem taken_reverse (h : Behind before s u) : u.taken.reverse = before ++ s.taken.reverse := by
  rw [h.taken, List.reverse_append, List.reverse_reverse]

theorem taken_ne (h : Behind before s u) (hne : before ≠ []) : u.taken ≠ [] := by
  rw [h.taken]
  simp [hne]

theorem step (h : Behind before s u) {c : Char}
    (hc : s.mode = .gap → isBlank c = true ∨ c = ';') :
    Behind before (s.step c) (u.step c) ∧ (s.step c).mark = s.mark ∧ (u.step c).mark = u.mark := by
  rcases h.mode_cases with hm | hm
  · have hmu : u.mode = .gap := h.mode.trans hm
    rcases hc hm with hb | rfl
    · have hs : s.step c = s.take .gap (Column.advance s.column c) c := by
        rw [step_blank (Or.inl hm) hb, turnTo_self hm]
      have hu : u.step c = u.take .gap (Column.advance s.column c) c := by
        rw [step_blank (Or.inl hmu) hb, turnTo_self hmu, h.column]
      rw [hs, hu]
      exact ⟨h.take _ c, rfl, rfl⟩
    · have hs : s.step ';' = { s with mode := .comment, column := 0 } := by
        rw [step_semicolon (Or.inl hm), turnTo_self hm]
      have hu : u.step ';' = { u with mode := .comment, column := 0 } := by
        rw [step_semicolon (Or.inl hmu), turnTo_self hmu]
      rw [hs, hu]
      exact ⟨⟨rfl, rfl, h.taken, rfl, fun hg => (by cases hg), h.fresh, h.fresh'⟩, rfl, rfl⟩
  · have hmu : u.mode = .comment := h.mode.trans hm
    by_cases hn : c = '\n'
    · have hs : s.step c = s.take .gap 0 c := by simp [step_comment hm, hn, Column.advance]
      have hu : u.step c = u.take .gap 0 c := by simp [step_comment hmu, hn, Column.advance]
      rw [hs, hu]
      exact ⟨h.take 0 c, rfl, rfl⟩
    · have hs : s.step c = s := by rw [step_comment hm, if_neg hn]
      have hu : u.step c = u := by rw [step_comment hmu, if_neg hn]
      rw [hs, hu]
      exact ⟨h, rfl, rfl⟩

/-- What the text `cs` adds after blanks: the blanks it begins with are put
behind those that are open, and the other tokens are its own. -/
theorem tokens_run (hne : before ≠ []) : ∀ (cs : List Char) {s u : Scanner}, Behind before s u →
    ∃ blanks rest, (s.run cs).tokens = spaceToken blanks s.mark ++ rest ∧
      (u.run cs).tokens = ⟨.space, before ++ blanks, u.mark⟩ :: rest
  | [], s, u, h => by
    refine ⟨s.taken.reverse, [], ?_, ?_⟩
    · rw [run_nil, tokens_eq, h.fresh, spaceToken]
      rcases h.mode_cases with hm | hm <;> simp [hm, Mode.kind, inOrder]
    · rw [run_nil, tokens_eq, h.fresh', h.taken_reverse, h.mode]
      rcases h.mode_cases with hm | hm <;> simp [hm, Mode.kind, inOrder, h.taken_ne hne]
  | c :: cs, s, u, h => by
    by_cases hc : s.mode = .gap → isBlank c = true ∨ c = ';'
    · obtain ⟨hstep, hs, hu⟩ := h.step hc
      obtain ⟨blanks, rest, hst, hut⟩ := tokens_run hne cs hstep
      exact ⟨blanks, rest, by rw [run_cons, hst, hs], by rw [run_cons, hut, hu]⟩
    · obtain ⟨hm, hc⟩ := Classical.not_imp.1 hc
      obtain ⟨hb, hs⟩ := not_or.1 hc
      have hb : isBlank c = false := by simpa using hb
      refine ⟨s.taken.reverse, ((Scanner.fresh s.column).run (c :: cs)).tokens, ?_, ?_⟩
      · rw [tokens_run_of_begins hm (h.idle hm) hb hs, h.fresh]
        rfl
      · rw [tokens_run_of_begins (h.mode.trans hm) (fun ht => absurd ht (h.taken_ne hne)) hb hs,
          h.fresh', h.taken_reverse, h.column, spaceToken_of_ne (by simp [hne])]
        rfl

end Behind

end Scanner
end ParenLint
