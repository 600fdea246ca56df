/-
# Line ends of two characters

A line may end in a carriage return and a line feed where others have the line
feed alone. Outside literals this makes no difference but to the texts of
blanks: the tokens are at the same columns, and with them the forms, the fault
and the verdicts are the same.

The carriage return counts one column like any other character, but the line
feed right behind it puts the running column back to 0 before a token can
begin. What becomes of it depends on where it stands: it is a blank, which
ends an atom as the line feed would have done, or it is skipped as the last
character of a comment (`Scanner.InStep.lineReturn`). In a literal it would be
a character of its text and move all that follows on the line, so no literal
may go over the end of a line.

Key definitions: `lineReturn`, `addReturns`.
Key theorems: `Scanner.InStep.lineReturn`, `alike_addReturns`,
`carriageReturns_ignored`.
-/
import ParenLint.Proofs.Margin

namespace ParenLint

def lineReturn (c : Char) : List Char := if c = '\n' then ['\r', '\n'] else [c]

/-- The text with a carriage return in front of every line feed. -/
def addReturns (text : List Char) : List Char := text.flatMap lineReturn

namespace Scanner

variable {s u : Scanner}

/-- A line feed outside literals, with a carriage return in front of it on one
side. -/
theorem InStep.lineReturn (h : InStep 0 s u) (hs : s.mode = .comment ∨ s.InCode) :
    InStep 0 (s.step '\n') ((u.step '\r').step '\n') := by
  obtain ⟨_, hm, hcol, ht, -⟩ := step_lineFeed hs
  have hopen : (s.step '\n').taken ≠ [] := by
    rintro he
    simp [he] at ht
  -- the carriage return leaves a comment or a run of blanks open
  obtain ⟨hu, halike⟩ : ((u.step '\r').mode = .comment ∨ (u.step '\r').InCode) ∧
      Alike 0 (s.step '\n') ((u.step '\r').step '\n') := by
    rcases hs with hc | hc
    · have hskip : u.step '\r' = u := step_comment (h.mode.trans hc) _
      rw [hskip]
      exact ⟨Or.inl (h.mode.trans hc), h.toAlike.lineEnd hc⟩
    · have hfirst : Alike 0 (s.step '\n') (u.step '\r') := h.blank hc rfl rfl
      exact ⟨Or.inr (Or.inl (hfirst.mode.trans hm)), hfirst.blank_right hm hopen rfl⟩
  obtain ⟨_, -, hcol', -, -⟩ := step_lineFeed hu
  exact ⟨halike, fun _ => by rw [hcol, hcol']⟩

end Scanner

theorem alike_addReturns {text : List Char} (h : Unbroken (tokenize text)) :
    List.Forall₂ (Token.Alike 0) (tokenize text) (tokenize (addReturns text)) := by
  have hinstep := Scanner.InStep.run_lines ⟨0, rfl⟩ lineReturn (fun c hc => if_neg hc)
    (fun hsu hs => hsu.lineReturn hs) (.refl .init) text h
  exact hinstep.tokens

/-- **A carriage return at the end of a line makes no difference.** If no
literal goes over the end of a line, the text with a carriage return in front
of every line feed has as many tokens, of the same kinds at the same columns,
and with the same texts but for blanks; its forms are the same but for blanks,
and so are the lenient verdict and what it is parsed as. -/
theorem carriageReturns_ignored (text : List Char) (h : Unbroken (tokenize text)) :
    List.Forall₂ (fun t u : Token =>
        u.kind = t.kind ∧ u.column = t.column ∧ (t.kind ≠ .space → u.text = t.text))
      (tokenize text) (tokenize (addReturns text)) ∧
      (build (tokenize (addReturns text))).bare = (build (tokenize text)).bare ∧
      Verdict.lenient (addReturns text) = Verdict.lenient text ∧
      (parse (addReturns text)).map Form.bare = (parse text).map Form.bare := by
  have halike := alike_addReturns h
  exact ⟨halike.imp fun _ _ ht => ⟨ht.kind, ht.column, ht.text⟩,
    bare_of_unspaced_eq (unspaced_eq_of_alike halike)⟩

/-- Line ends after an atom, after a comment and after a literal with a tab in
it; the comment takes its carriage return with it. -/
theorem carriageReturns_ignored_comment :
    let text := ['(', 'a', '\n', ' ', ';', 'b', '\n', '"', '\t', '"', '\n', 'c', ')']
    Unbroken (tokenize text) ∧
      ((tokenize (addReturns text)).map Token.text).flatten =
        ['(', 'a', '\r', '\n', ' ', '\n', '"', '\t', '"', '\r', '\n', 'c', ')'] ∧
      (build (tokenize (addReturns text))).bare = (build (tokenize text)).bare ∧
      Verdict.lenient (addReturns text) = Verdict.lenient text ∧
      (parse (addReturns text)).map Form.bare = (parse text).map Form.bare := by
  intro text
  have hunbroken : Unbroken (tokenize text) := by decide
  obtain ⟨-, hrest⟩ := carriageReturns_ignored text hunbroken
  exact ⟨hunbroken, by decide, hrest⟩

/-- In a literal a carriage return is a character, and what follows on the line
moves. -/
example : (tokenize ['"', '\n', '"', 'a']).map Token.column = [0, 3] ∧
    (tokenize (addReturns ['"', '\n', '"', 'a'])).map Token.column = [0, 4] := by decide

end ParenLint
