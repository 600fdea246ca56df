/-
# Comments influence nothing

A comment that begins outside literals can be taken out of a text, up to the
line feed that ends it or the end of the text, and the tokens stay the same,
their columns included.

The scanner is in two different states at the line feed, with the comment and
without it: the comment has ended an atom that would still be open, and has
put the running column back to 0. The line feed ends the atom and puts the
column back as well, so after it the two states agree (`Scanner.Agree`), but
for the running column noted with the run of blanks that it begins, which no
token shows. From there on they agree for good (`Scanner.Agree.run`). At the
end of a text there is nothing to agree on but the tokens
(`Scanner.tokens_semicolon`), and a comment in a comment is skipped with it.

Key definitions: `Scanner.Agree`.
Key theorems: `Scanner.Agree.run`, `tokenize_comment`, `comments_ignored`.
-/
import ParenLint.Proofs.Growth
import ParenLint.Proofs.Lexical
import ParenLint.Proofs.Region
import ParenLint.Proofs.Simulation
import ParenLint.Verdict

namespace ParenLint

namespace Scanner

/-! ### Scanners that read alike -/

/-- The scanners differ at most in the running columns noted with their
tokens. -/
structure Agree (s s' : Scanner) : Prop where
  mode : s.mode = s'.mode
  column : s.column = s'.column
  mark : s.mark = s'.mark
  taken : s.taken = s'.taken
  done : inOrder s.done = inOrder s'.done

variable {s s' : Scanner}

theorem simulation_agree : Simulation id Agree where
  mode := fun h => h.mode.symm
  column := fun h => h.column.symm
  idle := fun h => by rw [h.taken]
  take := fun h _ _ c => ⟨rfl, rfl, h.mark, congrArg (c :: ·) h.taken, h.done⟩
  close := fun h _ => by
    refine ⟨rfl, h.column, h.column, rfl, ?_⟩
    rw [close_done, close_done, inOrder_cons, inOrder_cons, h.done, h.taken, h.mark]
  comment := fun h => { h with mode := rfl, column := rfl }

theorem Agree.run (h : Agree s s') (cs : List Char) : Agree (s.run cs) (s'.run cs) :=
  simulation_agree.run_same h cs

theorem Agree.tokens (h : Agree s s') : s.tokens = s'.tokens := (simulation_agree.finish h).done

/-! ### Reading a comment -/

/-- Nothing in a comment is read but the line feed that ends it. -/
theorem run_comment (hm : s.mode = .comment) :
    ∀ comment : List Char, '\n' ∉ comment → s.run comment = s
  | [], _ => rfl
  | c :: comment, h => by
    have hc : c ≠ '\n' := fun hn => h (by simp [hn])
    rw [run_cons, step_comment hm, if_neg hc]
    exact run_comment hm comment fun hn => h (List.mem_cons_of_mem c hn)

/-- A comment outside literals and comments leaves the scanner in a comment,
with nothing open but a run of blanks. -/
theorem run_semicolon (h : s.InCode) {comment : List Char} (hc : '\n' ∉ comment) :
    s.run (';' :: comment) = { s.turnTo .gap with mode := .comment, column := 0 } := by
  rw [run_cons, step_semicolon h, run_comment rfl comment hc]

/-- After the line feed there is no telling whether a comment stood before
it. -/
theorem agree_lineFeed (h : s.InCode) :
    Agree (Scanner.step { s.turnTo .gap with mode := .comment, column := 0 } '\n')
      (s.step '\n') := by
  rw [step_blank h rfl]
  exact ⟨rfl, rfl, rfl, rfl, rfl⟩

/-- A comment outside literals can be left out before a line feed and at the
end. -/
theorem tokens_run_comment (hs : s.mode.region = .code ∨ s.mode.region = .comment)
    {comment rest : List Char} (hc : '\n' ∉ comment) (hr : rest = [] ∨ rest.head? = some '\n') :
    (s.run (';' :: comment ++ rest)).tokens = (s.run rest).tokens := by
  rw [run_append]
  rcases hs with hs | hs
  · have hcode : s.InCode := inCode_of_region hs
    rw [run_semicolon hcode hc]
    rcases hr with rfl | hr
    · exact tokens_semicolon hcode
    · obtain ⟨rest, rfl⟩ : ∃ r, rest = '\n' :: r := ⟨rest.tail, (List.cons_head?_tail hr).symm⟩
      exact ((agree_lineFeed hcode).run rest).tokens
  · have hm : s.mode = .comment := by
      cases h : s.mode <;> rw [h] at hs <;> first | rfl | cases hs
    have hsame : s.run (';' :: comment) = s := run_comment hm _ (by simpa using hc)
    rw [hsame]

end Scanner

theorem tokenize_comment {before comment rest : List Char}
    (hb : ∀ t ∈ tokenize before, t.kind ≠ .unterminated) (hc : '\n' ∉ comment)
    (hr : rest = [] ∨ rest.head? = some '\n') :
    tokenize (before ++ ';' :: comment ++ rest) = tokenize (before ++ rest) := by
  have hregion : (Scanner.init.run before).mode.region = .code ∨
      (Scanner.init.run before).mode.region = .comment := by
    obtain ⟨hl, he⟩ := (terminated_iff before).1 hb
    rw [Scanner.region_run]
    cases h : Region.after .code before with
    | code => exact Or.inl rfl
    | comment => exact Or.inr rfl
    | literal => exact absurd h hl
    | escape => exact absurd h he
  rw [← Scanner.tokens_run, ← Scanner.tokens_run, List.append_assoc, Scanner.run_append,
    Scanner.run_append _ before rest]
  exact Scanner.tokens_run_comment hregion hc hr

/-- **Comments influence nothing.** A comment put in outside literals, before
a line feed or at the end, changes no token in any field, and so no form, no
fault and no verdict. -/
theorem comments_ignored (before comment rest : List Char)
    (hb : ∀ t ∈ tokenize before, t.kind ≠ .unterminated) (hc : '\n' ∉ comment)
    (hr : rest = [] ∨ rest.head? = some '\n') :
    tokenize (before ++ ';' :: comment ++ rest) = tokenize (before ++ rest) ∧
      build (tokenize (before ++ ';' :: comment ++ rest)) = build (tokenize (before ++ rest)) ∧
      parse (before ++ ';' :: comment ++ rest) = parse (before ++ rest) ∧
      Verdict.lenient (before ++ ';' :: comment ++ rest) = Verdict.lenient (before ++ rest) ∧
      Verdict.strict (before ++ ';' :: comment ++ rest) = Verdict.strict (before ++ rest) := by
  have htokens := tokenize_comment hb hc hr
  have hparse : parse (before ++ ';' :: comment ++ rest) = parse (before ++ rest) := by
    rw [parse, htokens, parse]
  refine ⟨htokens, by rw [htokens], hparse, ?_, ?_⟩
  · rw [Verdict.lenient, htokens, Verdict.lenient]
  · rw [Verdict.strict, hparse, Verdict.strict]

/-- A comment with a quote and a parenthesis in it, right after an atom and
with a semicolon in a literal before it. -/
theorem comments_ignored_quote :
    let before := ['(', '"', ';', '"', 'a']
    let comment := ['"', '(', '\\']
    let rest := ['\n', ' ', 'b']
    (∀ t ∈ tokenize before, t.kind ≠ .unterminated) ∧ '\n' ∉ comment ∧
      rest.head? = some '\n' ∧
      tokenize (before ++ ';' :: comment ++ rest) = tokenize (before ++ rest) ∧
      parse (before ++ ';' :: comment ++ rest) = parse (before ++ rest) := by
  intro before comment rest
  have hb : ∀ t ∈ tokenize before, t.kind ≠ .unterminated := by decide
  have hc : '\n' ∉ comment := by decide
  obtain ⟨htokens, -, hparse, -⟩ := comments_ignored before comment rest hb hc (Or.inr rfl)
  exact ⟨hb, hc, rfl, htokens, hparse⟩

end ParenLint
