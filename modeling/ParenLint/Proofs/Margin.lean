/-
# Texts moved to the right

A whole text can be moved to the right by a margin of spaces at its start and
behind every line feed. If the margin is a multiple of the tab width and no
literal goes over the end of a line, all columns move by its width, and
nothing else changes but blanks: the forms keep their shape and labels, and
the fault, if there is one, is the same at its new column.

The scanner of the moved text starts behind the margin, that is, at its width
and not at 0 (`Scanner.InStep.run_margin`); the margin at the very start then
only goes into the first blanks (`Scanner.unspaced_tokens_margin`). In a literal
the spaces would be characters of its text, and this is where the condition
is needed: what has been read never has a literal with a line feed in it
(`Unbroken.of_extends`).

The rules compare columns with each other, but one column does not move, that
of the root. It is compared with the atoms right inside it, so only an atom at
column 0 can tell a text from the moved one.

Key definitions: `addMargin`, `Unbroken`.
Key theorems: `Scanner.InStep.lineFeed`, `Scanner.InStep.run_margin`,
`unspaced_addMargin`, `Form.isIndented_shiftInside`, `margin_harmless`.
-/
import ParenLint.Proofs.Respacing
import ParenLint.Proofs.Growth
import ParenLint.Proofs.Seam

namespace ParenLint

def lineMargin (width : Nat) (c : Char) : List Char :=
  if c = '\n' then '\n' :: List.replicate width ' ' else [c]

/-- The text with a margin of `width` spaces: at its start and behind every
line feed. -/
def addMargin (width : Nat) (text : List Char) : List Char :=
  List.replicate width ' ' ++ text.flatMap (lineMargin width)

/-- No literal, terminated or not, goes over the end of a line. -/
def Unbroken (ts : List Token) : Prop :=
  ∀ t ∈ ts, t.kind = .literal ∨ t.kind = .unterminated → '\n' ∉ t.text

instance : DecidablePred Unbroken := fun ts => by unfold Unbroken; infer_instance

/-- What holds of the literals of a text holds of those of its beginnings. -/
theorem Unbroken.of_extends {ts us : List Token} (h : Extends ts us) (hu : Unbroken us) :
    Unbroken ts := by
  induction h with
  | nil _ => exact fun t ht => absurd ht List.not_mem_nil
  | @last t t' us hg =>
    intro v hv hk hn
    obtain rfl := List.mem_singleton.1 hv
    have hk' : t'.kind = .literal ∨ t'.kind = .unterminated := by
      rcases hg.kind with hsame | ⟨-, hl⟩
      · rwa [hsame]
      · exact Or.inl hl
    exact hu t' List.mem_cons_self hk' (hg.text.subset hn)
  | cons t _ ih =>
    intro v hv
    rcases List.mem_cons.1 hv with rfl | hv
    · exact hu v List.mem_cons_self
    · exact ih (fun w hw => hu w (List.mem_cons_of_mem _ hw)) v hv

namespace Scanner

variable {k : Nat} {s u : Scanner}

/-! ### Behind the margin -/

/-- A line feed outside literals, with the margin behind it on one side. -/
theorem InStep.lineFeed (h : InStep k s u) (hs : s.mode = .comment ∨ s.InCode) :
    InStep k (s.step '\n') ((u.step '\n').run (List.replicate k ' ')) := by
  have hfirst : Alike k (s.step '\n') (u.step '\n') := by
    rcases hs with hm | hc
    · exact h.toAlike.lineEnd hm
    · exact h.blank hc rfl rfl
  -- on both sides a run of blanks is open then, at column 0
  obtain ⟨_, hm, hcol, ht, -⟩ := step_lineFeed hs
  obtain ⟨_, hm', hcol', -, -⟩ := step_lineFeed (hs.imp h.mode.trans h.inCode)
  have hne : (s.step '\n').taken ≠ [] := by
    rintro he
    simp [he] at ht
  refine ⟨Alike.blanks_right hm hne _ hfirst fun d => isBlank_of_mem_spaces, fun _ => ?_⟩
  rw [column_run_spaces k hm', hcol, hcol']

theorem not_unbroken_lineFeed (hs : s.mode = .literal ∨ s.mode = .escape) :
    ¬ Unbroken (s.step '\n').tokens := by
  have hstep : s.step '\n' = s.take .literal (Column.advanceInLiteral s.column '\n') '\n' := by
    rcases hs with hm | hm <;> simp [step, stepWith, stepLiteral, hm]
  intro h
  refine h ⟨.unterminated, ('\n' :: s.taken).reverse, s.mark⟩ ?_ (Or.inr rfl) (by simp)
  rw [hstep, tokens_eq]
  simp [Mode.kind]

/-- If another text has something else for every line feed, with which two
scanners outside literals stay in step, then they stay in step over the whole
text. -/
theorem InStep.run_lines (hk : Column.tabWidth ∣ k) (line : Char → List Char)
    (hsame : ∀ c, c ≠ '\n' → line c = [c])
    (hfeed : ∀ {s u : Scanner}, InStep k s u → s.mode = .comment ∨ s.InCode →
      InStep k (s.step '\n') (u.run (line '\n')))
    (h0 : InStep k init u) (text : List Char) (h : Unbroken (tokenize text)) :
    InStep k (init.run text) (u.run (text.flatMap line)) := by
  induction text using List.reverseRecOn with
  | nil => exact h0
  | append_singleton read c ih =>
    have hread := ih (h.of_extends (tokenize_extends read [c]))
    rw [run_append, List.flatMap_append, run_append, List.flatMap_singleton]
    by_cases hc : c = '\n'
    · rw [hc]
      refine hfeed hread ?_
      rw [hc, ← tokens_run, run_append] at h
      cases hm : (init.run read).mode with
      | gap => exact Or.inr (Or.inl hm)
      | atom => exact Or.inr (Or.inr hm)
      | comment => exact Or.inl rfl
      | literal => exact absurd h (not_unbroken_lineFeed (Or.inl hm))
      | escape => exact absurd h (not_unbroken_lineFeed (Or.inr hm))
    · rw [hsame c hc]
      exact hread.step hk fun hn => absurd hn hc

theorem InStep.run_margin (hk : Column.tabWidth ∣ k) (text : List Char)
    (h : Unbroken (tokenize text)) :
    InStep k (init.run text) ((fresh k).run (text.flatMap (lineMargin k))) := by
  have hbegin : InStep k init (fresh k) :=
    ⟨⟨rfl, (Nat.zero_add k).symm, fun _ => Iff.rfl, fun _ => rfl, .nil⟩,
      fun _ => (Nat.zero_add k).symm⟩
  exact .run_lines hk (lineMargin k) (fun c hc => if_neg hc) (fun hsu hs => hsu.lineFeed hs) hbegin
    text h

/-! ### The margin at the start -/

theorem unspaced_spaceToken (text : List Char) (column : Nat) :
    unspaced (spaceToken text column) = [] := by
  unfold spaceToken
  split_ifs <;> rfl

/-- Spaces at the start only go into the first blanks. -/
theorem unspaced_tokens_margin (k : Nat) (cs : List Char) :
    unspaced (init.run (List.replicate k ' ' ++ cs)).tokens =
      unspaced ((fresh k).run cs).tokens := by
  cases k with
  | zero => rfl
  | succ n =>
    have hspaces : Takes init (List.replicate (n + 1) ' ') .gap :=
      takes_blanks _ init rfl fun d => isBlank_of_mem_spaces
    have hbehind : Behind (List.replicate (n + 1) ' ') (fresh (n + 1))
        (init.run (List.replicate (n + 1) ' ')) :=
      { mode := hspaces.mode
        column := by rw [column_run_spaces (n + 1) (by rfl)]; exact Nat.zero_add _
        taken := hspaces.taken.trans (List.append_nil _)
        blank := rfl
        idle := fun _ _ => rfl
        fresh := rfl
        fresh' := hspaces.done }
    obtain ⟨blanks, rest, hs, hu⟩ := Behind.tokens_run (by simp) cs hbehind
    rw [run_append, hu, hs, unspaced_append, unspaced_spaceToken, unspaced,
      List.filter_cons_of_neg (by simp)]
    rfl

end Scanner

/-- The tokens of the moved text, but for blanks, are those of the text, moved
to the right. -/
theorem unspaced_addMargin {k : Nat} (hk : Column.tabWidth ∣ k) {text : List Char}
    (h : Unbroken (tokenize text)) :
    unspaced (tokenize (addMargin k text)) =
      (unspaced (tokenize text)).map (Token.change (.shift k)) := by
  rw [← Scanner.tokens_run, addMargin, Scanner.unspaced_tokens_margin]
  exact unspaced_of_alike (Scanner.InStep.run_margin hk text h).tokens

/-! ### Verdicts -/

namespace Form

/-- A form that is moved is as well indented under the root as before, unless
it is an atom that was not right of it. -/
theorem isIndentedUnder_shift {f : Form} (h : f.isList = false → f.column ≠ 0) (k : Nat) :
    (f.change (.shift k)).isIndentedUnder 0 = true ↔ f.isIndentedUnder 0 = true := by
  cases f with
  | atom space column label =>
    have hc : column ≠ 0 := h rfl
    rw [change, isIndentedUnder_atom, isIndentedUnder_atom]
    show 0 < column + k ↔ 0 < column
    omega
  | list space column fs closing =>
    -- what a list stands under does not matter, so the root may as well move with it
    have hmoved := isIndentedUnder_iff_aligned
      (isList_change (.shift k) (list space column fs closing))
    rw [hmoved, ← hmoved ((Change.shift k).column 0),
      isIndentedUnder_change (Change.strictMono_shift k)]

theorem isIndented_shiftInside {space : List Char} {fs : List Form} {closing : Option Nat}
    (h : ∀ f ∈ fs, f.isList = false → f.column ≠ 0) (k : Nat) :
    ((list space 0 fs closing).changeInside (.shift k)).isIndented =
      (list space 0 fs closing).isIndented := by
  rw [Bool.eq_iff_iff, changeInside, isIndented, isIndented, isIndentedUnder_list,
    isIndentedUnder_list, changeAll_eq_map, List.forall_mem_map]
  exact forall₂_congr fun f hf => and_congr (isIndentedUnder_shift (h f hf) k)
    (bounds_change (Change.strictMono_shift k) f fs closing)

/-- An indented root has no atom at column 0. -/
theorem column_ne_zero_of_isIndented {space : List Char} {fs : List Form} {closing : Option Nat}
    (h : (list space 0 fs closing).isIndented = true) :
    ∀ f ∈ fs, f.isList = false → f.column ≠ 0 := by
  intro f hf ha
  have hi := ((isIndentedUnder_list _ _ fs _ _).1 h f hf).1
  cases f with
  | atom _ _ _ => exact Nat.ne_of_gt ((isIndentedUnder_atom _ _ _ _).1 hi)
  | list _ _ _ _ => cases ha

end Form

/-- If the forms of a text are those of another moved to the right, it has the
same verdict, unless an atom at column 0 gets right of the root. -/
theorem lenient_of_shift {text text' : List Char} {k : Nat}
    (hb : (build (tokenize text')).bare =
      (build (tokenize text)).bare.changeInside (.shift k))
    (h : ∀ f ∈ (build (tokenize text)).children, f.isList = false → f.column ≠ 0) :
    Verdict.lenient text' = Verdict.lenient text := by
  set root := build (tokenize text) with hroot
  have hbare : root.bare = .list [] 0 (Form.changeAll .bare root.children) root.bare.closing := by
    have hshape := (rooted_build (tokenize text)).shape
    rw [← hroot] at hshape
    rw [hshape]
    rfl
  have hatoms : ∀ f ∈ Form.changeAll .bare root.children, f.isList = false → f.column ≠ 0 := by
    rw [Form.changeAll_eq_map, List.forall_mem_map]
    intro f hf ha
    rw [Form.isList_change] at ha
    rw [Form.column_change]
    exact h f hf ha
  calc Verdict.lenient text'
      = (build (tokenize text')).bare.isIndented := (Form.isIndented_bare _).symm
    _ = (root.bare.changeInside (.shift k)).isIndented := by rw [hb]
    _ = root.bare.isIndented := by rw [hbare, Form.isIndented_shiftInside hatoms]
    _ = Verdict.lenient text := Form.isIndented_bare _

/-- **Moving a whole text by tab stops is harmless.** With a margin of `m` tab
stops, the tokens are the same but for blanks, and so are the forms, all
columns but that of the root moved by the width of the margin; what is wrong
with the structure is the same, at the moved column. A text that passes still
passes, and the verdict is the same unless an atom stands at column 0 outside
of all lists. -/
theorem margin_harmless (m : Nat) (text : List Char) (h : Unbroken (tokenize text)) :
    let width := Column.tabWidth * m
    let moved := addMargin width text
    unspaced (tokenize moved) =
        (unspaced (tokenize text)).map (fun t => { t with column := t.column + width }) ∧
      (build (tokenize moved)).bare =
        (build (tokenize text)).bare.changeInside (.shift width) ∧
      (∀ e, parse text = .error e →
        ∃ e', parse moved = .error e' ∧ e'.name = e.name ∧ e'.column = e.column + width) ∧
      (∀ root, parse text = .ok root →
        ∃ root', parse moved = .ok root' ∧ root'.bare = root.bare.changeInside (.shift width)) ∧
      (Verdict.lenient text = true → Verdict.lenient moved = true) ∧
      ((∀ f ∈ (build (tokenize text)).children, f.isList = false → f.column ≠ 0) →
        Verdict.lenient moved = Verdict.lenient text) := by
  intro width moved
  have htokens := unspaced_addMargin (Nat.dvd_mul_right Column.tabWidth m) h
  obtain ⟨hbare, hfault⟩ := bare_of_unspaced_change (fun _ _ => rfl) htokens
  have hlenient := lenient_of_shift hbare
  refine ⟨?_, hbare, fun e he => ?_, fun root hr => ?_, fun hpass => ?_, hlenient⟩
  · rw [htokens]
    exact List.map_congr_left fun t _ => Token.change_shift width t
  · refine ⟨e.change (.shift width), parse_of_fault ?_, ?_, ?_⟩
    · rw [hfault, fault_of_parse he]
      rfl
    · cases e <;> rfl
    · cases e <;> rfl
  · obtain ⟨hf, rfl⟩ := no_fault_of_parse hr
    exact ⟨_, parse_of_no_fault (by rw [hfault, hf]; rfl), hbare⟩
  · rw [hlenient, hpass]
    have hshape := (rooted_build (tokenize text)).shape
    rw [Verdict.lenient, hshape] at hpass
    exact Form.column_ne_zero_of_isIndented hpass

/-- One list over two lines, and a `)` that has no partner: the text passes
and its fault is at column 3. -/
theorem margin_harmless_stray :
    Unbroken (tokenize ['(', 'a', '\n', ' ', 'b', ')', ')']) ∧
      Verdict.lenient (addMargin 8 ['(', 'a', '\n', ' ', 'b', ')', ')']) = true ∧
      ∃ e, parse (addMargin 8 ['(', 'a', '\n', ' ', 'b', ')', ')']) = .error e ∧
        e.name = "UnexpectedClose" ∧ e.column = 11 := by
  have hunbroken : Unbroken (tokenize ['(', 'a', '\n', ' ', 'b', ')', ')']) := by decide
  have hparse : parse ['(', 'a', '\n', ' ', 'b', ')', ')'] = .error (.strayClose 3) := by decide
  obtain ⟨-, -, herror, -, hpass, -⟩ := margin_harmless 1 _ hunbroken
  exact ⟨hunbroken, hpass (by decide), herror _ hparse⟩

/-- An atom at column 0 is not right of the root, but it is once it is
moved. -/
example : Verdict.lenient ['a'] = false ∧ Verdict.lenient (addMargin 8 ['a']) = true := by decide

end ParenLint
