/-
# A rejection is permanent

Once a text is rejected, no text behind it makes it pass. More tokens add
forms to open lists, open lists and close them, and each of these only adds
to what the rules ask: the first form of a list, its column and the columns
of the forms in it are settled when they are read. So if the lists end well
after some tokens, they would have ended well before them
(`Builder.Sound.of_step`, `Builder.sound_of_run`). The last token may still
grow when the text goes on, but it keeps its column and stays an atom if it
is one, and the rules ask for nothing else (`Builder.isIndented_of_extends`).

Whether the open lists of a builder would end well is `Builder.Sound`: each
is sound so far, and may stand where it does in the list around it.

Key definitions: `OpenList.Sound`, `OpenList.Admits`, `Builder.Sound`.
Key theorems: `Builder.isIndented_finish`, `Builder.Sound.of_step`,
`Builder.isIndented_of_extends`, `lenient_permanent`.
-/
import ParenLint.Proofs.Building
import ParenLint.Proofs.Growth
import ParenLint.Proofs.Rules
import ParenLint.Verdict

namespace ParenLint

/-! ### Open lists -/

namespace OpenList

/-- Whether a form at `column` may stand in the list as far as its first form
is concerned. -/
def Admits (l : OpenList) (column : Nat) : Prop :=
  ∀ g, l.children.getLast? = some g → g.column ≤ column

def Sound (l : OpenList) : Prop :=
  ∀ f ∈ l.children, f.isIndentedUnder l.column = true ∧ l.Admits f.column

theorem isIndentedUnder_toForm (l : OpenList) (closing : Option Nat) (parent : Nat) :
    (l.toForm closing).isIndentedUnder parent = true ↔
      l.Sound ∧ ∀ f ∈ l.children, ∀ k, closing = some k → f.column ≤ k := by
  have hhead : l.children.reverse.head? = l.children.getLast? := List.head?_reverse
  rw [toForm, Form.isIndentedUnder_list, hhead]
  constructor
  · intro h
    refine ⟨fun f hf => ?_, fun f hf => ?_⟩
    · obtain ⟨hi, ha, -⟩ := h f (List.mem_reverse.2 hf)
      exact ⟨hi, ha⟩
    · exact (h f (List.mem_reverse.2 hf)).2.2
  · rintro ⟨hs, hk⟩ f hf
    have hf' : f ∈ l.children := List.mem_reverse.1 hf
    exact ⟨(hs f hf').1, (hs f hf').2, hk f hf'⟩

theorem isIndentedUnder_toForm_none (l : OpenList) (parent : Nat) :
    (l.toForm none).isIndentedUnder parent = true ↔ l.Sound := by
  rw [isIndentedUnder_toForm]
  simp

theorem admits_add (l : OpenList) (f : Form) (column : Nat) :
    (l.add f).Admits column ↔
      l.Admits column ∧ (l.children = [] → f.column ≤ column) := by
  unfold Admits add
  cases hl : l.children with
  | nil => simp
  | cons g gs => simp [List.getLast?_cons_cons]

/-- One more form has to be indented itself, and must not stand left of the
first one. -/
theorem sound_add (l : OpenList) (f : Form) :
    (l.add f).Sound ↔ l.Sound ∧ f.isIndentedUnder l.column = true ∧ l.Admits f.column := by
  constructor
  · intro h
    refine ⟨fun g hg => ?_, ?_⟩
    · obtain ⟨hi, ha⟩ := h g (List.mem_cons_of_mem _ hg)
      exact ⟨hi, ((admits_add l f g.column).1 ha).1⟩
    · obtain ⟨hi, ha⟩ := h f List.mem_cons_self
      exact ⟨hi, ((admits_add l f f.column).1 ha).1⟩
  · rintro ⟨hs, hi, ha⟩ g hg
    rcases List.mem_cons.1 hg with rfl | hg
    · exact ⟨hi, (admits_add l g g.column).2 ⟨ha, fun _ => Nat.le_refl _⟩⟩
    · have hne : l.children ≠ [] := List.ne_nil_of_mem hg
      exact ⟨(hs g hg).1, (admits_add l f g.column).2 ⟨(hs g hg).2, fun h => absurd h hne⟩⟩

end OpenList

/-! ### Builders -/

namespace Builder

/-- The innermost list and those around it are sound, and each may stand where
it does in the next. -/
def SoundFrom (inner : OpenList) : List OpenList → Prop
  | [] => inner.Sound
  | around :: outer => inner.Sound ∧ around.Admits inner.column ∧ SoundFrom around outer

def Sound (b : Builder) : Prop := SoundFrom b.inner b.outer

theorem soundFrom_add (l : OpenList) (f : Form) (outer : List OpenList) :
    SoundFrom (l.add f) outer ↔
      SoundFrom l outer ∧ f.isIndentedUnder l.column = true ∧ l.Admits f.column := by
  cases outer with
  | nil => exact OpenList.sound_add l f
  | cons around outer =>
    have hcol : (l.add f).column = l.column := rfl
    rw [SoundFrom, SoundFrom, OpenList.sound_add, hcol]
    tauto

theorem isIndentedUnder_unwind (parent : Nat) : ∀ (outer : List OpenList) (inner : OpenList),
    (unwind inner outer).isIndentedUnder parent = true ↔ SoundFrom inner outer
  | [], inner => inner.isIndentedUnder_toForm_none parent
  | around :: outer, inner => by
    have hcol : (inner.toForm none).column = inner.column := rfl
    rw [unwind, isIndentedUnder_unwind parent outer, soundFrom_add,
      OpenList.isIndentedUnder_toForm_none, hcol, SoundFrom]
    tauto

/-- What a builder would end as is indented exactly if its open lists are
sound. -/
theorem isIndented_finish (b : Builder) : b.finish.isIndented = true ↔ b.Sound :=
  isIndentedUnder_unwind 0 b.outer b.inner

/-! ### One token -/

/-- A builder that is sound after a token was sound before it. -/
theorem Sound.of_step {b b' : Builder} {t : Token} (h : Step b t b') (hb : b'.Sound) :
    b.Sound := by
  cases h with
  | space _ => exact hb
  | opens _ _ => exact hb.2.2
  | @closes around outer _ ho =>
    obtain ⟨hs, hi, ha⟩ := (soundFrom_add around _ outer).1 hb
    have hinner : b.inner.Sound := ((b.inner.isIndentedUnder_toForm _ _).1 hi).1
    unfold Sound
    rw [ho]
    exact ⟨hinner, ha, hs⟩
  | atom _ => exact ((soundFrom_add b.inner _ b.outer).1 hb).1

theorem sound_of_stop {b : Builder} {t : Token} {root : Form} {ending : Ending}
    (h : Stop b t root ending) (hr : root.isIndented = true) : b.Sound := by
  cases h with
  | strayClose _ ho =>
    have hinner : b.inner.Sound := ((b.inner.isIndentedUnder_toForm _ 0).1 hr).1
    unfold Sound
    rw [ho]
    exact hinner
  | tooDeep _ _ => exact b.isIndented_finish.1 hr

/-- Two tokens that are atoms at one column leave builders that are sound
together. -/
theorem Sound.of_atom {b : Builder} {t t' : Token} (hc : t'.column = t.column)
    (h : SoundFrom (b.inner.add (.atom b.space.reverse t'.column t'.text)) b.outer) :
    SoundFrom (b.inner.add (.atom b.space.reverse t.column t.text)) b.outer := by
  rw [soundFrom_add, Form.isIndentedUnder_atom] at h ⊢
  rw [← hc]
  exact h

/-! ### Many tokens -/

theorem sound_of_run : ∀ (ts : List Token) (b : Builder),
    (b.run ts).root.isIndented = true → b.Sound
  | [], b, h => b.isIndented_finish.1 h
  | t :: ts, b, h => by
    rcases feed_cases b t with ⟨b', hf, hs⟩ | ⟨root, ending, hf, hs⟩
    · have hrun : b.run (t :: ts) = b'.run ts := by rw [run, hf]
      rw [hrun] at h
      exact (sound_of_run ts b' h).of_step hs
    · have hroot : (b.run (t :: ts)).root = root := by rw [run, hf]
      rw [hroot] at h
      exact sound_of_stop hs h

/-- Reading one token less, a run ends no worse. -/
theorem isIndented_run_singleton (b : Builder) (t : Token) (us : List Token)
    (h : (b.run (t :: us)).root.isIndented = true) : (b.run [t]).root.isIndented = true := by
  rcases feed_cases b t with ⟨b', hf, -⟩ | ⟨root, ending, hf, -⟩
  · have hrun : (b.run (t :: us)).root = (b'.run us).root := by rw [run, hf]
    have hrun' : (b.run [t]).root = b'.finish := by rw [run, hf]; rfl
    rw [hrun] at h
    rw [hrun']
    exact b'.isIndented_finish.2 (sound_of_run us b' h)
  · have hrun : (b.run (t :: us)).root = root := by rw [run, hf]
    have hrun' : (b.run [t]).root = root := by rw [run, hf]
    rwa [hrun', ← hrun]

/-- If the tokens that a text has once it goes on build an indented root, so
do those it had before. -/
theorem isIndented_of_extends {ts us : List Token} (h : Extends ts us) :
    ∀ b : Builder, (b.run us).root.isIndented = true → (b.run ts).root.isIndented = true := by
  induction h with
  | nil us => exact fun b hb => b.isIndented_finish.2 (sound_of_run us b hb)
  | @last t t' us hg =>
    intro b hb
    have hb' : (b.run [t']).root.isIndented = true := isIndented_run_singleton b t' us hb
    rcases hg.cases with rfl | ⟨hs, hs'⟩ | ⟨ha, ha'⟩
    · exact hb'
    · -- neither of the two runs of blanks comes before a form
      rw [run, feed_space hs'] at hb'
      rw [run, feed_space hs]
      exact (isIndented_finish _).2 ((isIndented_finish { b with space := _ }).1 hb')
    · rw [run, feed_atom ha'] at hb'
      rw [run, feed_atom ha]
      exact (isIndented_finish _).2 (Sound.of_atom hg.column ((isIndented_finish _).1 hb'))
  | @cons t ts us _ ih =>
    intro b hb
    rw [run] at hb ⊢
    cases hf : b.feed t with
    | more b' =>
      rw [hf] at hb
      exact ih b' hb
    | done root ending =>
      rw [hf] at hb
      exact hb

end Builder

theorem isIndented_of_append (text more : List Char)
    (h : Verdict.lenient (text ++ more) = true) : Verdict.lenient text = true :=
  Builder.isIndented_of_extends (tokenize_extends text more) .init h

/-- **A rejection is permanent.** A text that is rejected stays so whatever is
put behind it, and every beginning of a text that passes passes. -/
theorem lenient_permanent (text : List Char) :
    (∀ more, Verdict.lenient text = false → Verdict.lenient (text ++ more) = false) ∧
      ∀ before, before <+: text → Verdict.lenient text = true → Verdict.lenient before = true := by
  refine ⟨fun more h => ?_, fun before hp h => ?_⟩
  · by_contra hne
    have hmore : Verdict.lenient (text ++ more) = true := by simpa using hne
    rw [isIndented_of_append text more hmore] at h
    cases h
  · obtain ⟨more, rfl⟩ := hp
    exact isIndented_of_append before more h

/-- An atom is left of the first one of its list: a longer atom and a closed
list do not help. -/
theorem lenient_permanent_dedent :
    Verdict.lenient ['(', 'a', '\n', 'b'] = false ∧
      Verdict.lenient (['(', 'a', '\n', 'b'] ++ ['c', ')', ';']) = false := by
  have h : Verdict.lenient ['(', 'a', '\n', 'b'] = false := by decide
  exact ⟨h, (lenient_permanent ['(', 'a', '\n', 'b']).1 ['c', ')', ';'] h⟩

end ParenLint
