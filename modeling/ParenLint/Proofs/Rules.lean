/-
# What the indentation check decides

The check stops at the first violation it finds. Whether it finds one is told
by rules that have no order: a list is indented if every form in it is, under
the column of the list, and stands neither left of the first form nor right
of the closing parenthesis.

Nor do the rules depend on how lists are nested. Each list sets its own for
the forms right inside it (`Form.Aligned`), and a form is indented if all
lists inside it have theirs kept (`Form.Inside`). What a list stands in does
not matter to it; an atom that is checked by itself has to stand right of the
column it is checked under.

Key definitions: `Form.Inside`, `Form.AllColumns`, `Form.Aligned`.
Key theorems: `Form.isIndentedUnder_atom`, `Form.isIndentedUnder_list`,
`Form.isIndentedUnder_iff_aligned`, `Form.isIndented_iff_aligned`.
-/
import ParenLint.Indentation

namespace ParenLint

theorem boundViolation_eq_none {first : Nat} {closing : Option Nat} {column : Nat} :
    boundViolation? first closing column = none ↔
      first ≤ column ∧ ∀ k, closing = some k → column ≤ k := by
  unfold boundViolation?
  by_cases hf : column < first
  · rw [if_pos hf]
    simp [Nat.not_le.2 hf]
  · rw [if_neg hf]
    cases closing with
    | none => simpa using hf
    | some k =>
      by_cases hk : k < column
      · simp [hk, Nat.not_le.2 hk]
      · simp [hk, Nat.not_lt.1 hf, Nat.not_lt.1 hk]

namespace Form

theorem childViolation_eq_none (parent first : Nat) (closing : Option Nat) :
    ∀ fs : List Form, childViolation? parent first closing fs = none ↔
      ∀ f ∈ fs, f.violation? parent = none ∧ boundViolation? first closing f.column = none
  | [] => by simp [childViolation?]
  | f :: fs => by
    have ih := childViolation_eq_none parent first closing fs
    rw [childViolation?, List.forall_mem_cons, ← ih]
    cases hv : f.violation? parent with
    | some v => simp
    | none => cases hb : boundViolation? first closing f.column <;> simp

theorem isIndentedUnder_atom (space : List Char) (column : Nat) (label : List Char)
    (parent : Nat) :
    (atom space column label).isIndentedUnder parent = true ↔ parent < column := by
  unfold isIndentedUnder violation?
  by_cases h : column ≤ parent
  · simp [h, Nat.not_lt.2 h]
  · simp [h, Nat.not_le.1 h]

/-- A list may stand anywhere; the forms in it have to be indented under it
and to keep to the bounds it sets. -/
theorem isIndentedUnder_list (space : List Char) (column : Nat) (fs : List Form)
    (closing : Option Nat) (parent : Nat) :
    (list space column fs closing).isIndentedUnder parent = true ↔
      ∀ f ∈ fs, f.isIndentedUnder column = true ∧
        (∀ g, fs.head? = some g → g.column ≤ f.column) ∧
        ∀ k, closing = some k → f.column ≤ k := by
  unfold isIndentedUnder
  rw [violation?.eq_def]
  cases fs with
  | nil => simp
  | cons g gs =>
    show (childViolation? column g.column closing (g :: gs)).isNone = true ↔ _
    rw [Option.isNone_iff_eq_none, childViolation_eq_none]
    refine forall₂_congr fun f _ => ?_
    rw [boundViolation_eq_none, Option.isNone_iff_eq_none]
    simp

/-! ### All lists at once -/

/-- The forms inside `f`, at whatever depth, and `f` itself. -/
inductive Inside (f : Form) : Form → Prop
  | self : Inside f f
  | child {l g : Form} : Inside f l → g ∈ l.children → Inside f g

theorem Inside.trans {f l g : Form} (h : Inside f l) (h' : Inside l g) : Inside f g := by
  induction h' with
  | self => exact h
  | child _ hg ih => exact .child ih hg

theorem Inside.of_child {f l g : Form} (hf : f ∈ l.children) (h : Inside f g) : Inside l g :=
  (Inside.child .self hf).trans h

theorem Inside.eq_or_child {f g : Form} (h : Inside f g) :
    g = f ∨ ∃ l ∈ f.children, Inside l g := by
  induction h with
  | self => exact Or.inl rfl
  | child _ hg ih =>
    rcases ih with rfl | ⟨m, hm, hi⟩
    · exact Or.inr ⟨_, hg, .self⟩
    · exact Or.inr ⟨m, hm, hi.child hg⟩

/-- Every column in the form, at which a form inside it opens or is closed, has
the property `P`. -/
def AllColumns (P : Nat → Prop) (f : Form) : Prop :=
  ∀ g, Inside f g → P g.column ∧ ∀ k, g.closing = some k → P k

theorem AllColumns.child {P : Nat → Prop} {f l : Form} (h : l.AllColumns P)
    (hf : f ∈ l.children) : f.AllColumns P :=
  fun g hg => h g (hg.of_child hf)

@[simp] theorem allColumns_atom {P : Nat → Prop} {space : List Char} {column : Nat}
    {label : List Char} : (atom space column label).AllColumns P ↔ P column := by
  refine ⟨fun h => (h _ .self).1, fun h g hg => ?_⟩
  rcases hg.eq_or_child with rfl | ⟨l, hl, -⟩
  · exact ⟨h, fun k hk => by cases hk⟩
  · cases hl

@[simp] theorem allColumns_list {P : Nat → Prop} {space : List Char} {column : Nat}
    {fs : List Form} {closing : Option Nat} :
    (list space column fs closing).AllColumns P ↔
      P column ∧ (∀ k, closing = some k → P k) ∧ ∀ f ∈ fs, f.AllColumns P := by
  refine ⟨fun h => ⟨(h _ .self).1, (h _ .self).2, fun f hf => h.child hf⟩, ?_⟩
  rintro ⟨hcolumn, hclosing, hfs⟩ g hg
  rcases hg.eq_or_child with rfl | ⟨l, hl, hi⟩
  · exact ⟨hcolumn, hclosing⟩
  · exact hfs l hl g hi

/-- The rules that a list sets for the forms right inside it. -/
structure Aligned (l : Form) : Prop where
  /-- Atoms stand right of the list. -/
  atoms : ∀ f ∈ l.children, f.isList = false → l.column < f.column
  /-- No form stands left of the first. -/
  first : ∀ f ∈ l.children, ∀ g, l.children.head? = some g → g.column ≤ f.column
  /-- No form stands right of the closing parenthesis. -/
  closing : ∀ f ∈ l.children, ∀ k, l.closing = some k → f.column ≤ k

theorem Aligned.of_isIndentedUnder {l : Form} (hl : l.isList = true) {parent : Nat}
    (h : l.isIndentedUnder parent = true) : l.Aligned := by
  cases l with
  | atom _ _ _ => cases hl
  | list space column fs closing =>
    rw [isIndentedUnder_list] at h
    refine ⟨fun f hf ha => ?_, fun f hf => (h f hf).2.1, fun f hf => (h f hf).2.2⟩
    cases f with
    | atom space' column' label => exact (isIndentedUnder_atom _ _ _ _).1 (h _ hf).1
    | list _ _ _ _ => cases ha

/-- Whatever is inside an indented form is indented under some column, that of
the list it is in. -/
theorem Inside.isIndentedUnder {f g : Form} (h : Inside f g) {parent : Nat}
    (hf : f.isIndentedUnder parent = true) : ∃ column, g.isIndentedUnder column = true := by
  induction h with
  | self => exact ⟨parent, hf⟩
  | @child l g _ hg ih =>
    obtain ⟨column, hl⟩ := ih
    cases l with
    | atom _ _ _ => cases hg
    | list _ _ fs _ => exact ⟨_, ((isIndentedUnder_list _ _ fs _ _).1 hl g hg).1⟩

/-- A list is indented exactly if all lists inside it have their rules kept,
whatever it stands in. -/
theorem isIndentedUnder_iff_aligned {f : Form} (hf : f.isList = true) (parent : Nat) :
    f.isIndentedUnder parent = true ↔ ∀ l, Inside f l → l.isList = true → l.Aligned := by
  refine ⟨fun h l hl hlist => ?_, fun h => ?_⟩
  · obtain ⟨column, hi⟩ := hl.isIndentedUnder h
    exact .of_isIndentedUnder hlist hi
  · induction f generalizing parent with
    | atom _ _ _ => cases hf
    | list space column fs closing ih =>
      have ha : Aligned (list space column fs closing) := h _ .self rfl
      rw [isIndentedUnder_list]
      refine fun f hmem => ⟨?_, ha.first f hmem, ha.closing f hmem⟩
      cases hlist : f.isList with
      | true => exact ih f hmem hlist column fun l hl => h l (hl.of_child hmem)
      | false =>
        cases f with
        | atom _ _ _ => exact (isIndentedUnder_atom _ _ _ _).2 (ha.atoms _ hmem rfl)
        | list _ _ _ _ => cases hlist

/-- **The check decides rules that have no order.** A form is indented exactly
if it is no atom at column 0 and every list inside it, at whatever depth,
keeps its atoms right of itself, no form left of its first and none right of
its closing parenthesis. The column that a form is checked under does not
matter to a list, and an atom has to be right of it. -/
theorem isIndented_iff_aligned (f : Form) :
    (f.isIndented = true ↔
        ¬ (f.isList = false ∧ f.column = 0) ∧
          ∀ l, Inside f l → l.isList = true → l.Aligned) ∧
      (f.isList = true → ∀ p q, f.isIndentedUnder p = f.isIndentedUnder q) ∧
      (f.isList = false → ∀ p, f.isIndentedUnder p = true ↔ p < f.column) := by
  cases f with
  | atom space column label =>
    have hatom : ∀ p, (atom space column label).isIndentedUnder p = true ↔ p < column :=
      isIndentedUnder_atom space column label
    -- nothing is inside an atom but itself
    have hself : ∀ l, Inside (atom space column label) l → l = atom space column label := by
      intro l hl
      induction hl with
      | self => rfl
      | child _ hg ih => rw [ih] at hg; cases hg
    refine ⟨?_, fun hl => (by cases hl), fun _ => hatom⟩
    rw [isIndented, hatom, Nat.pos_iff_ne_zero]
    refine ⟨fun hc => ⟨fun h0 => hc h0.2, fun l hl hlist => ?_⟩, fun h hc => h.1 ⟨rfl, hc⟩⟩
    rw [hself l hl] at hlist
    cases hlist
  | list space column fs closing =>
    have hlist := isIndentedUnder_iff_aligned (f := list space column fs closing) rfl
    refine ⟨?_, fun _ p q => Bool.eq_iff_iff.2 ((hlist p).trans (hlist q).symm),
      fun ha => by cases ha⟩
    rw [isIndented, hlist]
    exact ⟨fun h => ⟨fun ha => (by cases ha.1), h⟩, fun h => h.2⟩

end Form
end ParenLint
