/-
# Forms and the lists around them

The rules compare a form with its own list only, and a list not even with
that: a list may stand left of the list it is in. Still an indented form says
something about all depths. Where a list starts with an atom, that atom
stands right of it and all its forms stand at or right of that atom, so they
are right of the list as well, lists and atoms alike (`Aligned.column_lt`).
Going down from a list through lists that all start with an atom, one gets
only further right, and a form that is not right of a list around it has a
list between the two that starts with a list.

Key definitions: `Form.Descends`, `Form.startsWithList?`.
Key theorems: `Form.Aligned.column_lt`, `Form.Descends.column_lt_or`,
`Form.right_of_enclosing`.
-/
import ParenLint.Proofs.Rules

namespace ParenLint
namespace Form

/-- Going down from `l` to `f`: the path has `l` and then the lists between
the two, each right inside the one before it. -/
inductive Descends : Form → List Form → Form → Prop
  | child {l f : Form} : f ∈ l.children → Descends l [l] f
  | down {l m f : Form} {path : List Form} :
      m ∈ l.children → Descends m path f → Descends l (l :: path) f

def startsWithList? (l : Form) : Option Bool := l.children.head?.map isList

theorem isList_of_mem_children {l f : Form} (h : f ∈ l.children) : l.isList = true := by
  cases l with
  | atom _ _ _ => cases h
  | list _ _ _ _ => rfl

theorem startsWithList_cases {l f : Form} (h : f ∈ l.children) :
    l.startsWithList? = some true ∨ l.startsWithList? = some false := by
  unfold startsWithList?
  cases hc : l.children with
  | nil => rw [hc] at h; cases h
  | cons g gs => cases hg : g.isList <;> simp [hg]

/-- What is right inside a list that starts with an atom is right of the
list: the first atom is, and nothing is left of that. -/
theorem Aligned.column_lt {l f : Form} (h : l.Aligned) (hl : l.startsWithList? = some false)
    (hf : f ∈ l.children) : l.column < f.column := by
  obtain ⟨g, hg, ha⟩ := Option.map_eq_some_iff.1 hl
  calc l.column
      < g.column := h.atoms g (List.mem_of_head? hg) ha
    _ ≤ f.column := h.first f hf g hg

/-- Going down gets further right until it comes to a list that starts with a
list. -/
theorem Descends.column_lt_or {l f : Form} {path : List Form} (h : Descends l path f)
    (hl : ∀ m, Inside l m → m.isList = true → m.Aligned) :
    l.column < f.column ∨ ∃ m ∈ path, m.startsWithList? = some true := by
  induction h with
  | @child l f hf =>
    rcases startsWithList_cases hf with ht | ha
    · exact Or.inr ⟨l, List.mem_cons_self, ht⟩
    · exact Or.inl ((hl l .self (isList_of_mem_children hf)).column_lt ha hf)
  | @down l m f path hm _ ih =>
    rcases startsWithList_cases hm with ht | ha
    · exact Or.inr ⟨l, List.mem_cons_self, ht⟩
    have hstep : l.column < m.column :=
      (hl l .self (isList_of_mem_children hm)).column_lt ha hm
    rcases ih fun n hn => hl n (hn.of_child hm) with hrest | ⟨n, hn, ht⟩
    · exact Or.inl (Nat.lt_trans hstep hrest)
    · exact Or.inr ⟨n, List.mem_cons_of_mem _ hn, ht⟩

/-- **Where an indented form may be left of a list around it.** If every list
from `l` down to `d` starts with an atom, then `d` is right of `l`; so `d` can
be at the column of `l` or left of it only if one of these lists starts with a
list. -/
theorem right_of_enclosing {f l d : Form} {path : List Form} (hf : f.isIndented = true)
    (hl : Inside f l) (hd : Descends l path d) :
    ((∀ m ∈ path, m.startsWithList? = some false) → l.column < d.column) ∧
      (d.column ≤ l.column → ∃ m ∈ path, m.startsWithList? = some true) := by
  have halign : ∀ m, Inside l m → m.isList = true → m.Aligned := by
    intro m hm hlist
    obtain ⟨_, hi⟩ := (hl.trans hm).isIndentedUnder hf
    exact .of_isIndentedUnder hlist hi
  have hcases := hd.column_lt_or halign
  refine ⟨fun hatoms => hcases.resolve_right ?_, fun hle => hcases.resolve_left ?_⟩
  · rintro ⟨m, hm, ht⟩
    rw [hatoms m hm] at ht
    cases ht
  · exact Nat.not_lt.2 hle

/-- Two lists deep, under lists that start with an atom; and a list to the
left of the list it is in, which therefore starts with it. -/
theorem right_of_enclosing_nested :
    let inner := list [' '] 3 [atom [] 4 ['b'], list [' '] 6 [] (some 7)] (some 8)
    let l := list [] 0 [atom [] 1 ['a'], inner] (some 9)
    let left := list [] 2 [atom [] 3 ['c']] (some 4)
    let l' := list ['\n'] 4 [left] none
    let f := list [] 0 [l, l'] none
    f.isIndented = true ∧ Inside f l ∧ Inside f l' ∧
      Descends l [l, inner] (list [' '] 6 [] (some 7)) ∧ Descends l' [l'] left ∧
      l.column < 6 ∧ left.column ≤ l'.column ∧ ∃ m ∈ [l'], m.startsWithList? = some true := by
  intro inner l left l' f
  have hf : f.isIndented = true := by decide
  have hl : Inside f l := .child .self (by simp [f, children])
  have hl' : Inside f l' := .child .self (by simp [f, children])
  have hd : Descends l [l, inner] (list [' '] 6 [] (some 7)) :=
    .down (by simp [l, children]) (.child (by simp [inner, children]))
  have hd' : Descends l' [l'] left := .child (by simp [l', children])
  refine ⟨hf, hl, hl', hd, hd', (right_of_enclosing hf hl hd).1 ?_, by decide,
    (right_of_enclosing hf hl' hd').2 (by decide)⟩
  decide

end Form
end ParenLint
