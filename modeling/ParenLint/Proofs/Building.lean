/-
# How a build goes

What one token does to a builder, as a list of cases: it goes on
(`Builder.Step`) or ends (`Builder.Stop`). A build reads tokens as long as it
goes on (`Builder.Reads`), and `run_cases` says that this is all there is to
a run: either the builder reads all tokens and finishes, or it reads those
before the first one it ends at. An invariant of building needs one step for
each case of `Step`, and holds of every run by induction on `Reads`.

Key definitions: `Builder.Step`, `Builder.Stop`, `Builder.Reads`.
Key theorems: `Builder.feed_cases`, `Builder.run_cases`,
`Builder.unwind_append`.
-/
import ParenLint.Form.Builder

namespace ParenLint

/-- A token that becomes an atom: neither a parenthesis nor blanks. -/
def Token.IsAtom (t : Token) : Prop :=
  t.kind ≠ .space ∧ t.kind ≠ .leftParen ∧ t.kind ≠ .rightParen

namespace OpenList

section Fields

variable (l : OpenList) (closing : Option Nat)

@[simp] theorem column_toForm : (l.toForm closing).column = l.column := rfl
@[simp] theorem children_toForm : (l.toForm closing).children = l.children.reverse := rfl
@[simp] theorem closing_toForm : (l.toForm closing).closing = closing := rfl

end Fields

theorem toForm_add (l : OpenList) (f : Form) (closing : Option Nat) :
    (l.add f).toForm closing = .list l.space l.column (l.children.reverse ++ [f]) closing := by
  simp [add, toForm]

end OpenList

namespace Builder

/-! ### One token -/

/-- What a token that the build goes on after makes of the builder. -/
inductive Step (b : Builder) (t : Token) : Builder → Prop
  /-- Blanks wait for the next form. -/
  | space : t.kind = .space → Step b t { b with space := t.text.reverse ++ b.space }
  | opens : t.kind = .leftParen → b.depth ≠ maxDepth →
      Step b t ⟨⟨b.space.reverse, t.column, []⟩, b.inner :: b.outer, []⟩
  /-- The innermost list closes; the blanks before the `)` go. -/
  | closes {around : OpenList} {outer : List OpenList} : t.kind = .rightParen →
      b.outer = around :: outer →
      Step b t ⟨around.add (b.inner.toForm (some t.column)), outer, []⟩
  | atom : t.IsAtom → Step b t ⟨b.inner.add (.atom b.space.reverse t.column t.text), b.outer, []⟩

/-- A token that the build ends at, the root and the reason. -/
inductive Stop (b : Builder) (t : Token) : Form → Ending → Prop
  | strayClose : t.kind = .rightParen → b.outer = [] →
      Stop b t (b.inner.toForm (some t.column)) (.strayClose t.column)
  | tooDeep : t.kind = .leftParen → b.depth = maxDepth → Stop b t b.finish (.tooDeep t.column)

theorem feed_cases (b : Builder) (t : Token) :
    (∃ b', b.feed t = .more b' ∧ Step b t b') ∨
      ∃ root ending, b.feed t = .done root ending ∧ Stop b t root ending := by
  unfold feed
  split
  · exact Or.inl ⟨_, rfl, .space ‹_›⟩
  · by_cases hd : b.depth = maxDepth
    · rw [if_pos hd]; exact Or.inr ⟨_, _, rfl, .tooDeep ‹_› hd⟩
    · rw [if_neg hd]; exact Or.inl ⟨_, rfl, .opens ‹_› hd⟩
  · split
    · exact Or.inr ⟨_, _, rfl, .strayClose ‹_› ‹_›⟩
    · exact Or.inl ⟨_, rfl, .closes ‹_› ‹_›⟩
  all_goals exact Or.inl ⟨_, rfl, .atom (by simp [Token.IsAtom, *])⟩

theorem feed_space {t : Token} (h : t.kind = .space) (b : Builder) :
    b.feed t = .more { b with space := t.text.reverse ++ b.space } := by
  rw [feed, h]

theorem feed_atom {t : Token} (h : t.IsAtom) (b : Builder) :
    b.feed t = .more ⟨b.inner.add (.atom b.space.reverse t.column t.text), b.outer, []⟩ := by
  obtain ⟨hs, hl, hr⟩ := h
  unfold feed
  split <;> first | contradiction | rfl

theorem Step.feed {b b' : Builder} {t : Token} (h : Step b t b') : b.feed t = .more b' := by
  cases h with
  | space hk => exact feed_space hk b
  | opens hk hd => simp [Builder.feed, hk, hd]
  | closes hk ho => simp [Builder.feed, hk, ho]
  | atom ha => exact feed_atom ha b

theorem Stop.feed {b : Builder} {t : Token} {root : Form} {ending : Ending}
    (h : Stop b t root ending) : b.feed t = .done root ending := by
  cases h with
  | strayClose hk ho => simp [Builder.feed, hk, ho]
  | tooDeep hk hd => simp [Builder.feed, hk, hd]

/-! ### Many tokens -/

/-- The build goes on after each of the tokens, and `b'` is the builder after
them. -/
inductive Reads (b : Builder) : List Token → Builder → Prop
  | nil : Reads b [] b
  | snoc {ts : List Token} {b' b'' : Builder} {t : Token} :
      Reads b ts b' → Step b' t b'' → Reads b (ts ++ [t]) b''

theorem Reads.cons {b b' b'' : Builder} {t : Token} {ts : List Token} (h : Step b t b')
    (hr : Reads b' ts b'') : Reads b (t :: ts) b'' := by
  induction hr with
  | nil => exact .snoc .nil h
  | snoc _ hs ih => exact .snoc ih hs

/-- A run reads all tokens and finishes, or it reads the tokens before one
that it ends at, and leaves those after it. -/
theorem run_cases : ∀ (ts : List Token) (b : Builder),
    (∃ b', Reads b ts b' ∧ b.run ts = ⟨b'.finish, .endOfTokens, []⟩) ∨
      ∃ used t rest b' root ending, ts = used ++ t :: rest ∧ Reads b used b' ∧
        Stop b' t root ending ∧ b.run ts = ⟨root, ending, rest⟩
  | [], b => Or.inl ⟨b, .nil, rfl⟩
  | t :: ts, b => by
    rcases feed_cases b t with ⟨b', hf, hs⟩ | ⟨root, ending, hf, hs⟩
    · have hrun : b.run (t :: ts) = b'.run ts := by rw [run, hf]
      rw [hrun]
      rcases run_cases ts b' with ⟨b'', hr, h⟩ | ⟨used, u, rest, b'', root, ending, rfl, hr, hu, h⟩
      · exact Or.inl ⟨b'', hr.cons hs, h⟩
      · exact Or.inr ⟨t :: used, u, rest, b'', root, ending, rfl, hr.cons hs, hu, h⟩
    · exact Or.inr ⟨[], t, ts, b, root, ending, rfl, .nil, hs, by rw [run, hf]⟩

/-! ### Ending the open lists -/

/-- The outermost open list ends as the last form of the root. -/
theorem unwind_append (root : OpenList) : ∀ (outer : List OpenList) (inner : OpenList),
    unwind inner (outer ++ [root]) = (root.add (unwind inner outer)).toForm none
  | [], _ => rfl
  | around :: outer, inner => unwind_append root outer (around.add (inner.toForm none))

/-- What open lists end as is a list with no closing column, at the column of
the outermost. -/
theorem unwind_eq_list : ∀ (outer : List OpenList) (inner : OpenList),
    ∃ space fs, unwind inner outer =
      .list space ((inner :: outer).getLast (by simp)).column fs none
  | [], inner => ⟨inner.space, inner.children.reverse, rfl⟩
  | around :: outer, inner => by
    obtain ⟨space, fs, h⟩ := unwind_eq_list outer (around.add (inner.toForm none))
    refine ⟨space, fs, h.trans ?_⟩
    cases outer <;> simp [OpenList.add]

theorem closing_finish (b : Builder) : b.finish.closing = none := by
  obtain ⟨space, fs, h⟩ := unwind_eq_list b.outer b.inner
  rw [finish, h]
  rfl

end Builder
end ParenLint
