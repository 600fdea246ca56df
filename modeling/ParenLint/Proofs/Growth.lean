/-
# Tokens of a text that goes on

When a text goes on, what its tokens were is almost settled. All but the last
stay as they are. The last can be one that the end of the text has ended, and
then the characters that follow may still go into it: an atom or a run of
blanks may get longer, a literal left open may get longer and may be closed.
Its column and its beginning stay (`Token.Grows`), and a parenthesis or a
literal that is closed stays altogether.

So the tokens of a text and those of the text with more behind it are in the
relation `Extends`, which is transitive, so that it has to be shown of one
character only (`Scanner.Move.extends`). Most moves of the scanner end the
open token first; the tokens so far are then a beginning of what comes
(`Scanner.extends_of_done`). The others put the character into the open token
(`Scanner.extends_take`).

Key definitions: `Token.Grows`, `Extends`.
Key theorems: `Extends.trans`, `Scanner.Move.extends`, `tokenize_extends`,
`tokens_stable`.
-/
import ParenLint.Proofs.Building
import ParenLint.Proofs.Scanning

namespace ParenLint

/-! ### Growing tokens -/

/-- What the last token `t` of a text can be once the text goes on. -/
structure Token.Grows (t t' : Token) : Prop where
  column : t'.column = t.column
  text : t.text <+: t'.text
  /-- Only a literal left open can change its kind. -/
  kind : t'.kind = t.kind ∨ t.kind = .unterminated ∧ t'.kind = .literal
  /-- Only blanks, atoms and literals left open can change at all. -/
  fixed : t.kind ≠ .space → t.kind ≠ .atom → t.kind ≠ .unterminated → t' = t

namespace Token

theorem Grows.refl (t : Token) : t.Grows t where
  column := rfl
  text := List.prefix_rfl
  kind := Or.inl rfl
  fixed := fun _ _ _ => rfl

theorem Grows.trans {t t' t'' : Token} (h : t.Grows t') (h' : t'.Grows t'') : t.Grows t'' where
  column := h'.column.trans h.column
  text := h.text.trans h'.text
  kind := by
    rcases h.kind with hk | ⟨hk, hl⟩
    · rw [← hk]
      exact h'.kind
    · -- a literal that has been closed is fixed
      have ht : t'' = t' := h'.fixed (by simp [hl]) (by simp [hl]) (by simp [hl])
      exact Or.inr ⟨hk, by rw [ht, hl]⟩
  fixed := fun hs ha hu => by
    obtain rfl : t' = t := h.fixed hs ha hu
    exact h'.fixed hs ha hu

/-- A token that may grow stays what it is to a builder: the same token, blanks,
or an atom. -/
theorem Grows.cases {t t' : Token} (h : t.Grows t') :
    t' = t ∨ (t.kind = .space ∧ t'.kind = .space) ∨ (t.IsAtom ∧ t'.IsAtom) := by
  rcases h.kind with hk | ⟨hu, hl⟩
  · by_cases hs : t.kind = .space
    · exact Or.inr (Or.inl ⟨hs, hk.trans hs⟩)
    by_cases ha : t.kind = .atom
    · exact Or.inr (Or.inr ⟨by simp [IsAtom, ha], by simp [IsAtom, hk, ha]⟩)
    by_cases hu : t.kind = .unterminated
    · exact Or.inr (Or.inr ⟨by simp [IsAtom, hu], by simp [IsAtom, hk, hu]⟩)
    · exact Or.inl (h.fixed hs ha hu)
  · exact Or.inr (Or.inr ⟨by simp [IsAtom, hu], by simp [IsAtom, hl]⟩)

end Token

/-- What the tokens of a text can become once the text goes on: more of them,
and the last one grown. -/
inductive Extends : List Token → List Token → Prop
  | nil (us : List Token) : Extends [] us
  | last {t t' : Token} (us : List Token) : t.Grows t' → Extends [t] (t' :: us)
  | cons (t : Token) {ts us : List Token} : Extends ts us → Extends (t :: ts) (t :: us)

namespace Extends

theorem append_left (ts : List Token) {us vs : List Token} (h : Extends us vs) :
    Extends (ts ++ us) (ts ++ vs) := by
  induction ts with
  | nil => exact h
  | cons t ts ih => exact .cons t ih

theorem of_isPrefix {ts us : List Token} (h : ts <+: us) : Extends ts us := by
  obtain ⟨more, rfl⟩ := h
  have happ : Extends (ts ++ []) (ts ++ more) := append_left ts (.nil more)
  rwa [List.append_nil] at happ

theorem refl (ts : List Token) : Extends ts ts := of_isPrefix List.prefix_rfl

theorem trans {ts us vs : List Token} (h : Extends ts us) (h' : Extends us vs) :
    Extends ts vs := by
  induction h generalizing vs with
  | nil us => exact .nil vs
  | last us hg =>
    cases h' with
    | last vs hg' => exact .last vs (hg.trans hg')
    | cons t' _ => exact .last _ hg
  | cons t h ih =>
    cases h' with
    | last vs hg =>
      cases h
      exact .last vs hg
    | cons t h' => exact .cons t (ih h')

theorem dropLast_isPrefix {ts us : List Token} (h : Extends ts us) : ts.dropLast <+: us := by
  induction h with
  | nil us => exact List.nil_prefix
  | last us _ => exact List.nil_prefix
  | @cons t ts us h ih =>
    cases ts with
    | nil => exact List.nil_prefix
    | cons t' ts => exact List.cons_prefix_cons.2 ⟨rfl, ih⟩

/-- The last token stands where it stood, and may have grown. -/
theorem getLast_grows {ts us : List Token} (h : Extends ts us) {t : Token}
    (ht : ts.getLast? = some t) : ∃ t', us[ts.length - 1]? = some t' ∧ t.Grows t' := by
  induction h with
  | nil us => cases ht
  | @last u u' us hg =>
    obtain rfl : u = t := Option.some.inj ht
    exact ⟨u', rfl, hg⟩
  | @cons u ts us h ih =>
    cases ts with
    | nil =>
      obtain rfl : u = t := Option.some.inj ht
      exact ⟨u, rfl, .refl u⟩
    | cons v ts => exact ih (by rwa [List.getLast?_cons_cons] at ht)

end Extends

namespace Scanner

/-! ### One character -/

/-- If the open token is ended first, the tokens so far stay as they are. -/
theorem extends_of_done {s s' : Scanner} (h : s.finish.done <:+ s'.done) :
    Extends s.tokens s'.tokens := by
  have hdone : s.finish.done <:+ s'.finish.done := h.trans (done_suffix_finish s')
  have hrev : s.finish.done.reverse <+: s'.finish.done.reverse := List.reverse_prefix.2 hdone
  exact .of_isPrefix (hrev.map Lexeme.token)

theorem extends_append {s s' : Scanner} (c : Char) (kind : Token.Kind)
    (h : s'.tokens = inOrder s.done ++ [⟨kind, (c :: s.taken).reverse, s.mark⟩])
    (hk : kind = s.mode.kind ∨ s.mode.kind = .unterminated ∧ kind = .literal) :
    Extends s.tokens s'.tokens := by
  rw [h, tokens_eq]
  refine .append_left _ ?_
  split
  · exact .nil _
  · refine .last [] ⟨rfl, ?_, hk, fun hs ha hu => ?_⟩
    · show s.taken.reverse <+: (c :: s.taken).reverse
      rw [List.reverse_cons]
      exact List.prefix_append _ _
    · rcases s.mode.kind_open with ho | ho | ho
      · exact absurd ho hs
      · exact absurd ho ha
      · exact absurd ho hu

theorem extends_take (s : Scanner) {mode : Mode} (h : mode.kind = s.mode.kind) (column : Nat)
    (c : Char) : Extends s.tokens (s.take mode column c).tokens := by
  refine extends_append c mode.kind ?_ (Or.inl h)
  rw [tokens_eq, take_mode, take_taken, if_neg fun h => List.cons_ne_nil _ _ h.2]
  rfl

theorem extends_take_close (s : Scanner) (h : s.mode.kind = .unterminated) (mode : Mode)
    (column : Nat) (c : Char) :
    Extends s.tokens ((s.take mode column c).close .literal).tokens := by
  refine extends_append c .literal ?_ (Or.inr ⟨h, rfl⟩)
  rw [tokens_eq, close_mode, close_taken, if_pos ⟨rfl, rfl⟩, List.append_nil, close_done,
    inOrder_cons]
  rfl

theorem extends_turnTo (s : Scanner) (mode : Mode) (column : Nat) (c : Char) :
    Extends s.tokens ((s.turnTo mode).take mode column c).tokens := by
  by_cases h : s.mode = mode
  · rw [turnTo_self h]
    exact extends_take s (by rw [h]) column c
  · rw [turnTo_of_ne h]
    exact extends_of_done List.suffix_rfl

/-- A comment ends an atom and leaves a run of blanks open: either way the
tokens so far are the same. -/
theorem tokens_semicolon {s : Scanner} (h : s.InCode) :
    Scanner.tokens { s.turnTo .gap with mode := .comment, column := 0 } = s.tokens := by
  rcases h with hm | hm
  · rw [turnTo_self hm, tokens_eq, tokens_eq s, hm]
    rfl
  · rw [turnTo_of_ne (by simp [hm]), tokens_eq, finish_taken, if_pos ⟨rfl, rfl⟩, List.append_nil]
    rfl

theorem Move.extends {s s' : Scanner} {c : Char} (h : Move s c s') :
    Extends s.tokens s'.tokens := by
  cases h with
  | blank _ _ => exact extends_turnTo s .gap _ c
  | semicolon hc _ =>
    rw [tokens_semicolon hc]
    exact .refl _
  | paren _ _ => exact extends_of_done (List.suffix_cons _ _)
  | quote _ _ => exact extends_of_done List.suffix_rfl
  | atom _ _ => exact extends_turnTo s .atom _ c
  | lineEnd hm _ => exact extends_take s (by rw [hm]; rfl) _ c
  | skip _ _ => exact .refl _
  | unquote hm _ => exact extends_take_close s (by rw [hm]; rfl) _ _ c
  | backslash hm _ => exact extends_take s (by rw [hm]; rfl) _ c
  | plain hm _ _ => exact extends_take s (by rw [hm]) _ c
  | escaped hm => exact extends_take s (by rw [hm]; rfl) _ c

/-! ### Whole texts -/

theorem extends_run : ∀ (cs : List Char) (s : Scanner), Extends s.tokens (s.run cs).tokens
  | [], s => .refl s.tokens
  | c :: cs, s => (move_step s c).extends.trans (extends_run cs (s.step c))

end Scanner

/-- The tokens of a text stay as they are when the text goes on, but for the
last one, which may grow. -/
theorem tokenize_extends (text more : List Char) :
    Extends (tokenize text) (tokenize (text ++ more)) := by
  rw [← Scanner.tokens_run, ← Scanner.tokens_run, Scanner.run_append]
  exact Scanner.extends_run more _

/-- **Tokens that have been read stay when the text goes on.** All but the last
of them are the first tokens of the longer text, in all fields. The token in
the place of the last one is at its column and begins with its text; it is the
same token if that is a parenthesis or a closed literal, and of the same kind
unless it is a literal left open that has been closed. -/
theorem tokens_stable (text more : List Char) :
    (tokenize text).dropLast <+: tokenize (text ++ more) ∧
      ∀ t, (tokenize text).getLast? = some t →
        ∃ t', (tokenize (text ++ more))[(tokenize text).length - 1]? = some t' ∧
          (t.kind = .leftParen ∨ t.kind = .rightParen ∨ t.kind = .literal → t' = t) ∧
          t'.column = t.column ∧ t.text <+: t'.text ∧
          (t'.kind = t.kind ∨ t.kind = .unterminated ∧ t'.kind = .literal) := by
  have hextends := tokenize_extends text more
  refine ⟨hextends.dropLast_isPrefix, fun t ht => ?_⟩
  obtain ⟨t', hplace, hgrows⟩ := hextends.getLast_grows ht
  refine ⟨t', hplace, fun hk => ?_, hgrows.column, hgrows.text, hgrows.kind⟩
  apply hgrows.fixed
  all_goals rcases hk with hk | hk | hk <;> simp [hk]

/-- A text that ends after a backslash in a literal: the quote that follows
goes into the literal, and the next one closes it. -/
example :
    tokenize ['(', 'a', '"', '\\'] =
      [⟨.leftParen, ['('], 0⟩, ⟨.atom, ['a'], 1⟩, ⟨.unterminated, ['"', '\\'], 2⟩] ∧
    tokenize (['(', 'a', '"', '\\'] ++ ['"', '"', 'b']) =
      [⟨.leftParen, ['('], 0⟩, ⟨.atom, ['a'], 1⟩, ⟨.literal, ['"', '\\', '"', '"'], 2⟩,
        ⟨.atom, ['b'], 6⟩] := by decide

end ParenLint
