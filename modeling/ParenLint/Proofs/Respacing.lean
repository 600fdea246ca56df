/-
# Texts with other blanks

Two texts that differ in their blanks only are read side by side: as long as
they are in step, the two scanners are in the same mode, with the same token
open unless it is blanks, and all columns of the second scanner are the same
number `k` to the right (`Scanner.InStep`). For this to go on over a tab, `k`
has to be a multiple of the tab width, and over a line feed it has to be 0,
since the columns begin anew there (`Scanner.InStep.step`).

Where the texts differ, each reads blanks of its own: a first one each, which
ends an open atom (`Scanner.InStep.blank`), and then any number more on one
side (`Scanner.Alike.blanks_right`). Meanwhile the running columns do not
match, and `Scanner.Alike` is what is left without them. It is all that the
tokens depend on in the end: they are the same on both sides, `k` columns
apart, but for the texts of blanks (`Token.Alike`).

Key definitions: `Token.Alike`, `Scanner.Alike`, `Scanner.InStep`.
Key theorems: `Scanner.Alike.tokens`, `Scanner.InStep.step`,
`Scanner.InStep.blank`, `Scanner.Alike.blanks_right`, `unspaced_of_alike`.
-/
import ParenLint.Proofs.Changes
import ParenLint.Proofs.Lexical
import Mathlib.Data.List.Forall2
import Mathlib.Tactic.SplitIfs

namespace ParenLint

namespace Column

variable {k : Nat}

theorem nextStop_add (hk : tabWidth ∣ k) (i : Nat) : nextStop (i + k) = nextStop i + k := by
  obtain ⟨n, rfl⟩ := hk
  simp only [nextStop, tabWidth]
  omega

theorem advanceInLiteral_add (hk : tabWidth ∣ k) (i : Nat) (c : Char) :
    advanceInLiteral (i + k) c = advanceInLiteral i c + k := by
  unfold advanceInLiteral
  rw [nextStop_add hk]
  split_ifs <;> omega

/-- Only a line feed forgets where the line began. -/
theorem advance_add (hk : tabWidth ∣ k) (i : Nat) {c : Char} (hc : c = '\n' → k = 0) :
    advance (i + k) c = advance i c + k := by
  unfold advance
  rw [nextStop_add hk]
  split_ifs with hn
  · rw [hc hn]
  · rfl
  · omega

end Column

/-- The token `u` is the token `t`, `k` columns to the right, or is blanks as
`t` is. -/
structure Token.Alike (k : Nat) (t u : Token) : Prop where
  kind : u.kind = t.kind
  column : u.column = t.column + k
  text : t.kind ≠ .space → u.text = t.text

namespace Scanner

/-- The scanners are in the same mode and have read the same tokens, those of
`u` `k` columns to the right, but for the texts of blanks. -/
structure Alike (k : Nat) (s u : Scanner) : Prop where
  mode : u.mode = s.mode
  mark : u.mark = s.mark + k
  /-- Blanks are open in both or in none. -/
  blanks : s.mode.kind = .space → (u.taken = [] ↔ s.taken = [])
  /-- Any other open token has the same characters. -/
  taken : s.mode.kind ≠ .space → u.taken = s.taken
  done : List.Forall₂ (Token.Alike k) (inOrder s.done) (inOrder u.done)

/-- The running columns match as well; in a comment they do not count. -/
structure InStep (k : Nat) (s u : Scanner) : Prop extends Alike k s u where
  column : s.mode ≠ .comment → u.column = s.column + k

theorem InStep.refl (s : Scanner) : InStep 0 s s where
  mode := rfl
  mark := rfl
  blanks := fun _ => Iff.rfl
  taken := fun _ => rfl
  done := List.forall₂_same.2 fun _ _ => ⟨rfl, rfl, fun _ => rfl⟩
  column := fun _ => rfl

variable {k : Nat} {s u : Scanner}

/-! ### The parts of a step -/

theorem Alike.close_done (h : Alike k s u) {kind : Token.Kind}
    (ht : kind ≠ .space → u.taken = s.taken) :
    List.Forall₂ (Token.Alike k) (inOrder (s.close kind).done) (inOrder (u.close kind).done) := by
  rw [Scanner.close_done, Scanner.close_done, inOrder_cons, inOrder_cons]
  refine List.rel_append h.done (.cons ⟨rfl, h.mark, fun hk => ?_⟩ .nil)
  show u.taken.reverse = s.taken.reverse
  rw [ht hk]

theorem Alike.idle_iff (h : Alike k s u) :
    u.mode.kind = .space ∧ u.taken = [] ↔ s.mode.kind = .space ∧ s.taken = [] := by
  rw [h.mode]
  exact and_congr_right h.blanks

theorem Alike.inCode (h : Alike k s u) (hs : s.InCode) : u.InCode := by
  unfold InCode
  rwa [h.mode]

theorem Alike.tokens (h : Alike k s u) :
    List.Forall₂ (Token.Alike k) s.tokens u.tokens := by
  rw [Scanner.tokens, Scanner.tokens, finish_eq s, finish_eq u, if_congr h.idle_iff rfl rfl]
  split_ifs
  · exact h.done
  · rw [h.mode]
    exact h.close_done h.taken

theorem InStep.close (h : InStep k s u) (hm : s.mode ≠ .comment) {kind : Token.Kind}
    (ht : kind ≠ .space → u.taken = s.taken) : InStep k (s.close kind) (u.close kind) where
  mode := rfl
  mark := h.column hm
  blanks := fun _ => Iff.rfl
  taken := fun _ => rfl
  done := h.close_done ht
  column := fun _ => h.column hm

theorem InStep.finish (h : InStep k s u) (hm : s.mode ≠ .comment) :
    InStep k s.finish u.finish := by
  rw [finish_eq s, finish_eq u, if_congr h.idle_iff rfl rfl]
  split_ifs
  · exact h
  · rw [h.mode]
    exact h.close hm h.taken

theorem InStep.turnTo (h : InStep k s u) (hm : s.mode ≠ .comment) (mode : Mode) :
    InStep k (s.turnTo mode) (u.turnTo mode) := by
  unfold Scanner.turnTo
  rw [h.mode]
  split_ifs
  · exact h
  · exact h.finish hm

theorem InStep.taken_turnTo (h : InStep k s u) {mode : Mode} (hk : mode.kind ≠ .space) :
    (u.turnTo mode).taken = (s.turnTo mode).taken := by
  unfold Scanner.turnTo
  rw [h.mode]
  split_ifs with hm
  · exact h.taken (by rwa [hm])
  · rw [finish_taken, finish_taken]

theorem Alike.take (h : Alike k s u) (mode : Mode) (i j : Nat) (c d : Char)
    (ht : mode.kind ≠ .space → d :: u.taken = c :: s.taken) :
    Alike k (s.take mode i c) (u.take mode j d) where
  mode := rfl
  mark := h.mark
  blanks := fun _ => by simp
  taken := ht
  done := h.done

theorem InStep.take (h : InStep k s u) (mode : Mode) {i j : Nat} (hj : j = i + k) (c : Char)
    (ht : mode.kind ≠ .space → u.taken = s.taken) :
    InStep k (s.take mode i c) (u.take mode j c) where
  toAlike := h.toAlike.take mode i j c c fun hk => by rw [ht hk]
  column := fun _ => hj

/-! ### The same character on both sides -/

theorem turnTo_gap_mode (h : s.InCode) : (s.turnTo .gap).mode = .gap := by
  rcases h with h | h
  · rw [turnTo_self h, h]
  · rw [turnTo_of_ne (by simp [h]), finish_mode (Or.inr h)]

/-- A semicolon puts both running columns back to 0. -/
theorem InStep.semicolon (h : InStep k s u) (hc : s.InCode) :
    InStep k { s.turnTo .gap with mode := .comment, column := 0 }
      { u.turnTo .gap with mode := .comment, column := 0 } := by
  have ht := h.turnTo (ne_comment_of_inCode hc) .gap
  have hb := ht.blanks (by rw [turnTo_gap_mode hc]; rfl)
  exact ⟨⟨rfl, ht.mark, fun _ => hb, fun hk => absurd rfl hk, ht.done⟩, fun hm => absurd rfl hm⟩

theorem InStep.stepCode (h : InStep k s u) (hc : s.InCode) (hk : Column.tabWidth ∣ k) {c : Char}
    (hn : c = '\n' → k = 0) :
    InStep k (s.stepCode Column.exact c) (u.stepCode Column.exact c) := by
  have hm := ne_comment_of_inCode hc
  have hcol : u.column = s.column + k := h.column hm
  have hadv : Column.advance u.column c = Column.advance s.column c + k := by
    rw [hcol, Column.advance_add hk _ hn]
  have hlit : Column.advanceInLiteral u.column c = Column.advanceInLiteral s.column c + k := by
    rw [hcol, Column.advanceInLiteral_add hk]
  have hempty : u.finish.taken = s.finish.taken := by rw [finish_taken, finish_taken]
  have hparen : ∀ kind, InStep k ((s.finish.take .gap (Column.advance s.column c) c).close kind)
      ((u.finish.take .gap (Column.advance u.column c) c).close kind) := by
    intro kind
    refine InStep.close ((h.finish hm).take .gap hadv c fun _ => hempty) (by simp) fun _ => ?_
    rw [take_taken, take_taken, hempty]
  unfold Scanner.stepCode
  split_ifs
  · exact (h.turnTo hm .gap).take .gap hadv c fun hg => absurd rfl hg
  · exact h.semicolon hc
  · exact hparen _
  · exact hparen _
  · exact (h.finish hm).take .literal hlit c fun _ => hempty
  · exact (h.turnTo hm .atom).take .atom hadv c fun ha => h.taken_turnTo ha

theorem InStep.stepLiteral (h : InStep k s u) (hm : s.mode = .literal)
    (hk : Column.tabWidth ∣ k) (c : Char) :
    InStep k (s.stepLiteral Column.exact c) (u.stepLiteral Column.exact c) := by
  have hlit : Column.advanceInLiteral u.column c = Column.advanceInLiteral s.column c + k := by
    rw [h.column (by simp [hm]), Column.advanceInLiteral_add hk]
  have htaken : u.taken = s.taken := h.taken (by simp [hm, Mode.kind])
  unfold Scanner.stepLiteral
  split_ifs
  · exact InStep.close (h.take .literal hlit c fun _ => htaken) (by simp) fun _ => by
      rw [take_taken, take_taken, htaken]
  · exact h.take .escape hlit c fun _ => htaken
  · exact h.take .literal hlit c fun _ => htaken

/-- Scanners in step that read the same character stay in step. -/
theorem InStep.step (h : InStep k s u) (hk : Column.tabWidth ∣ k) {c : Char}
    (hn : c = '\n' → k = 0) : InStep k (s.step c) (u.step c) := by
  unfold Scanner.step Scanner.stepWith
  rw [h.mode]
  cases hm : s.mode with
  | gap => exact h.stepCode (Or.inl hm) hk hn
  | atom => exact h.stepCode (Or.inr hm) hk hn
  | comment =>
    show InStep k (if c = '\n' then _ else _) (if c = '\n' then _ else _)
    split_ifs with hc
    · have hadv : Column.advance u.column c = Column.advance s.column c + k := by
        rw [hc, hn hc]
        rfl
      exact h.take .gap hadv c fun hg => absurd rfl hg
    · exact h
  | literal => exact h.stepLiteral hm hk c
  | escape =>
    have hlit : Column.advanceInLiteral u.column c = Column.advanceInLiteral s.column c + k := by
      rw [h.column (by simp [hm]), Column.advanceInLiteral_add hk]
    exact h.take .literal hlit c fun _ => h.taken (by simp [hm, Mode.kind])

/-! ### Other blanks on both sides -/

theorem InStep.blank (h : InStep k s u) (hs : s.InCode) {c d : Char} (hc : isBlank c = true)
    (hd : isBlank d = true) : Alike k (s.step c) (u.step d) := by
  rw [step_blank hs hc, step_blank (h.inCode hs) hd]
  exact (h.turnTo (ne_comment_of_inCode hs) .gap).toAlike.take .gap _ _ c d
    fun hg => absurd rfl hg

/-- The line feed after a comment, on both sides. -/
theorem Alike.lineEnd (h : Alike k s u) (hm : s.mode = .comment) :
    Alike k (s.step '\n') (u.step '\n') := by
  have hs : s.step '\n' = s.take .gap 0 '\n' := by simp [step_comment hm, Column.advance]
  have hu : u.step '\n' = u.take .gap 0 '\n' := by
    simp [step_comment (h.mode.trans hm), Column.advance]
  rw [hs, hu]
  exact h.take .gap 0 0 '\n' '\n' fun hg => absurd rfl hg

theorem Alike.blank_right (h : Alike k s u) (hm : s.mode = .gap) (ht : s.taken ≠ []) {d : Char}
    (hd : isBlank d = true) : Alike k s (u.step d) := by
  have hu : u.mode = .gap := h.mode.trans hm
  rw [step_blank (Or.inl hu) hd, turnTo_self hu]
  exact ⟨hm.symm, h.mark, fun _ => by simp [ht], fun hk => absurd (by rw [hm]; rfl) hk, h.done⟩

theorem Alike.blanks_right (hm : s.mode = .gap) (ht : s.taken ≠ []) : ∀ (ds : List Char)
    {u : Scanner}, Alike k s u → (∀ d ∈ ds, isBlank d = true) → Alike k s (u.run ds)
  | [], _, h, _ => h
  | d :: ds, _, h, hds =>
    Alike.blanks_right hm ht ds (h.blank_right hm ht (hds d List.mem_cons_self))
      fun e he => hds e (List.mem_cons_of_mem _ he)

theorem isBlank_of_mem_spaces {n : Nat} {d : Char} (h : d ∈ List.replicate n ' ') :
    isBlank d = true := by
  rw [List.eq_of_mem_replicate h]
  rfl

/-- Spaces in a run of blanks are one column each. -/
theorem column_run_spaces : ∀ (n : Nat) {u : Scanner}, u.mode = .gap →
    (u.run (List.replicate n ' ')).column = u.column + n
  | 0, _, _ => rfl
  | n + 1, u, hm => by
    have hstep : u.step ' ' = u.take .gap (u.column + 1) ' ' := by
      rw [step_blank (Or.inl hm) rfl, turnTo_self hm]
      rfl
    rw [List.replicate_succ, run_cons, hstep, column_run_spaces n (by rfl), take_column]
    omega

end Scanner

/-! ### Tokens that are alike -/

theorem Token.change_shift (k : Nat) (t : Token) :
    t.change (.shift k) = { t with column := t.column + k } := by
  simp [Token.change, Change.shift]

/-- Tokens but for blanks that are alike are the same, `k` columns apart. -/
theorem unspaced_of_alike {k : Nat} {ts us : List Token}
    (h : List.Forall₂ (Token.Alike k) ts us) :
    unspaced us = (unspaced ts).map (Token.change (.shift k)) := by
  induction h with
  | nil => rfl
  | @cons t u ts us ht _ ih =>
    by_cases hk : t.kind = .space
    · have hu : u.kind = .space := ht.kind.trans hk
      rw [unspaced, List.filter_cons_of_neg (by simp [hu]), unspaced,
        List.filter_cons_of_neg (by simp [hk])]
      exact ih
    · have hu : u.kind ≠ .space := by rwa [ht.kind]
      have heq : u = t.change (.shift k) := by
        rw [Token.change_shift, ← ht.kind, ← ht.text hk, ← ht.column]
      rw [unspaced, List.filter_cons_of_pos (by simp [hu]), unspaced,
        List.filter_cons_of_pos (by simp [hk]), List.map_cons, ← heq]
      exact congrArg (u :: ·) ih

theorem unspaced_eq_of_alike {ts us : List Token} (h : List.Forall₂ (Token.Alike 0) ts us) :
    unspaced us = unspaced ts := by
  have hid : Token.change (.shift 0) = id := funext fun t => Token.change_shift 0 t
  rw [unspaced_of_alike h, hid, List.map_id]

end ParenLint
