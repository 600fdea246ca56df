/-
# Texts of one line

On one line every token stands right of the one before it. A character moves
the running column to the right, unless it is a line feed outside a literal;
only a comment puts the column back, and on one line nothing comes after a
comment. So the columns at which tokens end, from column 0 on, grow from each
to the next (`Scanner.Rising`), and so do those of the tokens.

A root takes its columns from its tokens, in order. If the columns in a form
grow in source order, all the rules hold of it at all depths
(`Form.isIndentedUnder_of_pairwise`): a list opens before what is in it, its
first form comes first and its `)` last. What is left is the root, which
counts as opening at column 0 and is right of no atom there. Only the first
token of a text can be at column 0, so a text of one line is rejected exactly
if its first token is an atom.

Key definitions: `Scanner.marks`, `Scanner.Rising`, `Piece.columns`.
Key theorems: `Scanner.rising_run`, `columns_of_oneLine`,
`Form.isIndentedUnder_of_pairwise`, `oneLine_rejected_iff`.
-/
import ParenLint.Proofs.Readback
import ParenLint.Proofs.Rejection
import ParenLint.Proofs.UsedTokens

namespace ParenLint

namespace Column

theorem lt_advance {c : Char} (h : c ≠ '\n') (column : Nat) : column < advance column c := by
  unfold advance
  rw [if_neg h]
  split
  · exact lt_nextStop column
  · exact Nat.lt_succ_self column

theorem lt_advanceInLiteral (column : Nat) (c : Char) : column < advanceInLiteral column c := by
  unfold advanceInLiteral
  split
  · exact lt_nextStop column
  · exact Nat.lt_succ_self column

end Column

/-! ### Columns of tokens -/

namespace Scanner

def marks (s : Scanner) : List Nat := (inOrder s.done).map Token.column ++ [s.mark]

theorem marks_close (s : Scanner) (kind : Token.Kind) :
    (s.close kind).marks = s.marks ++ [s.column] := by
  simp [marks, inOrder_cons]

/-- The columns of the tokens so far are those of the finished ones, and the
mark if a token is open. -/
theorem columns_tokens_isPrefix (s : Scanner) : s.tokens.map Token.column <+: s.marks := by
  rw [tokens_eq, marks, List.map_append]
  split
  · exact ⟨[s.mark], by simp⟩
  · exact List.prefix_rfl

/-- The marks of a scanner that reads one line grow from 0 on, and the running
column goes on from the last of them. -/
structure Rising (s : Scanner) : Prop where
  mark_le : s.mode ≠ .comment → s.mark ≤ s.column
  /-- An open token has a character. -/
  mark_lt : s.mode ≠ .comment → ¬ (s.mode.kind = .space ∧ s.taken = []) → s.mark < s.column
  marks : s.marks.Pairwise (· < ·)
  first : s.marks.head? = some 0

theorem rising_init : Rising init where
  mark_le := fun _ => Nat.le_refl 0
  mark_lt := fun _ h => absurd ⟨rfl, rfl⟩ h
  marks := List.pairwise_singleton _ _
  first := rfl

theorem Rising.close {s : Scanner} (h : Rising s) (hc : s.mode ≠ .comment)
    (ho : ¬ (s.mode.kind = .space ∧ s.taken = [])) (kind : Token.Kind) :
    Rising (s.close kind) where
  mark_le := fun _ => Nat.le_refl _
  mark_lt := fun _ h => absurd ⟨rfl, rfl⟩ h
  marks := by
    have hlt : s.mark < s.column := h.mark_lt hc ho
    obtain ⟨-, -, hdone⟩ := List.pairwise_append.1 h.marks
    rw [marks_close, List.pairwise_append]
    refine ⟨h.marks, List.pairwise_singleton _ _, fun i hi k hk => ?_⟩
    rw [List.mem_singleton.1 hk]
    -- the last mark is left of the running column, and the others are left of it
    rcases List.mem_append.1 hi with hi | hi
    · exact Nat.lt_trans (hdone i hi _ (List.mem_singleton_self _)) hlt
    · rwa [List.mem_singleton.1 hi]
  first := by rw [marks_close, List.head?_append, h.first]; rfl

theorem Rising.finish {s : Scanner} (h : Rising s) (hc : s.InCode) : Rising s.finish := by
  rw [finish_eq]
  split
  · exact h
  · exact h.close (ne_comment_of_inCode hc) ‹_› _

theorem Rising.turnTo {s : Scanner} (h : Rising s) (hc : s.InCode) (mode : Mode) :
    Rising (s.turnTo mode) :=
  turnTo_ind mode h (h.finish hc)

theorem Rising.take {s : Scanner} (h : Rising s) (hc : s.mode ≠ .comment) (mode : Mode)
    {column : Nat} (hlt : s.column < column) (c : Char) : Rising (s.take mode column c) where
  mark_le := fun _ => Nat.le_trans (h.mark_le hc) (Nat.le_of_lt hlt)
  mark_lt := fun _ _ => Nat.lt_of_le_of_lt (h.mark_le hc) hlt
  marks := h.marks
  first := h.first

theorem Rising.comment {s : Scanner} (h : Rising s) :
    Rising { s with mode := .comment, column := 0 } where
  mark_le := fun hc => absurd rfl hc
  mark_lt := fun hc => absurd rfl hc
  marks := h.marks
  first := h.first

theorem Rising.move {s s' : Scanner} {c : Char} (h : Rising s) (hn : c ≠ '\n')
    (hm : Move s c s') : Rising s' := by
  have hout : s.column < Column.advance s.column c := Column.lt_advance hn s.column
  have hin : s.column < Column.advanceInLiteral s.column c := Column.lt_advanceInLiteral s.column c
  -- ending the open token first, where a character does, leaves the running column
  have code : ∀ {u : Scanner}, Rising u → u.InCode → u.column = s.column →
      ∀ (mode : Mode) {column : Nat}, s.column < column → Rising (u.take mode column c) :=
    fun hu hc hcol mode _ hlt => hu.take (ne_comment_of_inCode hc) mode (hcol ▸ hlt) c
  cases hm with
  | blank hc _ => exact code (h.turnTo hc .gap) (hc.turnTo .gap) (by simp) .gap hout
  | semicolon hc _ => exact (h.turnTo hc .gap).comment
  | paren hc _ =>
    exact (code (h.finish hc) hc.finish (by simp) .gap hout).close (by simp) (by simp) _
  | quote hc _ => exact code (h.finish hc) hc.finish (by simp) .literal hin
  | atom hc _ => exact code (h.turnTo hc .atom) (hc.turnTo .atom) (by simp) .atom hout
  | lineEnd _ h' => exact absurd h' hn
  | skip _ _ => exact h
  | unquote hm _ => exact (h.take (by simp [hm]) _ hin c).close (by simp) (by simp) _
  | backslash hm _ => exact h.take (by simp [hm]) _ hin c
  | plain hm _ _ => exact h.take (by simp [hm]) _ hin c
  | escaped hm => exact h.take (by simp [hm]) _ hin c

theorem rising_run {text : List Char} (h : '\n' ∉ text) : Rising (init.run text) := by
  refine run_induction (P := fun read s => '\n' ∉ read → Rising s) (fun _ => rising_init) ?_ text h
  intro read c s' ih hm hn
  rw [List.mem_append, not_or, List.mem_singleton] at hn
  exact (ih hn.1).move (Ne.symm hn.2) hm

end Scanner

/-- On one line the columns of the tokens grow, and the first is 0. -/
theorem columns_of_oneLine {text : List Char} (h : '\n' ∉ text) :
    ((tokenize text).map Token.column).Pairwise (· < ·) ∧
      ∀ t, (tokenize text).head? = some t → t.column = 0 := by
  have hr := Scanner.rising_run h
  have hp : (tokenize text).map Token.column <+: (Scanner.init.run text).marks :=
    Scanner.columns_tokens_isPrefix (Scanner.init.run text)
  refine ⟨hr.marks.sublist hp.sublist, fun t ht => ?_⟩
  have hhead : ((tokenize text).map Token.column).head? = some t.column := by
    rw [List.head?_map, ht]
    rfl
  obtain ⟨more, hmore⟩ := hp
  have hfirst : (Scanner.init.run text).marks.head? = some 0 := hr.first
  rw [← hmore, List.head?_append, hhead] at hfirst
  exact Option.some.inj hfirst

/-! ### Columns in source order -/

namespace Piece

def column? : Piece → Option Nat
  | space _ => none
  | atom _ column | opening column | closing column => some column

def columns (ps : List Piece) : List Nat := ps.filterMap column?

@[simp] theorem columns_append (ps qs : List Piece) :
    columns (ps ++ qs) = columns ps ++ columns qs :=
  List.filterMap_append

@[simp] theorem columns_cons (p : Piece) (ps : List Piece) :
    columns (p :: ps) = p.column?.toList ++ columns ps := by
  cases h : p.column? <;> simp [columns, h]

@[simp] theorem columns_blanks (text : List Char) : columns (blanks text) = [] := by
  unfold blanks
  split <;> rfl

@[simp] theorem columns_closings (closing : Option Nat) :
    columns (closings closing) = closing.toList := by
  cases closing <;> rfl

theorem columns_filter (ps : List Piece) : columns (ps.filter isMark) = columns ps := by
  induction ps with
  | nil => rfl
  | cons p ps ih =>
    rw [List.filter_cons]
    cases p <;> simp [isMark, column?, ih]

theorem columns_tokens (ts : List Token) :
    (columns (ts.map Token.piece)).Sublist (ts.map Token.column) := by
  induction ts with
  | nil => exact List.Sublist.slnil
  | cons t ts ih =>
    have ht : t.piece.column?.toList.Sublist [t.column] := by
      unfold Token.piece Token.pieceAt
      split <;> simp [column?]
    rw [List.map_cons, columns_cons]
    exact ht.append ih

end Piece

namespace Form

theorem column_mem_pieces (f : Form) : f.column ∈ Piece.columns f.pieces := by
  cases f <;> simp [pieces, Piece.column?, column]

theorem pieces_sublist {f : Form} : ∀ {fs : List Form}, f ∈ fs →
    (f.pieces).Sublist (piecesAll fs)
  | g :: gs, h => by
    rw [piecesAll]
    rcases List.mem_cons.1 h with rfl | h
    · exact List.sublist_append_left _ _
    · exact (pieces_sublist h).trans (List.sublist_append_right _ _)

/-- If the columns in a list grow in source order, up to its closing, then they
grow in each of its forms, and its forms keep to its bounds. -/
theorem bounds_of_pairwise {fs : List Form} {closing : Option Nat}
    (h : (Piece.columns (piecesAll fs) ++ closing.toList).Pairwise (· < ·)) :
    ∀ f ∈ fs, (Piece.columns f.pieces).Pairwise (· < ·) ∧
      (∀ g, fs.head? = some g → g.column ≤ f.column) ∧ ∀ k, closing = some k → f.column ≤ k := by
  obtain ⟨hfs, -, hclosing⟩ := List.pairwise_append.1 h
  intro f hf
  have hsub : (Piece.columns f.pieces).Sublist (Piece.columns (piecesAll fs)) :=
    (pieces_sublist hf).filterMap _
  refine ⟨hfs.sublist hsub, fun g hg => ?_, fun k hk => ?_⟩
  · obtain ⟨gs, rfl⟩ := List.head?_eq_some_iff.1 hg
    rcases List.mem_cons.1 hf with rfl | hf
    · exact Nat.le_refl _
    · rw [piecesAll, Piece.columns_append, List.pairwise_append] at hfs
      exact Nat.le_of_lt (hfs.2.2 _ g.column_mem_pieces _
        (((pieces_sublist hf).filterMap _).subset f.column_mem_pieces))
  · exact Nat.le_of_lt (hclosing _ (hsub.subset f.column_mem_pieces) k (by simp [hk]))

/-- If the columns in a form grow in source order, it is indented, unless it is
an atom that is not right of the form it is in. -/
theorem isIndentedUnder_of_pairwise {f : Form} (h : (Piece.columns f.pieces).Pairwise (· < ·))
    {parent : Nat} (hp : f.isList = false → parent < f.column) :
    f.isIndentedUnder parent = true := by
  induction f generalizing parent with
  | atom space column label => exact (isIndentedUnder_atom _ _ _ _).2 (hp rfl)
  | list space column fs closing ih =>
    simp only [pieces, Piece.columns_append, Piece.columns_blanks, Piece.columns_cons,
      Piece.columns_closings, Piece.column?, Option.toList_some, List.nil_append,
      List.singleton_append, List.pairwise_cons] at h
    obtain ⟨hlt, hrest⟩ := h
    rw [isIndentedUnder_list]
    intro f hf
    obtain ⟨hgrow, hbounds⟩ := bounds_of_pairwise hrest f hf
    refine ⟨ih f hf hgrow fun _ => ?_, hbounds⟩
    have hmem : f.column ∈ Piece.columns (piecesAll fs) :=
      ((pieces_sublist hf).filterMap _).subset f.column_mem_pieces
    exact hlt _ (List.mem_append_left _ hmem)

end Form

/-! ### Roots -/

theorem Token.isAtom_iff {t : Token} :
    t.IsAtom ↔ t.kind = .atom ∨ t.kind = .literal ∨ t.kind = .unterminated := by
  unfold IsAtom
  cases t.kind <;> simp

theorem Token.isAtom_of_piece {t : Token} {label : List Char} {column : Nat}
    (h : t.piece = .atom label column) : t.IsAtom ∧ t.column = column := by
  rw [isAtom_iff]
  unfold piece pieceAt at h
  cases hk : t.kind with
  | space | leftParen | rightParen => rw [hk] at h; cases h
  | literal | unterminated | atom => rw [hk] at h; cases h; exact ⟨by simp, rfl⟩

theorem columns_rootPieces (ts : List Token) :
    (Piece.columns (build ts).rootPieces).Sublist (ts.map Token.column) := by
  obtain ⟨used, hused, hpieces⟩ := rootPieces_build ts
  rw [← Piece.columns_filter, hpieces, Piece.columns_filter]
  exact (Piece.columns_tokens used).trans (hused.sublist.map _)

theorem columns_build {ts : List Token} (h : (ts.map Token.column).Pairwise (· < ·)) :
    (Piece.columns (build ts).rootPieces).Pairwise (· < ·) :=
  h.sublist (columns_rootPieces ts)

theorem exists_token_of_atom {ts : List Token} {f : Form} (hf : f ∈ (build ts).children)
    (ha : f.isList = false) : ∃ t ∈ ts, t.IsAtom ∧ t.column = f.column := by
  cases f with
  | list _ _ _ _ => cases ha
  | atom space column label =>
    obtain ⟨used, hused, hpieces⟩ := rootPieces_build ts
    have hroot : Piece.atom label column ∈ (build ts).rootPieces :=
      List.mem_append_left _ ((Form.pieces_sublist hf).subset (by simp [Form.pieces]))
    have hmem : Piece.atom label column ∈ (used.map Token.piece).filter Piece.isMark := by
      rw [← hpieces]
      exact List.mem_filter.2 ⟨hroot, rfl⟩
    obtain ⟨t, ht, hp⟩ := List.mem_map.1 (List.mem_filter.1 hmem).1
    exact ⟨t, hused.subset ht, Token.isAtom_of_piece hp⟩

/-- Tokens whose columns grow build an indented root if the first of them is no
atom: all others are right of column 0. -/
theorem isIndented_build {ts : List Token} (h : (ts.map Token.column).Pairwise (· < ·))
    (hfirst : ∀ t, ts.head? = some t → ¬ t.IsAtom) : (build ts).isIndented = true := by
  have hgrow := columns_build h
  rw [Form.rootPieces, Piece.columns_append, Piece.columns_closings] at hgrow
  rw [(rooted_build ts).shape, Form.isIndented, Form.isIndentedUnder_list]
  intro f hf
  obtain ⟨hf', hbounds⟩ := Form.bounds_of_pairwise hgrow f hf
  refine ⟨Form.isIndentedUnder_of_pairwise hf' fun ha => ?_, hbounds⟩
  obtain ⟨t, ht, hatom, hcol⟩ := exists_token_of_atom hf ha
  obtain ⟨u, us, rfl⟩ := List.exists_cons_of_ne_nil (List.ne_nil_of_mem ht)
  rcases List.mem_cons.1 ht with rfl | ht
  · exact absurd hatom (hfirst t rfl)
  · rw [List.map_cons, List.pairwise_cons] at h
    calc 0 ≤ u.column := Nat.zero_le _
      _ < t.column := h.1 _ (List.mem_map_of_mem ht)
      _ = f.column := hcol

/-- An atom at column 0 that comes first is not right of the root, whatever
tokens follow. -/
theorem not_isIndented_build {t : Token} (ha : t.IsAtom) (hc : t.column = 0) (ts : List Token) :
    (build (t :: ts)).isIndented = false := by
  by_contra hne
  rw [Bool.not_eq_false, build, Built.ofTokens, Builder.run, Builder.feed_atom ha] at hne
  have hsound := (Builder.soundFrom_add _ _ _).1 (Builder.sound_of_run ts _ hne)
  have hlt := (Form.isIndentedUnder_atom _ _ _ _).1 hsound.2.1
  rw [hc] at hlt
  exact Nat.not_lt_zero _ hlt

/-- **A text of one line is rejected exactly if its first token is an atom**, a
literal or one left open counting as atoms. Nothing else matters: neither
comments, nor lists left open or nested too deep, nor a `)` without its `(`. -/
theorem oneLine_rejected_iff {text : List Char} (h : '\n' ∉ text) :
    Verdict.lenient text = false ↔
      ∃ t, (tokenize text).head? = some t ∧
        (t.kind = .atom ∨ t.kind = .literal ∨ t.kind = .unterminated) := by
  obtain ⟨hgrow, hzero⟩ := columns_of_oneLine h
  simp only [← Token.isAtom_iff]
  constructor
  · intro hrejected
    by_contra hno
    have hpass : Verdict.lenient text = true :=
      isIndented_build hgrow fun t ht ha => hno ⟨t, ht, ha⟩
    rw [hrejected] at hpass
    cases hpass
  · rintro ⟨t, ht, ha⟩
    obtain ⟨ts, hts⟩ := List.head?_eq_some_iff.1 ht
    rw [Verdict.lenient, hts]
    exact not_isIndented_build ha (hzero t ht) ts

/-- A literal left open comes first; and blanks come first, before an atom and
a list left open, with a literal left open in it. -/
theorem oneLine_rejected_iff_first :
    '\n' ∉ ['"', '(', ')'] ∧ Verdict.lenient ['"', '(', ')'] = false ∧
      '\n' ∉ [' ', 'a', '(', '"', ';'] ∧ Verdict.lenient [' ', 'a', '(', '"', ';'] = true := by
  have hq : '\n' ∉ ['"', '(', ')'] := by decide
  have hs : '\n' ∉ [' ', 'a', '(', '"', ';'] := by decide
  refine ⟨hq, ?_, hs, ?_⟩
  · exact (oneLine_rejected_iff hq).2 ⟨⟨.unterminated, ['"', '(', ')'], 0⟩, by decide, by decide⟩
  · by_contra hne
    obtain ⟨t, ht, hk⟩ := (oneLine_rejected_iff hs).1 (Bool.not_eq_true _ ▸ hne)
    obtain rfl : t = ⟨.space, [' '], 0⟩ := Option.some.inj (ht.symm.trans (by decide))
    revert hk
    decide

end ParenLint
