/-
# Columns in machine words

A character moves a column by at most a tab width, so after `n` characters no
column is over `tabWidth * n` (`Scanner.Bounded`): neither the running column
nor the mark, and so no column of a token. Forms have the columns of tokens,
but for the root at column 0, and an error is reported at the column of a
token.

Columns that are kept in words of 64 bits are computed with the same
operations on words (`Word.advance`), which give the same as long as nothing
on the way is too large for a word. What is on the way from a column to the
next one (`Column.passes`, of which the next one is the last) is at most a tab
width over it, and below `2 ^ 64` for texts of less than `2 ^ 61` characters.
So there a scanner that computes in words (`Scanner.stepWith`, `Column.words`)
is in the same state as the other after every character.

Key definitions: `Scanner.Bounded`, `Column.passes`, `Column.words`,
`scanWith`.
Key theorems: `Column.getLast_passes`, `Scanner.bounded_run`,
`allColumns_build`, `fault_column`, `Column.words_agree`,
`Scanner.runWith_eq`, `columns_fit`.
-/
import ParenLint.Proofs.Consumption
import ParenLint.Proofs.OneLine
import Mathlib.Algebra.Group.Nat.Defs

namespace ParenLint

open Column Nesting

/-! ### Bounds on columns -/

namespace Column

/-- What is computed on the way from `column` to the column after `c`, in a
literal or not. -/
def passes (column : Nat) (c : Char) : List Nat :=
  if c = '\t' then [column / tabWidth, column / tabWidth + 1, nextStop column] else [column + 1]

/-- What is on the way to the next column is at most a tab width over this
one. -/
theorem le_of_mem_passes {column : Nat} {c : Char} :
    ∀ i ∈ passes column c, i ≤ column + tabWidth := by
  have hstop := nextStop_le column
  have hdiv : column / tabWidth ≤ column := Nat.div_le_self _ _
  unfold passes
  split_ifs
  · simp only [List.forall_mem_cons, List.not_mem_nil, false_imp_iff, implies_true, and_true]
    simp only [tabWidth] at *
    omega
  · simp [tabWidth]

/-- The way leads to the column after `c` in a literal. -/
theorem getLast_passes (column : Nat) (c : Char) :
    (passes column c).getLast? = some (advanceInLiteral column c) := by
  unfold passes advanceInLiteral
  split_ifs <;> rfl

/-- Outside literals only a line feed does not go that way. -/
theorem advance_eq_advanceInLiteral {c : Char} (h : c ≠ '\n') (column : Nat) :
    advance column c = advanceInLiteral column c := by
  rw [advance, if_neg h, advanceInLiteral]

theorem advanceInLiteral_mem_passes (column : Nat) (c : Char) :
    advanceInLiteral column c ∈ passes column c :=
  List.mem_of_getLast? (getLast_passes column c)

theorem advance_mem_passes (column : Nat) (c : Char) :
    advance column c = 0 ∨ advance column c ∈ passes column c := by
  by_cases hc : c = '\n'
  · exact Or.inl (if_pos hc)
  · rw [advance_eq_advanceInLiteral hc]
    exact Or.inr (advanceInLiteral_mem_passes column c)

theorem advance_le (column : Nat) (c : Char) : advance column c ≤ column + tabWidth := by
  rcases advance_mem_passes column c with h | h
  · rw [h]; exact Nat.zero_le _
  · exact le_of_mem_passes _ h

theorem advanceInLiteral_le (column : Nat) (c : Char) :
    advanceInLiteral column c ≤ column + tabWidth :=
  le_of_mem_passes _ (advanceInLiteral_mem_passes column c)

end Column

namespace Scanner

structure Bounded (bound : Nat) (s : Scanner) : Prop where
  column : s.column ≤ bound
  mark : s.mark ≤ bound
  done : ∀ x ∈ s.done, x.token.column ≤ bound

variable {bound : Nat} {s s' : Scanner}

theorem Bounded.mono (h : Bounded bound s) {bound' : Nat} (hle : bound ≤ bound') :
    Bounded bound' s where
  column := Nat.le_trans h.column hle
  mark := Nat.le_trans h.mark hle
  done := fun x hx => Nat.le_trans (h.done x hx) hle

theorem Bounded.close (h : Bounded bound s) (kind : Token.Kind) : Bounded bound (s.close kind) where
  column := h.column
  mark := h.column
  done := by
    intro x hx
    rcases List.mem_cons.1 hx with rfl | hx
    · exact h.mark
    · exact h.done x hx

theorem Bounded.finish (h : Bounded bound s) : Bounded bound s.finish := by
  rw [finish_eq]
  split
  · exact h
  · exact h.close _

theorem Bounded.turnTo (h : Bounded bound s) (mode : Mode) : Bounded bound (s.turnTo mode) :=
  turnTo_ind mode h h.finish

theorem Bounded.take (h : Bounded bound s) (mode : Mode) {column : Nat} (hc : column ≤ bound)
    (c : Char) : Bounded bound (s.take mode column c) where
  column := hc
  mark := h.mark
  done := h.done

theorem Bounded.move {c : Char} (h : Bounded bound s) (hm : Move s c s') :
    Bounded (bound + tabWidth) s' := by
  have hs : Bounded (bound + tabWidth) s := h.mono (Nat.le_add_right _ _)
  have hout : advance s.column c ≤ bound + tabWidth :=
    Nat.le_trans (advance_le s.column c) (Nat.add_le_add_right h.column _)
  have hin : advanceInLiteral s.column c ≤ bound + tabWidth :=
    Nat.le_trans (advanceInLiteral_le s.column c) (Nat.add_le_add_right h.column _)
  cases hm with
  | blank _ _ => exact (hs.turnTo _).take _ hout c
  | semicolon _ _ =>
    have hturn := hs.turnTo .gap
    exact ⟨Nat.zero_le _, hturn.mark, hturn.done⟩
  | paren _ _ => exact (hs.finish.take _ hout c).close _
  | quote _ _ => exact hs.finish.take _ hin c
  | atom _ _ => exact (hs.turnTo _).take _ hout c
  | lineEnd _ _ => exact hs.take _ hout c
  | skip _ _ => exact hs
  | unquote _ _ => exact (hs.take _ hin c).close _
  | backslash _ _ => exact hs.take _ hin c
  | plain _ _ _ => exact hs.take _ hin c
  | escaped _ => exact hs.take _ hin c

theorem bounded_run (text : List Char) : Bounded (tabWidth * text.length) (init.run text) := by
  refine run_induction (P := fun read s => Bounded (tabWidth * read.length) s) ?_ ?_ text
  · exact ⟨Nat.zero_le _, Nat.zero_le _, fun x hx => absurd hx List.not_mem_nil⟩
  · intro read c s' h hm
    rw [List.length_append, List.length_singleton, Nat.mul_add, Nat.mul_one]
    exact h.move hm

end Scanner

theorem column_tokenize_le {text : List Char} {t : Token} (ht : t ∈ tokenize text) :
    t.column ≤ tabWidth * text.length := by
  obtain ⟨x, hx, rfl⟩ := List.mem_map.1 ht
  exact (Scanner.bounded_run text).finish.done x (List.mem_reverse.1 hx)

/-! ### Columns of forms and of errors -/

namespace Form

theorem allColumns_of_pieces {P : Nat → Prop} {f : Form}
    (h : ∀ i ∈ Piece.columns f.pieces, P i) : f.AllColumns P := by
  induction f with
  | atom space column label => exact allColumns_atom.2 (h column (by simp [pieces, Piece.column?]))
  | list space column fs closing ih =>
    rw [allColumns_list]
    refine ⟨h column (by simp [pieces, Piece.column?]), fun k hk => ?_, fun f hf => ?_⟩
    · exact h k (by simp [pieces, Piece.column?, hk])
    · refine ih f hf fun i hi => h i ?_
      have hmem : i ∈ Piece.columns (piecesAll fs) := ((pieces_sublist hf).filterMap _).subset hi
      simp [pieces, Piece.column?, hmem]

end Form

/-- The columns in a root are columns of tokens, but for that of the root
itself. -/
theorem allColumns_build (ts : List Token) :
    (build ts).AllColumns fun i => i = 0 ∨ ∃ t ∈ ts, t.column = i := by
  have hcolumns : ∀ i ∈ Piece.columns (build ts).rootPieces, ∃ t ∈ ts, t.column = i :=
    fun i hi => List.mem_map.1 ((columns_rootPieces ts).subset hi)
  rw [Form.rootPieces, Piece.columns_append, Piece.columns_closings] at hcolumns
  rw [(rooted_build ts).shape, Form.allColumns_list]
  refine ⟨Or.inl rfl, fun k hk => Or.inr ?_, fun f hf => Form.allColumns_of_pieces fun i hi =>
    Or.inr ?_⟩
  · exact hcolumns k (List.mem_append_right _ (by simp [hk]))
  · exact hcolumns i (List.mem_append_left _ (((Form.pieces_sublist hf).filterMap _).subset hi))

theorem fault_column {ts : List Token} {e : StructureError} (h : fault? ts = some e) :
    ∃ t ∈ ts, t.column = e.column := by
  cases hu : ts.find? (·.kind = .unterminated) with
  | some t =>
    rw [fault?, hu] at h
    cases h
    exact ⟨t, List.mem_of_find?_eq_some hu, rfl⟩
  | none =>
    have hterm : ∀ t ∈ ts, t.kind ≠ .unterminated := by simpa using hu
    rw [fault_of_terminated hterm] at h
    cases hs : stop? ts with
    | some t =>
      obtain ⟨before, rest, rfl, -⟩ := unread_of_stop hs
      refine ⟨t, by simp, ?_⟩
      rcases fault_of_stop hs with ⟨-, hf⟩ | ⟨-, hf⟩ <;> rw [hf] at h <;> cases h <;> rfl
    | none =>
      by_cases hd : depth 0 ts = 0
      · rw [fault_of_balanced hs hd] at h
        cases h
      · obtain ⟨t, ⟨before, after, rfl, -⟩, hf⟩ := fault_of_unclosed hs (Nat.pos_of_ne_zero hd)
        rw [hf] at h
        cases h
        exact ⟨t, by simp, rfl⟩

/-! ### Arithmetic on words -/

namespace Column

def wordBound : Nat := 2 ^ 64

namespace Word

def nextStop (column : UInt64) : UInt64 :=
  (column / UInt64.ofNat tabWidth + 1) * UInt64.ofNat tabWidth

def advance (column : UInt64) (c : Char) : UInt64 :=
  if c = '\n' then 0
  else if c = '\t' then nextStop column
  else column + 1

def advanceInLiteral (column : UInt64) (c : Char) : UInt64 :=
  if c = '\t' then nextStop column else column + 1

theorem toNat_nextStop {w : UInt64} (h : Column.nextStop w.toNat < wordBound) :
    (nextStop w).toNat = Column.nextStop w.toNat := by
  simp only [Column.nextStop, wordBound, tabWidth] at *
  simp [nextStop, tabWidth]
  omega

theorem toNat_succ {w : UInt64} (h : w.toNat + 1 < wordBound) : (w + 1).toNat = w.toNat + 1 := by
  rw [UInt64.toNat_add]
  exact Nat.mod_eq_of_lt h

theorem toNat_advance {w : UInt64} {c : Char} (h : Column.advance w.toNat c < wordBound) :
    (advance w c).toNat = Column.advance w.toNat c := by
  unfold advance
  unfold Column.advance at h ⊢
  split_ifs at h ⊢
  · rfl
  · exact toNat_nextStop h
  · exact toNat_succ h

theorem toNat_advanceInLiteral {w : UInt64} {c : Char}
    (h : Column.advanceInLiteral w.toNat c < wordBound) :
    (advanceInLiteral w c).toNat = Column.advanceInLiteral w.toNat c := by
  unfold advanceInLiteral
  unfold Column.advanceInLiteral at h ⊢
  split_ifs at h ⊢
  · exact toNat_nextStop h
  · exact toNat_succ h

end Word

/-- Columns are words, and so is what is computed on the way. -/
def words : Arithmetic where
  advance := fun column c => (Word.advance (UInt64.ofNat column) c).toNat
  advanceInLiteral := fun column c => (Word.advanceInLiteral (UInt64.ofNat column) c).toNat

/-- Words give the right columns as long as nothing on the way is too large. -/
theorem words_agree {column : Nat} {c : Char} (hc : column < wordBound)
    (h : ∀ i ∈ passes column c, i < wordBound) :
    words.advance column c = advance column c ∧
      words.advanceInLiteral column c = advanceInLiteral column c := by
  have hw : (UInt64.ofNat column).toNat = column := UInt64.toNat_ofNat_of_lt' hc
  have hout : advance column c < wordBound := by
    rcases advance_mem_passes column c with h0 | hmem
    · rw [h0]; decide
    · exact h _ hmem
  have hin : advanceInLiteral column c < wordBound := h _ (advanceInLiteral_mem_passes column c)
  rw [← hw] at hout hin
  refine ⟨(Word.toNat_advance hout).trans ?_, (Word.toNat_advanceInLiteral hin).trans ?_⟩
  · rw [hw]
  · rw [hw]

end Column

/-! ### Scanning with words -/

namespace Scanner

/-- How columns are computed matters at the column of the character only. -/
theorem stepWith_congr {a b : Arithmetic} {s : Scanner} {c : Char}
    (h : a.advance s.column c = b.advance s.column c ∧
      a.advanceInLiteral s.column c = b.advanceInLiteral s.column c) :
    s.stepWith a c = s.stepWith b c := by
  simp only [stepWith, stepCode, stepLiteral, h.1, h.2]

def runWith (a : Arithmetic) (s : Scanner) (cs : List Char) : Scanner := cs.foldl (stepWith a) s

theorem runWith_eq {a : Arithmetic} {text : List Char}
    (h : ∀ read c rest, text = read ++ c :: rest →
      a.advance (init.run read).column c = Column.advance (init.run read).column c ∧
        a.advanceInLiteral (init.run read).column c =
          Column.advanceInLiteral (init.run read).column c) :
    runWith a init text = init.run text := by
  induction text using List.reverseRecOn with
  | nil => rfl
  | append_singleton read c ih =>
    have hread : runWith a init read = init.run read :=
      ih fun read' d rest hd => h read' d (rest ++ [c]) (by rw [hd]; simp)
    have hstep : (init.run read).stepWith a c = (init.run read).step c :=
      stepWith_congr (h read c [] rfl)
    calc runWith a init (read ++ [c])
        = (runWith a init read).stepWith a c := by rw [runWith, List.foldl_append]; rfl
      _ = (init.run read).step c := by rw [hread, hstep]
      _ = init.run (read ++ [c]) := by rw [run_append]; rfl

end Scanner

def scanWith (a : Arithmetic) (text : List Char) : List Lexeme :=
  (Scanner.runWith a .init text).finish.done.reverse

def tokenizeWith (a : Arithmetic) (text : List Char) : List Token :=
  (scanWith a text).map Lexeme.token

theorem passes_lt {text : List Char} (h : text.length < 2 ^ 61) {read rest : List Char} {c : Char}
    (hsplit : text = read ++ c :: rest) :
    (Scanner.init.run read).column < wordBound ∧
      ∀ i ∈ passes (Scanner.init.run read).column c, i < wordBound := by
  have hcolumn := (Scanner.bounded_run read).column
  have hlength : read.length < text.length := by simp [hsplit]
  simp only [wordBound, tabWidth] at *
  refine ⟨by omega, fun i hi => ?_⟩
  have hle := le_of_mem_passes i hi
  simp only [tabWidth] at hle
  omega

theorem scanWith_words {text : List Char} (h : text.length < 2 ^ 61) :
    scanWith words text = scan text := by
  have hrun : Scanner.runWith words .init text = Scanner.init.run text := by
    refine Scanner.runWith_eq fun read c rest hsplit => ?_
    obtain ⟨hcolumn, hpasses⟩ := passes_lt h hsplit
    exact words_agree hcolumn hpasses
  rw [scanWith, hrun, scan]

/-- **Columns fit in words.** After any part of a text, the columns of the
scanner are at most a tab width for each character of that part, skipped ones
included; and so are the columns of tokens, forms and errors for the whole
text. So nothing that is computed for a text of less than `2 ^ 61` characters
is too large for a word of 64 bits, and with columns in words it has the same
tokens, forms, errors and verdict. -/
theorem columns_fit (text : List Char) :
    (∀ read rest, text = read ++ rest →
        (Scanner.init.run read).column ≤ tabWidth * read.length ∧
          (Scanner.init.run read).mark ≤ tabWidth * read.length ∧
          (Scanner.init.run read).finish.mark ≤ tabWidth * read.length) ∧
      (∀ t ∈ tokenize text, t.column ≤ tabWidth * text.length) ∧
      (build (tokenize text)).AllColumns (· ≤ tabWidth * text.length) ∧
      (∀ e, parse text = .error e → e.column ≤ tabWidth * text.length) ∧
      (text.length < 2 ^ 61 →
        (∀ read c rest, text = read ++ c :: rest →
          ∀ i ∈ passes (Scanner.init.run read).column c, i < 2 ^ 64) ∧
        scanWith words text = scan text ∧
        build (tokenizeWith words text) = build (tokenize text) ∧
        fault? (tokenizeWith words text) = fault? (tokenize text) ∧
        (build (tokenizeWith words text)).isIndented = Verdict.lenient text) := by
  refine ⟨fun read rest _ => ?_, fun t ht => column_tokenize_le ht, ?_, fun e he => ?_, fun h => ?_⟩
  · have hbounded := Scanner.bounded_run read
    exact ⟨hbounded.column, hbounded.mark, hbounded.finish.mark⟩
  · intro g hg
    obtain ⟨hcolumn, hclosing⟩ := allColumns_build (tokenize text) g hg
    have hle : ∀ i, (i = 0 ∨ ∃ t ∈ tokenize text, t.column = i) → i ≤ tabWidth * text.length := by
      rintro i (rfl | ⟨t, ht, rfl⟩)
      · exact Nat.zero_le _
      · exact column_tokenize_le ht
    exact ⟨hle _ hcolumn, fun k hk => hle k (hclosing k hk)⟩
  · obtain ⟨t, ht, hc⟩ := fault_column (fault_of_parse he)
    exact hc ▸ column_tokenize_le ht
  · have hscan := scanWith_words h
    have htokens : tokenizeWith words text = tokenize text := by rw [tokenizeWith, hscan, tokenize]
    refine ⟨fun read c rest hsplit => (passes_lt h hsplit).2, hscan, ?_, ?_, ?_⟩
    · rw [htokens]
    · rw [htokens]
    · rw [htokens, Verdict.lenient]

/-- The next tab stop right of the last column that a word holds is not in a
word: computed in words it is 0. -/
example : (Word.advance (UInt64.ofNat (2 ^ 64 - 1)) '\t').toNat = 0 ∧
    (2 ^ 64 - 1) ∈ passes (2 ^ 64 - 2) 'a' ∧ 2 ^ 64 ∈ passes (2 ^ 64 - 1) '\t' := by decide

end ParenLint
