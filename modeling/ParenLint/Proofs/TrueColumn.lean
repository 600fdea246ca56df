/-
# Recorded columns are true columns

The true column of a place in a text counts every character before it,
comments included: each is one column, but for tabs and for line feeds
outside literals (`trueColumn`). The scanner does not count comments, and the
column in a token is where the token before it ended, not where it begins
itself. Both come to the same because a comment is followed by a line feed or
by nothing: a token other than blanks never begins right after one, and the
line feed puts the count back to 0 whatever it was.

To say at which place a token begins, its first character is looked up in the
text: the characters that are in no comment are those of the tokens in order,
so the place is that of the character with as many such characters before it
as the tokens before have (`startOf`, `endBefore`).

The invariant is `Scanner.Placed`: the running column is the true one outside
comments, the mark is the true column at the end of the last finished token,
an open token other than blanks begins there, and the finished tokens are
where they should be. A form takes its columns from its tokens unchanged, so
those are true columns as well.

Key definitions: `trueColumn`, `offset`, `startOf`, `endBefore`,
`Scanner.Placed`, `trueMarks`.
Key theorems: `Scanner.placed_run`, `placedAt_tokenize`, `columns_true`.
-/
import ParenLint.Proofs.Region
import ParenLint.Proofs.UsedTokens
import Mathlib.Data.List.Infix

namespace ParenLint

open Region

/-! ### The true column -/

namespace Region

/-- Whether the character `c` belongs to a literal, its quotes included. -/
def inLiteral : Region → Char → Bool
  | code, c => c = '"'
  | literal, _ => true
  | escape, _ => true
  | comment, _ => false

/-- The column after the character `c`: in a literal a line feed is one
column. -/
def advance (r : Region) (column : Nat) (c : Char) : Nat :=
  if r.inLiteral c ∧ c = '\n' then column + 1 else Column.advance column c

theorem advance_inLiteral {r : Region} {c : Char} (h : r.inLiteral c = true) (column : Nat) :
    r.advance column c = Column.advanceInLiteral column c := by
  by_cases hn : c = '\n'
  · subst hn
    simp [advance, h, Column.advanceInLiteral]
  · simp [advance, hn, Column.advance, Column.advanceInLiteral]

theorem advance_outside {r : Region} {c : Char} (h : r.inLiteral c = false) (column : Nat) :
    r.advance column c = Column.advance column c := by
  simp [advance, h]

end Region

def columnFrom (r : Region) (column : Nat) : List Char → Nat
  | [] => column
  | c :: cs => columnFrom (r.next c) (r.advance column c) cs

/-- The column after the text `before`, every character counted. -/
def trueColumn (before : List Char) : Nat := columnFrom .code 0 before

theorem columnFrom_append : ∀ (cs : List Char) (r : Region) (column : Nat) (ds : List Char),
    columnFrom r column (cs ++ ds) = columnFrom (r.after cs) (columnFrom r column cs) ds
  | [], _, _, _ => rfl
  | _ :: cs, _, _, ds => columnFrom_append cs _ _ ds

theorem trueColumn_snoc (read : List Char) (c : Char) :
    trueColumn (read ++ [c]) = (after .code read).advance (trueColumn read) c := by
  rw [trueColumn, columnFrom_append]
  rfl

/-! ### Places in a text -/

/-- How many characters stand before the one that has `n` characters outside
comments before it, and is outside comments itself. -/
def offset (r : Region) (n : Nat) : List Char → Nat
  | [] => 0
  | c :: cs =>
    if r.keeps c then
      match n with
      | 0 => 0
      | n + 1 => offset (r.next c) n cs + 1
    else offset (r.next c) n cs + 1

/-- How many characters stand up to the end of the first `n` outside
comments. -/
def ending (text : List Char) : Nat → Nat
  | 0 => 0
  | n + 1 => offset .code n text + 1

def lengthBefore (text : List Char) (i : Nat) : Nat :=
  (((tokenize text).take i).flatMap Token.text).length

def startOf (text : List Char) (i : Nat) : Nat := offset .code (lengthBefore text i) text

/-- How many characters of a text stand up to the end of the token before
number `i`; none if that is the first. -/
def endBefore (text : List Char) (i : Nat) : Nat := ending text (lengthBefore text i)

/-- The text goes on after `before` with a character outside comments, the
one with `n` such characters before it. -/
def Begins (text : List Char) (n : Nat) (before : List Char) : Prop :=
  ∃ c rest, text = before ++ c :: rest ∧ (after .code before).keeps c = true ∧
    (strip .code before).length = n

def Ends (text : List Char) (n : Nat) (before : List Char) : Prop :=
  (n = 0 ∧ before = []) ∨
    ∃ b c rest, text = b ++ c :: rest ∧ (after .code b).keeps c = true ∧
      (strip .code b).length + 1 = n ∧ before = b ++ [c]

theorem Begins.append {read before : List Char} {n : Nat} (h : Begins read n before)
    (ds : List Char) : Begins (read ++ ds) n before := by
  obtain ⟨c, rest, rfl, hk, hn⟩ := h
  exact ⟨c, rest ++ ds, by simp, hk, hn⟩

theorem Ends.append {read before : List Char} {n : Nat} (h : Ends read n before)
    (ds : List Char) : Ends (read ++ ds) n before := by
  rcases h with h | ⟨b, c, rest, rfl, hk, hn, hb⟩
  · exact Or.inl h
  · exact Or.inr ⟨b, c, rest ++ ds, by simp, hk, hn, hb⟩

theorem Ends.isPrefix {text before : List Char} {n : Nat} (h : Ends text n before) :
    before <+: text := by
  rcases h with ⟨-, rfl⟩ | ⟨b, c, rest, rfl, -, -, rfl⟩
  · exact List.nil_prefix
  · exact ⟨rest, by simp⟩

theorem Ends.length_strip {text before : List Char} {n : Nat} (h : Ends text n before) :
    (strip .code before).length = n := by
  rcases h with ⟨rfl, rfl⟩ | ⟨b, c, rest, rfl, hk, rfl, rfl⟩
  · rfl
  · simp [strip_append, strip_singleton, hk]

theorem offset_append : ∀ (before : List Char) (r : Region) (c : Char) (rest : List Char),
    (r.after before).keeps c = true →
    offset r (strip r before).length (before ++ c :: rest) = before.length
  | [], r, c, rest, h => by
    have hk : r.keeps c = true := h
    simp [offset, hk]
  | b :: before, r, c, rest, h => by
    have ih := offset_append before (r.next b) c rest h
    by_cases hb : r.keeps b = true
    · simp [offset, strip, hb, ih]
    · simp [offset, strip, hb, ih]

theorem Begins.take_offset {text before : List Char} {n : Nat} (h : Begins text n before) :
    text.take (offset .code n text) = before := by
  obtain ⟨c, rest, rfl, hk, rfl⟩ := h
  rw [offset_append before .code c rest hk, List.take_left]

theorem Ends.take_ending {text before : List Char} {n : Nat} (h : Ends text n before) :
    text.take (ending text n) = before := by
  rcases h with ⟨rfl, rfl⟩ | ⟨b, c, rest, rfl, hk, rfl, rfl⟩
  · rfl
  · have hlen : ending (b ++ c :: rest) ((strip .code b).length + 1) = (b ++ [c]).length := by
      rw [ending, offset_append b .code c rest hk, List.length_append]
      rfl
    have htext : b ++ c :: rest = (b ++ [c]) ++ rest := by simp
    rw [hlen, htext, List.take_left]

theorem keeps_of_after_ne {b : List Char} {c : Char} (h : after .code (b ++ [c]) ≠ .comment) :
    (after .code b).keeps c = true := by
  by_contra hk
  rw [after_append] at h
  exact h (next_of_not_keeps (by simpa using hk))

theorem ends_self {read : List Char} (hc : after .code read ≠ .comment)
    (hne : strip .code read ≠ []) : Ends read (strip .code read).length read := by
  rcases List.eq_nil_or_concat read with rfl | ⟨b, c, rfl⟩
  · exact absurd rfl hne
  · rw [List.concat_eq_append] at hc ⊢
    have hk := keeps_of_after_ne hc
    refine Or.inr ⟨b, c, [], rfl, hk, ?_, rfl⟩
    simp [strip_append, strip_singleton, hk]

/-! ### Where the scanner's tokens are -/

/-- The token `t`, with `n` characters in the tokens before it, has the true
column of its place in the text: of its first character, or, if it is blanks,
of the end of the token before. -/
def PlacedAt (text : List Char) (n : Nat) (t : Token) : Prop :=
  (t.kind ≠ .space → ∃ before rest, text = before ++ t.text ++ rest ∧ Begins text n before ∧
      t.column = trueColumn before) ∧
    (t.kind = .space → ∃ before, Ends text n before ∧ t.column = trueColumn before)

theorem PlacedAt.append {read : List Char} {n : Nat} {t : Token} (h : PlacedAt read n t)
    (ds : List Char) : PlacedAt (read ++ ds) n t := by
  refine ⟨fun hk => ?_, fun hk => ?_⟩
  · obtain ⟨before, rest, hr, hb, hc⟩ := h.1 hk
    refine ⟨before, rest ++ ds, ?_, hb.append ds, hc⟩
    conv_lhs => rw [hr]
    simp
  · obtain ⟨before, hb, hc⟩ := h.2 hk
    exact ⟨before, hb.append ds, hc⟩

namespace Scanner

def doneLength (done : List Lexeme) : Nat := (done.reverse.flatMap (·.token.text)).length

theorem doneLength_cons (x : Lexeme) (done : List Lexeme) :
    doneLength (x :: done) = doneLength done + x.token.text.length := by
  simp [doneLength]

theorem length_kept (s : Scanner) : s.kept.length = doneLength s.done + s.taken.length := by
  simp [kept, doneLength]

def AllPlaced (read : List Char) : List Lexeme → Prop
  | [] => True
  | x :: done => AllPlaced read done ∧ PlacedAt read (doneLength done) x.token

theorem AllPlaced.append {read : List Char} (ds : List Char) : ∀ {done : List Lexeme},
    AllPlaced read done → AllPlaced (read ++ ds) done
  | [], _ => trivial
  | _ :: _, h => ⟨h.1.append ds, h.2.append ds⟩

/-- What the scanner's columns are after reading `read`. -/
structure Placed (read : List Char) (s : Scanner) : Prop where
  /-- The running column is the true one, and 0 in a comment. -/
  column : s.column = if s.mode = .comment then 0 else trueColumn read
  /-- Between tokens the two columns agree. -/
  idle : s.mode = .gap → s.taken = [] → s.mark = s.column
  mark : ∃ before, Ends read (doneLength s.done) before ∧ s.mark = trueColumn before
  /-- An open token other than blanks begins at the mark. -/
  opened : s.mode ≠ .gap → s.mode ≠ .comment → ∃ before, read = before ++ s.taken.reverse ∧
    Begins read (doneLength s.done) before ∧ s.mark = trueColumn before
  done : AllPlaced read s.done

theorem placed_init : Placed [] init where
  column := rfl
  idle := fun _ _ => rfl
  mark := ⟨[], Or.inl ⟨rfl, rfl⟩, rfl⟩
  opened := fun h => absurd rfl h
  done := trivial

/-- What is open, ended as what it is, is where it should be. -/
theorem Placed.finish_done {read : List Char} {s : Scanner} (h : Placed read s) :
    AllPlaced read s.finish.done := by
  have space : AllPlaced read (if s.taken = [] then s else s.close .space).done := by
    split
    · exact h.done
    · exact ⟨h.done, fun hk => absurd rfl hk, fun _ => h.mark⟩
  have other : s.mode ≠ .gap → s.mode ≠ .comment → ∀ kind, kind ≠ .space →
      AllPlaced read (s.close kind).done := by
    intro hg hc kind hk
    obtain ⟨before, hr, hb, hm⟩ := h.opened hg hc
    exact ⟨h.done, fun _ => ⟨before, [], by simpa using hr, hb, hm⟩, fun hs => absurd hs hk⟩
  unfold finish
  cases hm : s.mode with
  | gap => exact space
  | comment => exact space
  | atom => exact other (by simp [hm]) (by simp [hm]) _ (by simp)
  | literal => exact other (by simp [hm]) (by simp [hm]) _ (by simp)
  | escape => exact other (by simp [hm]) (by simp [hm]) _ (by simp)

theorem Placed.close {read : List Char} {s : Scanner} (h : Placed read s) {kind : Token.Kind}
    (hc : s.mode ≠ .comment) (hr : after .code read ≠ .comment)
    (hk : s.kept = strip .code read) (hne : s.taken ≠ [])
    (hd : AllPlaced read (s.close kind).done) : Placed read (s.close kind) := by
  have hcol : s.column = trueColumn read := by rw [h.column, if_neg hc]
  have hlen : doneLength (s.close kind).done = (strip .code read).length := by
    rw [← hk, length_kept, close_done, doneLength_cons, List.length_reverse]
  have hkne : strip .code read ≠ [] := by
    rw [← hk]
    intro h0
    rw [kept, List.append_eq_nil_iff, List.reverse_eq_nil_iff] at h0
    exact hne h0.2
  have hends : Ends read (doneLength (s.close kind).done) read := by
    rw [hlen]
    exact ends_self hr hkne
  exact
    { column := by simpa using hcol
      idle := fun _ _ => rfl
      mark := ⟨read, hends, hcol⟩
      opened := fun hg => absurd rfl hg
      done := hd }

/-- Ending a token other than blanks where it begins at the mark and goes up to
the last character read. -/
theorem Placed.close_mark {read before : List Char} {s : Scanner} (h : Placed read s)
    {kind : Token.Kind} (hkind : kind ≠ .space) (hc : s.mode ≠ .comment)
    (hr : after .code read ≠ .comment) (hk : s.kept = strip .code read) (hne : s.taken ≠ [])
    (hread : read = before ++ s.taken.reverse) (hb : Begins read (doneLength s.done) before)
    (hm : s.mark = trueColumn before) : Placed read (s.close kind) := by
  have placed : PlacedAt read (doneLength s.done) ⟨kind, s.taken.reverse, s.mark⟩ :=
    ⟨fun _ => ⟨before, [], by simpa using hread, hb, hm⟩, fun hs => absurd hs hkind⟩
  exact h.close hc hr hk hne ⟨h.done, placed⟩

theorem Placed.finish {read : List Char} {s : Scanner} (h : Placed read s) (hc : s.InCode)
    (hr : s.mode.region = after .code read) (hk : s.kept = strip .code read) :
    Placed read s.finish := by
  have hd := h.finish_done
  have hm : s.mode ≠ .comment := by rcases hc with hc | hc <;> simp [hc]
  have hr : after .code read ≠ .comment := hr ▸ Mode.region_ne_comment hm
  rcases finish_cases hc with ⟨-, -, hf⟩ | ⟨-, ht, hf⟩ | ⟨ha, hf⟩
  · rwa [hf]
  · rw [hf] at hd ⊢
    exact h.close hm hr hk ht hd
  · rw [hf] at hd ⊢
    refine h.close hm hr hk (fun ht => ?_) hd
    -- an atom has been opened, so it has a character
    obtain ⟨before, hread, ⟨c, rest, hread', -⟩, -⟩ := h.opened (by simp [ha]) (by simp [ha])
    rw [ht] at hread
    have heq : before ++ [] = before ++ c :: rest := hread.symm.trans hread'
    simp at heq

theorem Placed.take {read : List Char} {s : Scanner} (h : Placed read s) {mode : Mode}
    {column : Nat} {c : Char} (hm : mode ≠ .comment) (hcol : column = trueColumn (read ++ [c]))
    (ho : mode ≠ .gap → ∃ before, read = before ++ s.taken.reverse ∧
      Begins (read ++ [c]) (doneLength s.done) before ∧ s.mark = trueColumn before) :
    Placed (read ++ [c]) (s.take mode column c) := by
  obtain ⟨before, hb, hmark⟩ := h.mark
  refine
    { column := ?_
      idle := fun _ ht => by simp at ht
      mark := ⟨before, hb.append [c], hmark⟩
      opened := fun hg _ => ?_
      done := h.done.append [c] }
  · rw [take_mode, if_neg hm]
    exact hcol
  · obtain ⟨before, hr, hb, hmark⟩ := ho hg
    refine ⟨before, ?_, hb, hmark⟩
    rw [take_taken, List.reverse_cons, ← List.append_assoc, ← hr]

theorem Placed.turnTo {read : List Char} {s : Scanner} (h : Placed read s) (hc : s.InCode)
    (hr : s.mode.region = after .code read) (hk : s.kept = strip .code read) (mode : Mode) :
    Placed read (s.turnTo mode) :=
  turnTo_ind mode h (h.finish hc hr hk)

theorem Placed.begin {read : List Char} {s : Scanner} (h : Placed read s) (mode : Mode)
    {column : Nat} {c : Char} (hg : s.mode = .gap) (ht : s.taken = [])
    (hk : s.kept = strip .code read) (hkeep : (after .code read).keeps c = true)
    (hm : mode ≠ .comment) (hcol : column = trueColumn (read ++ [c])) :
    Placed (read ++ [c]) (s.take mode column c) ∧
      Begins (read ++ [c]) (doneLength s.done) read ∧ s.mark = trueColumn read := by
  have hmark : s.mark = trueColumn read := by rw [h.idle hg ht, h.column, if_neg (by simp [hg])]
  have hb : Begins (read ++ [c]) (doneLength s.done) read := by
    refine ⟨c, [], rfl, hkeep, ?_⟩
    rw [← hk, length_kept, ht]
    rfl
  exact ⟨h.take hm hcol fun _ => ⟨read, by simp [ht], hb, hmark⟩, hb, hmark⟩

theorem Placed.extend {read : List Char} {s : Scanner} (h : Placed read s) (mode : Mode)
    {column : Nat} {c : Char} (hg : s.mode ≠ .gap) (hc : s.mode ≠ .comment)
    (hm : mode ≠ .comment) (hcol : column = trueColumn (read ++ [c])) :
    Placed (read ++ [c]) (s.take mode column c) := by
  obtain ⟨before, hr, hb, hmark⟩ := h.opened hg hc
  exact h.take hm hcol fun _ => ⟨before, hr, hb.append [c], hmark⟩

theorem Placed.advance {read : List Char} {s : Scanner} (h : Placed read s) {c : Char}
    (hm : s.mode ≠ .comment) (hl : (after .code read).inLiteral c = false) :
    Column.advance s.column c = trueColumn (read ++ [c]) := by
  rw [trueColumn_snoc, advance_outside hl, h.column, if_neg hm]

theorem Placed.advanceInLiteral {read : List Char} {s : Scanner} (h : Placed read s) {c : Char}
    (hm : s.mode ≠ .comment) (hl : (after .code read).inLiteral c = true) :
    Column.advanceInLiteral s.column c = trueColumn (read ++ [c]) := by
  rw [trueColumn_snoc, advance_inLiteral hl, h.column, if_neg hm]

theorem Placed.comment {read : List Char} {s : Scanner} (h : Placed read s) (c : Char) :
    Placed (read ++ [c]) { s with mode := .comment, column := 0 } := by
  obtain ⟨before, hb, hmark⟩ := h.mark
  exact
    { column := rfl
      idle := fun hg => by simp at hg
      mark := ⟨before, hb.append [c], hmark⟩
      opened := fun _ hg => absurd rfl hg
      done := h.done.append [c] }

theorem Placed.skip {read : List Char} {s : Scanner} (h : Placed read s) (hm : s.mode = .comment)
    (c : Char) : Placed (read ++ [c]) s := by
  obtain ⟨before, hb, hmark⟩ := h.mark
  exact
    { column := by rw [h.column, if_pos hm, if_pos hm]
      idle := h.idle
      mark := ⟨before, hb.append [c], hmark⟩
      opened := fun _ hne => absurd hm hne
      done := h.done.append [c] }

theorem Placed.lineEnd {read : List Char} {s : Scanner} (h : Placed read s)
    (hr : s.mode.region = after .code read) (hm : s.mode = .comment) :
    Placed (read ++ ['\n']) (s.take .gap (Column.advance s.column '\n') '\n') := by
  have hcomment : after .code read = .comment := by rw [← hr, hm]; rfl
  refine h.take (by simp) ?_ fun hg => absurd rfl hg
  rw [trueColumn_snoc, hcomment, advance_outside rfl]
  rfl

section Code

variable {read : List Char} {s : Scanner} {c : Char} (h : Placed read s)
  (hr : s.mode.region = after .code read) (hk : s.kept = strip .code read) (hc : s.InCode)
include h hr hk hc

theorem Placed.blank (hb : isBlank c = true) :
    Placed (read ++ [c]) ((s.turnTo .gap).take .gap (Column.advance s.column c) c) := by
  have hl : (after .code read).inLiteral c = false := by
    rw [← hr, region_of_inCode hc]
    rcases isBlank_iff.1 hb with rfl | rfl | rfl | rfl <;> rfl
  refine (h.turnTo hc hr hk .gap).take (by simp) ?_ fun hg => absurd rfl hg
  exact h.advance (ne_comment_of_inCode hc) hl

theorem Placed.paren {kind : Token.Kind} (hp : ParenKind c kind) :
    Placed (read ++ [c]) ((s.finish.take .gap (Column.advance s.column c) c).close kind) := by
  have hl : (after .code read).inLiteral c = false ∧ (after .code read).keeps c = true := by
    rw [← hr, region_of_inCode hc]
    cases hp <;> exact ⟨rfl, rfl⟩
  obtain ⟨ht, hb, hmark⟩ := (h.finish hc hr hk).begin .gap (finish_mode hc) (finish_taken s)
    ((kept_finish s).trans hk) hl.2 (by simp) (h.advance (ne_comment_of_inCode hc) hl.1)
  obtain ⟨hr', hk'⟩ := (Move.paren hc hp).reads hr hk
  exact ht.close_mark (by cases hp <;> decide) (by simp)
    (hr' ▸ Mode.region_ne_comment (by simp)) ((kept_close _ kind).symm.trans hk') (by simp)
    (by simp) hb hmark

theorem Placed.quote (hq : c = '"') : Placed (read ++ [c])
    (s.finish.take .literal (Column.advanceInLiteral s.column c) c) := by
  have hl : (after .code read).inLiteral c = true ∧ (after .code read).keeps c = true := by
    rw [← hr, region_of_inCode hc, hq]
    exact ⟨rfl, rfl⟩
  exact ((h.finish hc hr hk).begin .literal (finish_mode hc) (finish_taken s)
    ((kept_finish s).trans hk) hl.2 (by simp)
    (h.advanceInLiteral (ne_comment_of_inCode hc) hl.1)).1

theorem Placed.atom (ha : isAtomChar c = true) :
    Placed (read ++ [c]) ((s.turnTo .atom).take .atom (Column.advance s.column c) c) := by
  obtain ⟨-, -, hq, hs, -⟩ := isAtomChar_iff.1 ha
  have hl : (after .code read).inLiteral c = false ∧ (after .code read).keeps c = true := by
    rw [← hr, region_of_inCode hc]
    exact ⟨by simpa [inLiteral] using hq, by simpa [keeps] using hs⟩
  have hcol := h.advance (ne_comment_of_inCode hc) hl.1
  rcases hc with hg | hg
  · rw [turnTo_of_ne (by simp [hg])]
    exact ((h.finish (Or.inl hg) hr hk).begin .atom (finish_mode (Or.inl hg)) (finish_taken s)
      ((kept_finish s).trans hk) hl.2 (by simp) hcol).1
  · rw [turnTo_self hg]
    exact h.extend _ (by simp [hg]) (by simp [hg]) (by simp) hcol

end Code

theorem Placed.inLiteral {read : List Char} {s : Scanner} (h : Placed read s) (c : Char)
    (hr : s.mode.region = after .code read) (hl : s.mode = .literal ∨ s.mode = .escape)
    {mode : Mode} (hm : mode ≠ .comment) :
    Placed (read ++ [c]) (s.take mode (Column.advanceInLiteral s.column c) c) := by
  have hne : s.mode ≠ .gap ∧ s.mode ≠ .comment := by rcases hl with hl | hl <;> simp [hl]
  refine h.extend mode hne.1 hne.2 hm (h.advanceInLiteral hne.2 ?_)
  rcases hl with hl | hl <;> rw [← hr, hl] <;> rfl

theorem Placed.unquote {read : List Char} {s : Scanner} {c : Char} (h : Placed read s)
    (hr : s.mode.region = after .code read) (hk : s.kept = strip .code read)
    (hm : s.mode = .literal) (hq : c = '"') :
    Placed (read ++ [c])
      ((s.take .literal (Column.advanceInLiteral s.column c) c).close .literal) := by
  have ht : Placed (read ++ [c]) (s.take .literal (Column.advanceInLiteral s.column c) c) :=
    h.inLiteral c hr (Or.inl hm) (by simp)
  obtain ⟨before, hread, hb, hmark⟩ := ht.opened (by simp) (by simp)
  obtain ⟨hr', hk'⟩ := (Move.unquote hm hq).reads hr hk
  exact ht.close_mark (by decide) (by simp) (hr' ▸ Mode.region_ne_comment (by simp))
    ((kept_close _ .literal).symm.trans hk') (by simp) hread hb hmark

theorem Placed.move {read : List Char} {s s' : Scanner} {c : Char} (h : Placed read s)
    (hr : s.mode.region = after .code read) (hk : s.kept = strip .code read)
    (hm : Move s c s') : Placed (read ++ [c]) s' := by
  cases hm with
  | blank hc hb => exact h.blank hr hk hc hb
  | semicolon hc _ => exact (h.turnTo hc hr hk .gap).comment c
  | paren hc hp => exact h.paren hr hk hc hp
  | quote hc hq => exact h.quote hr hk hc hq
  | atom hc ha => exact h.atom hr hk hc ha
  | lineEnd hm hn => exact hn ▸ h.lineEnd hr hm
  | skip hm _ => exact h.skip hm c
  | unquote hm hq => exact h.unquote hr hk hm hq
  | backslash hm _ => exact h.inLiteral c hr (Or.inl hm) (by simp)
  | plain hm _ _ => exact h.inLiteral c hr (Or.inl hm) (by simp)
  | escaped hm => exact h.inLiteral c hr (Or.inr hm) (by simp)

/-- The scanner's columns are the true ones after every text. -/
theorem placed_run (text : List Char) : Placed text (init.run text) :=
  run_induction (P := Placed) placed_init
    (fun read _ _ h hm => h.move (region_run read) (kept_run read) hm) text

theorem AllPlaced.get {text : List Char} : ∀ {done : List Lexeme}, AllPlaced text done →
    ∀ (i : Nat) (t : Token), (done.reverse.map Lexeme.token)[i]? = some t →
      PlacedAt text (((done.reverse.map Lexeme.token).take i).flatMap Token.text).length t
  | [], _, i, t, ht => by simp at ht
  | x :: done, h, i, t, ht => by
    have hlen : (done.reverse.map Lexeme.token).length = done.length := by simp
    rw [List.reverse_cons, List.map_append] at ht ⊢
    rcases Nat.lt_trichotomy i done.length with hi | hi | hi
    · rw [List.getElem?_append_left (hlen ▸ hi)] at ht
      rw [List.take_append_of_le_length (hlen ▸ hi.le)]
      exact h.1.get i t ht
    · rw [hi, List.getElem?_append_right hlen.le, hlen, Nat.sub_self] at ht
      obtain rfl : x.token = t := by simpa using ht
      have hdone : ((done.reverse.map Lexeme.token).flatMap Token.text).length =
          doneLength done := by
        rw [doneLength, List.flatMap_map]
      rw [hi, List.take_left' hlen, hdone]
      exact h.2
    · rw [List.getElem?_eq_none (by simp; omega)] at ht
      cases ht

end Scanner

theorem placedAt_tokenize (text : List Char) (i : Nat) (t : Token)
    (ht : (tokenize text)[i]? = some t) : PlacedAt text (lengthBefore text i) t :=
  (Scanner.placed_run text).finish_done.get i t ht

/-- A beginning of a text that has as many characters outside comments as the
tokens before number `i` holds these tokens and comments only. -/
theorem strip_eq_texts {text before : List Char} {i : Nat} (hb : before <+: text)
    (hn : (strip .code before).length = lengthBefore text i) :
    strip .code before = ((tokenize text).take i).flatMap Token.text := by
  obtain ⟨rest, rfl⟩ := hb
  have htexts := texts_tokenize (before ++ rest)
  rw [strip_append, ← List.take_append_drop i (tokenize (before ++ rest)),
    List.flatMap_append] at htexts
  exact (List.append_inj_left htexts hn.symm).symm

/-- A token other than blanks stands in the text where it begins, right after
the tokens before it and comments, and its column is the true one there. -/
theorem column_startOf {text : List Char} {i : Nat} {t : Token}
    (ht : (tokenize text)[i]? = some t) (hk : t.kind ≠ .space) :
    strip .code (text.take (startOf text i)) = ((tokenize text).take i).flatMap Token.text ∧
      t.text <+: text.drop (startOf text i) ∧
      t.column = trueColumn (text.take (startOf text i)) := by
  obtain ⟨before, rest, htext, hb, hc⟩ := (placedAt_tokenize text i t ht).1 hk
  have htake : text.take (startOf text i) = before := hb.take_offset
  have hstrip : strip .code before = ((tokenize text).take i).flatMap Token.text := by
    obtain ⟨c, rest, htext, -, hn⟩ := hb
    exact strip_eq_texts ⟨c :: rest, htext.symm⟩ hn
  have hsplit := List.take_append_drop (startOf text i) text
  rw [htake] at hsplit ⊢
  refine ⟨hstrip, ⟨rest, ?_⟩, hc⟩
  conv_rhs at hsplit => rw [htext, List.append_assoc]
  exact (List.append_cancel_left hsplit).symm

theorem column_endBefore {text : List Char} {i : Nat} {t : Token}
    (ht : (tokenize text)[i]? = some t) (hk : t.kind = .space) :
    strip .code (text.take (endBefore text i)) = ((tokenize text).take i).flatMap Token.text ∧
      t.column = trueColumn (text.take (endBefore text i)) := by
  obtain ⟨before, hb, hc⟩ := (placedAt_tokenize text i t ht).2 hk
  have htake : text.take (endBefore text i) = before := hb.take_ending
  rw [htake]
  exact ⟨strip_eq_texts hb.isPrefix hb.length_strip, hc⟩

/-! ### Columns of forms -/

/-- The tokens of a text but for blanks, in order, as pieces of forms at the
true columns of their places in the text. -/
def trueMarks (text : List Char) : List Piece :=
  ((tokenize text).zipIdx.filter fun p => p.1.kind ≠ .space).map fun p =>
    p.1.pieceAt (trueColumn (text.take (startOf text p.2)))

/-- The pieces that the tokens are, blanks left out, are at their true
columns. -/
theorem pieces_eq_trueMarks (text : List Char) :
    ((tokenize text).map Token.piece).filter Piece.isMark = trueMarks text := by
  have hidx : tokenize text = (tokenize text).zipIdx.map Prod.fst := by simp
  conv_lhs => rw [hidx]
  rw [List.map_map, List.filter_map, trueMarks]
  have hfilter : (tokenize text).zipIdx.filter (Piece.isMark ∘ Token.piece ∘ Prod.fst) =
      (tokenize text).zipIdx.filter fun p => p.1.kind ≠ .space :=
    List.filter_congr fun p _ => Token.isMark_piece p.1
  rw [hfilter]
  refine List.map_congr_left fun p hp => ?_
  obtain ⟨hmem, hk⟩ := List.mem_filter.1 hp
  have hget : (tokenize text)[p.2]? = some p.1 := List.mem_zipIdx_iff_getElem?.1 hmem
  rw [← (column_startOf hget (by simpa using hk)).2.2]
  rfl

/-- **Every recorded column is the true column.** A token other than blanks
stands in the text at its place, after the tokens before it and comments, and
has the true column of its first character; blanks have that of the end of the
token before. So in the root of the text every form and every closing, in
source order, is at the true column of its token. -/
theorem columns_true (text : List Char) :
    (∀ i t, (tokenize text)[i]? = some t →
        (t.kind ≠ .space →
          strip .code (text.take (startOf text i)) = ((tokenize text).take i).flatMap Token.text ∧
            t.text <+: text.drop (startOf text i) ∧
            t.column = trueColumn (text.take (startOf text i))) ∧
        (t.kind = .space →
          strip .code (text.take (endBefore text i)) =
              ((tokenize text).take i).flatMap Token.text ∧
            t.column = trueColumn (text.take (endBefore text i)))) ∧
      (build (tokenize text)).rootPieces.filter Piece.isMark <+: trueMarks text := by
  refine ⟨fun i t ht => ⟨column_startOf ht, column_endBefore ht⟩, ?_⟩
  obtain ⟨used, ⟨rest, hused⟩, hpieces⟩ := rootPieces_build (tokenize text)
  rw [hpieces, ← pieces_eq_trueMarks, ← hused, List.map_append, List.filter_append]
  exact List.prefix_append _ _

/-- A comment after an atom, and a literal over two lines: the blanks are at
the end of the atom, the last atom is at a column of its literal's first
line. -/
example : (tokenize ['a', ';', 'c', '\n', '\t', '"', '\n', '"', 'b']).map (·.column) =
    [0, 1, 8, 11] := by decide

end ParenLint
