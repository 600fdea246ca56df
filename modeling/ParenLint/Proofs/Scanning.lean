/-
# How the scanner moves

What one character does to a scanner, as a list of cases (`Scanner.Move`), so
that an invariant of scanning needs one step for each case and no unfolding.
Most cases first end the open token; what ending it does is `finish_cases`,
and where a case goes on with the open token instead, `turnTo_ind` covers
both. From the step the invariant holds of every scan by `run_induction`.

The tokens a scanner has read are its finished ones and, last, the open one
as if the text ended here (`Scanner.tokens`, `tokens_eq`).

The first invariant is about literals that the text leaves open: no finished
token is one, so among the tokens of a text only the last can be.

Key definitions: `Scanner.InCode`, `Scanner.Mode.kind`, `Scanner.tokens`,
`Scanner.Move`.
Key theorems: `Scanner.tokens_eq`, `Scanner.move_step`, `Scanner.run_induction`,
`kind_ne_unterminated`.
-/
import ParenLint.Token.Scanner
import Mathlib.Data.List.Induction

namespace ParenLint

/-! ### Classes of characters -/

theorem isBlank_iff {c : Char} :
    isBlank c = true ↔ c = ' ' ∨ c = '\t' ∨ c = '\n' ∨ c = '\r' := by
  simp [isBlank, or_assoc]

theorem isAtomChar_iff {c : Char} :
    isAtomChar c = true ↔ c ≠ '(' ∧ c ≠ ')' ∧ c ≠ '"' ∧ c ≠ ';' ∧ isBlank c = false := by
  simp [isAtomChar, and_assoc]

inductive ParenKind : Char → Token.Kind → Prop
  | left : ParenKind '(' .leftParen
  | right : ParenKind ')' .rightParen

namespace Scanner

/-! ### Fields -/

section Fields

variable (s : Scanner) (mode : Mode) (column : Nat) (c : Char) (kind : Token.Kind)

@[simp] theorem take_mode : (s.take mode column c).mode = mode := rfl
@[simp] theorem take_column : (s.take mode column c).column = column := rfl
@[simp] theorem take_mark : (s.take mode column c).mark = s.mark := rfl
@[simp] theorem take_taken : (s.take mode column c).taken = c :: s.taken := rfl
@[simp] theorem take_done : (s.take mode column c).done = s.done := rfl

@[simp] theorem close_mode : (s.close kind).mode = .gap := rfl
@[simp] theorem close_column : (s.close kind).column = s.column := rfl
@[simp] theorem close_mark : (s.close kind).mark = s.column := rfl
@[simp] theorem close_taken : (s.close kind).taken = [] := rfl
@[simp] theorem close_done :
    (s.close kind).done = ⟨⟨kind, s.taken.reverse, s.mark⟩, s.start⟩ :: s.done := rfl

end Fields

/-! ### Ending the open token -/

/-- Outside literals and comments: in an atom, in a run of blanks or between
tokens. -/
def InCode (s : Scanner) : Prop := s.mode = .gap ∨ s.mode = .atom

theorem finish_cases {s : Scanner} (h : s.InCode) :
    (s.mode = .gap ∧ s.taken = [] ∧ s.finish = s) ∨
      (s.mode = .gap ∧ s.taken ≠ [] ∧ s.finish = s.close .space) ∨
      (s.mode = .atom ∧ s.finish = s.close .atom) := by
  rcases h with h | h
  · by_cases ht : s.taken = []
    · exact Or.inl ⟨h, ht, by simp [finish, h, ht]⟩
    · exact Or.inr (Or.inl ⟨h, ht, by simp [finish, h, ht]⟩)
  · exact Or.inr (Or.inr ⟨h, by simp [finish, h]⟩)

theorem finish_mode {s : Scanner} (h : s.InCode) : s.finish.mode = .gap := by
  rcases finish_cases h with ⟨hm, -, hf⟩ | ⟨-, -, hf⟩ | ⟨-, hf⟩ <;> simp [*]

@[simp] theorem finish_taken (s : Scanner) : s.finish.taken = [] := by
  unfold finish
  split <;> try rfl
  all_goals split <;> first | assumption | rfl

theorem turnTo_ind {P : Scanner → Prop} {s : Scanner} (mode : Mode) (h : P s) (hf : P s.finish) :
    P (s.turnTo mode) := by
  unfold turnTo
  split
  · exact h
  · exact hf

theorem turnTo_self {s : Scanner} {mode : Mode} (h : s.mode = mode) : s.turnTo mode = s := if_pos h

theorem turnTo_of_ne {s : Scanner} {mode : Mode} (h : s.mode ≠ mode) : s.turnTo mode = s.finish :=
  if_neg h

theorem ne_comment_of_inCode {s : Scanner} (h : s.InCode) : s.mode ≠ .comment := by
  rcases h with h | h <;> simp [h]

theorem InCode.finish {s : Scanner} (h : s.InCode) : s.finish.InCode := Or.inl (finish_mode h)

theorem InCode.turnTo {s : Scanner} (h : s.InCode) (mode : Mode) : (s.turnTo mode).InCode :=
  turnTo_ind mode h h.finish

/-! ### The tokens so far -/

/-- What a mode's open token is if it is ended. -/
def Mode.kind : Mode → Token.Kind
  | .gap => .space
  | .comment => .space
  | .atom => .atom
  | .literal => .unterminated
  | .escape => .unterminated

/-- A mode's open token is one that may still grow. -/
theorem Mode.kind_open (mode : Mode) :
    mode.kind = .space ∨ mode.kind = .atom ∨ mode.kind = .unterminated := by
  cases mode <;> simp [kind]

def inOrder (done : List Lexeme) : List Token := done.reverse.map Lexeme.token

theorem inOrder_cons (x : Lexeme) (done : List Lexeme) :
    inOrder (x :: done) = inOrder done ++ [x.token] := by
  simp [inOrder]

/-- The tokens read so far, the open one ended. -/
def tokens (s : Scanner) : List Token := inOrder s.finish.done

theorem tokens_run (text : List Char) : (init.run text).tokens = tokenize text := rfl

theorem finish_eq (s : Scanner) :
    s.finish = if s.mode.kind = .space ∧ s.taken = [] then s else s.close s.mode.kind := by
  unfold finish
  cases s.mode <;> simp [Mode.kind]

theorem finish_of_idle {s : Scanner} (hm : s.mode = .gap) (ht : s.taken = []) : s.finish = s := by
  rw [finish_eq, if_pos ⟨by rw [hm]; rfl, ht⟩]

@[simp] theorem finish_column (s : Scanner) : s.finish.column = s.column := by
  rw [finish_eq]
  split <;> rfl

@[simp] theorem turnTo_column (s : Scanner) (mode : Mode) :
    (s.turnTo mode).column = s.column :=
  turnTo_ind (P := fun u => u.column = s.column) mode rfl s.finish_column

theorem tokens_eq (s : Scanner) :
    s.tokens = inOrder s.done ++
      if s.mode.kind = .space ∧ s.taken = [] then []
      else [⟨s.mode.kind, s.taken.reverse, s.mark⟩] := by
  rw [tokens, finish_eq]
  split
  · rw [List.append_nil]
  · rw [close_done, inOrder_cons]

theorem done_suffix_finish (s : Scanner) : s.done <:+ s.finish.done := by
  rw [finish_eq]
  split
  · exact List.suffix_rfl
  · exact List.suffix_cons _ _

/-! ### One character -/

/-- What the character `c` can make of the scanner `s`. -/
inductive Move (s : Scanner) (c : Char) : Scanner → Prop
  | blank : s.InCode → isBlank c = true →
      Move s c ((s.turnTo .gap).take .gap (Column.advance s.column c) c)
  /-- A semicolon begins a comment; a run of blanks stays open. -/
  | semicolon : s.InCode → c = ';' → Move s c { s.turnTo .gap with mode := .comment, column := 0 }
  /-- A parenthesis is a token by itself. -/
  | paren {kind : Token.Kind} : s.InCode → ParenKind c kind →
      Move s c ((s.finish.take .gap (Column.advance s.column c) c).close kind)
  | quote : s.InCode → c = '"' →
      Move s c (s.finish.take .literal (Column.advanceInLiteral s.column c) c)
  | atom : s.InCode → isAtomChar c = true →
      Move s c ((s.turnTo .atom).take .atom (Column.advance s.column c) c)
  /-- A comment ends before a line feed. -/
  | lineEnd : s.mode = .comment → c = '\n' →
      Move s c (s.take .gap (Column.advance s.column c) c)
  | skip : s.mode = .comment → c ≠ '\n' → Move s c s
  | unquote : s.mode = .literal → c = '"' →
      Move s c ((s.take .literal (Column.advanceInLiteral s.column c) c).close .literal)
  | backslash : s.mode = .literal → c = '\\' →
      Move s c (s.take .escape (Column.advanceInLiteral s.column c) c)
  | plain : s.mode = .literal → c ≠ '"' → c ≠ '\\' →
      Move s c (s.take .literal (Column.advanceInLiteral s.column c) c)
  | escaped : s.mode = .escape →
      Move s c (s.take .literal (Column.advanceInLiteral s.column c) c)

theorem move_stepCode {s : Scanner} (h : s.InCode) (c : Char) :
    Move s c (s.stepCode Column.exact c) := by
  unfold stepCode
  by_cases hb : isBlank c = true
  · rw [if_pos hb]; exact .blank h hb
  rw [if_neg hb]
  by_cases hs : c = ';'
  · rw [if_pos hs]; exact .semicolon h hs
  rw [if_neg hs]
  by_cases hl : c = '('
  · rw [if_pos hl]; exact .paren h (hl ▸ .left)
  rw [if_neg hl]
  by_cases hr : c = ')'
  · rw [if_pos hr]; exact .paren h (hr ▸ .right)
  rw [if_neg hr]
  by_cases hq : c = '"'
  · rw [if_pos hq]; exact .quote h hq
  rw [if_neg hq]
  exact .atom h (isAtomChar_iff.2 ⟨hl, hr, hq, hs, by simpa using hb⟩)

theorem move_stepLiteral {s : Scanner} (h : s.mode = .literal) (c : Char) :
    Move s c (s.stepLiteral Column.exact c) := by
  unfold stepLiteral
  by_cases hq : c = '"'
  · rw [if_pos hq]; exact .unquote h hq
  rw [if_neg hq]
  by_cases hb : c = '\\'
  · rw [if_pos hb]; exact .backslash h hb
  · rw [if_neg hb]; exact .plain h hq hb

theorem move_step (s : Scanner) (c : Char) : Move s c (s.step c) := by
  unfold step stepWith
  split
  · exact move_stepCode (Or.inl ‹_›) c
  · exact move_stepCode (Or.inr ‹_›) c
  · by_cases hc : c = '\n'
    · rw [if_pos hc]; exact .lineEnd ‹_› hc
    · rw [if_neg hc]; exact .skip ‹_› hc
  · exact move_stepLiteral ‹_› c
  · exact .escaped ‹_›

/-! ### Whole texts -/

/-- What holds of the scanner before a text, and is kept by every character,
holds of the scanner after any text, with the text it has read. -/
theorem run_induction {P : List Char → Scanner → Prop} (h0 : P [] init)
    (hstep : ∀ read c s', P read (init.run read) → Move (init.run read) c s' →
      P (read ++ [c]) s') (text : List Char) : P text (init.run text) := by
  induction text using List.reverseRecOn with
  | nil => exact h0
  | append_singleton read c ih =>
    rw [run_append]
    exact hstep read c _ ih (move_step _ c)

/-! ### Literals left open -/

def Terminated (s : Scanner) : Prop := ∀ x ∈ s.done, x.token.kind ≠ .unterminated

theorem Terminated.close {s : Scanner} (h : s.Terminated) {kind : Token.Kind}
    (hk : kind ≠ .unterminated) : (s.close kind).Terminated := by
  intro x hx
  rcases List.mem_cons.1 hx with rfl | hx
  · exact hk
  · exact h x hx

theorem Terminated.finish {s : Scanner} (h : s.Terminated) (hc : s.InCode) :
    s.finish.Terminated := by
  rcases finish_cases hc with ⟨-, -, hf⟩ | ⟨-, -, hf⟩ | ⟨-, hf⟩
  · rwa [hf]
  · rw [hf]; exact h.close (by decide)
  · rw [hf]; exact h.close (by decide)

theorem Terminated.move {s s' : Scanner} {c : Char} (h : s.Terminated) (hm : Move s c s') :
    s'.Terminated := by
  have turn : ∀ mode, s.InCode → (s.turnTo mode).Terminated := fun mode hc =>
    turnTo_ind mode h (h.finish hc)
  cases hm with
  | blank hc _ => exact turn _ hc
  | semicolon hc _ => exact turn _ hc
  | paren hc hk =>
    refine Terminated.close (s := s.finish.take _ _ c) (h.finish hc) ?_
    cases hk <;> decide
  | quote hc _ => exact h.finish hc
  | atom hc _ => exact turn _ hc
  | lineEnd _ _ => exact h
  | skip _ _ => exact h
  | unquote _ _ => exact Terminated.close (s := s.take _ _ c) h (by decide)
  | backslash _ _ => exact h
  | plain _ _ _ => exact h
  | escaped _ => exact h

theorem terminated_run (text : List Char) : (init.run text).Terminated :=
  run_induction (P := fun _ s => s.Terminated) (fun x hx => by simp [init] at hx)
    (fun _ _ _ h hm => h.move hm) text

theorem mem_done_of_mem_tail (s : Scanner) : ∀ x ∈ s.finish.done.tail, x ∈ s.done := by
  intro x hx
  unfold finish at hx
  split at hx
  · split at hx
    · exact List.mem_of_mem_tail hx
    · exact hx
  · split at hx
    · exact List.mem_of_mem_tail hx
    · exact hx
  all_goals exact hx

end Scanner

/-- **Only the last token of a text can be a literal left open.** -/
theorem kind_ne_unterminated (text : List Char) :
    ∀ t ∈ (tokenize text).dropLast, t.kind ≠ .unterminated := by
  intro t ht
  have hdrop : (tokenize text).dropLast =
      ((Scanner.init.run text).finish.done.tail.reverse).map Lexeme.token := by
    rw [tokenize, scan, ← List.map_dropLast, List.dropLast_reverse]
  rw [hdrop] at ht
  obtain ⟨x, hx, rfl⟩ := List.mem_map.1 ht
  exact Scanner.terminated_run text x
    (Scanner.mem_done_of_mem_tail _ x (List.mem_reverse.1 hx))

end ParenLint
