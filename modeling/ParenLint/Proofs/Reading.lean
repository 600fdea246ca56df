/-
# Reading one token at a time

The tokens of a text can also be read one at a time, by a loop that looks at
the next character and takes the token it begins, whole. The reader keeps the
text that is left and the scanner's two columns: the running column, and the
mark, where the last token ended. A comment between two tokens is a turn of
its own, which puts the running column back to 0 and leaves the mark.

At the head of the loop the reader is where the scanner is after the text
that has been read, once its open token is ended (`Reader.Follows`): what is
taken in a turn is one token of the scanner, opened by its first character
and ended before the next turn (`Scanner.Gets`). So the reader reads what the
scanner does, and reads all of it.

The columns agree wherever a token depends on it. A turn that takes a token
makes them equal; a turn that skips a comment makes them differ, but then the
next token begins with the line feed that ends the comment, if there is one.
So only a run of blanks can have a column that is not that of its first
character, and a literal left open is logged at the column of its token.

Key definitions: `Reader`, `Reader.turn`, `Reader.Reaches`, `Reader.Turn`,
`Scanner.Gets`, `Reader.Follows`.
Key theorems: `Scanner.gets_token`, `Reader.Follows.turn`,
`Reader.Reaches.follows`, `Reader.Reaches.columns`, `start_eq_column`,
`counters_agree`.
-/
import ParenLint.Proofs.BuildLog
import ParenLint.Proofs.Comments

namespace ParenLint

/-! ### The reader -/

/-- A token taken off the front of a text. -/
structure Part where
  kind : Token.Kind
  text : List Char
  /-- The running column after it. -/
  column : Nat
  rest : List Char

def Part.cons (c : Char) (p : Part) : Part := { p with text := c :: p.text }

/-- What is left of a text once the comment it begins in has been skipped. -/
def afterComment (cs : List Char) : List Char := cs.dropWhile (· ≠ '\n')

theorem afterComment_eq : ∀ cs : List Char,
    ∃ comment, '\n' ∉ comment ∧ cs = comment ++ afterComment cs ∧
      (afterComment cs = [] ∨ (afterComment cs).head? = some '\n')
  | [] => ⟨[], List.not_mem_nil, rfl, Or.inl rfl⟩
  | c :: cs => by
    by_cases hc : c = '\n'
    · exact ⟨[], List.not_mem_nil, by simp [afterComment, hc], by simp [afterComment, hc]⟩
    · have hskip : afterComment (c :: cs) = afterComment cs := by simp [afterComment, hc]
      obtain ⟨comment, hn, hcs, hrest⟩ := afterComment_eq cs
      rw [hskip]
      exact ⟨c :: comment, by simpa [Ne.symm hc] using hn, congrArg (c :: ·) hcs, hrest⟩

theorem length_afterComment (cs : List Char) : (afterComment cs).length ≤ cs.length :=
  (List.dropWhile_sublist _).length_le

def takeAtom (column : Nat) : List Char → Part
  | [] => ⟨.atom, [], column, []⟩
  | c :: cs =>
    if isAtomChar c then (takeAtom (Column.advance column c) cs).cons c
    else ⟨.atom, [], column, c :: cs⟩

/-- Takes the blanks of a run and skips the comments in it. -/
def takeBlanks (column : Nat) : List Char → Part
  | [] => ⟨.space, [], column, []⟩
  | c :: cs =>
    if isBlank c then (takeBlanks (Column.advance column c) cs).cons c
    else if c = ';' then takeBlanks 0 (afterComment cs)
    else ⟨.space, [], column, c :: cs⟩
termination_by cs => cs.length
decreasing_by
  · simp
  · exact Nat.lt_succ_of_le (length_afterComment cs)

/-- Takes what follows the opening quote of a literal, up to its closing
quote or the end of the text. -/
def takeLiteral (column : Nat) : List Char → Part
  | [] => ⟨.unterminated, [], column, []⟩
  | c :: cs =>
    if c = '"' then ⟨.literal, [c], Column.advanceInLiteral column c, cs⟩
    else if c = '\\' then
      match cs with
      | [] => ⟨.unterminated, [c], Column.advanceInLiteral column c, []⟩
      | d :: cs =>
        ((takeLiteral (Column.advanceInLiteral (Column.advanceInLiteral column c) d) cs).cons
          d).cons c
    else (takeLiteral (Column.advanceInLiteral column c) cs).cons c

theorem kind_takeBlanks (column : Nat) (cs : List Char) : (takeBlanks column cs).kind = .space := by
  fun_induction takeBlanks column cs with
  | case1 => rfl
  | case2 _ _ _ _ ih => exact ih
  | case3 _ _ _ ih => exact ih
  | case4 => rfl

/-- The token that begins with `c`, which no comment does, at the running
column `column` and with `cs` behind it. -/
def takeToken (column : Nat) (c : Char) (cs : List Char) : Part :=
  if c = '(' then ⟨.leftParen, [c], Column.advance column c, cs⟩
  else if c = ')' then ⟨.rightParen, [c], Column.advance column c, cs⟩
  else if c = '"' then (takeLiteral (Column.advanceInLiteral column c) cs).cons c
  else if isBlank c then takeBlanks column (c :: cs)
  else takeAtom column (c :: cs)

theorem takeToken_blank (column : Nat) {c : Char} (hc : isBlank c = true) (cs : List Char) :
    takeToken column c cs = takeBlanks column (c :: cs) := by
  have hne : c ≠ '(' ∧ c ≠ ')' ∧ c ≠ '"' := by
    rcases isBlank_iff.1 hc with rfl | rfl | rfl | rfl <;> decide
  simp [takeToken, hne, hc]

structure Reader where
  rest : List Char
  column : Nat
  /-- The column at which the last token ended. -/
  mark : Nat

/-- The token that is taken, if the one before it ended at `mark` and this one
starts at `start`. -/
def Part.lexeme (p : Part) (mark start : Nat) : Lexeme := ⟨⟨p.kind, p.text, mark⟩, start⟩

/-- The reader after the token is taken: the mark has moved to its end. -/
def Part.reader (p : Part) : Reader := ⟨p.rest, p.column, p.column⟩

namespace Reader

def start (text : List Char) : Reader := ⟨text, 0, 0⟩

/-- The reader after a comment with `cs` behind its semicolon is skipped: the
mark is left alone. -/
def skip (r : Reader) (cs : List Char) : Reader := { r with rest := afterComment cs, column := 0 }

/-- One turn of the loop: skips a comment or takes a token. At the end of the
text there is none. -/
def turn (r : Reader) : Option (Option Lexeme × Reader) :=
  match r.rest with
  | [] => none
  | c :: cs =>
    if c = ';' then some (none, r.skip cs)
    else
      let p := takeToken r.column c cs
      some (some (p.lexeme r.mark r.column), p.reader)

/-- After some turns over `text`, which have taken the tokens `xs`, the reader
is `r` at the head of the loop. -/
inductive Reaches (text : List Char) : List Lexeme → Reader → Prop
  | start : Reaches text [] (.start text)
  | turn {xs : List Lexeme} {r r' : Reader} {x? : Option Lexeme} :
      Reaches text xs r → r.turn = some (x?, r') → Reaches text (xs ++ x?.toList) r'

inductive Turn (r : Reader) : Option Lexeme → Reader → Prop
  | comment {cs : List Char} : r.rest = ';' :: cs → Turn r none (r.skip cs)
  | token {c : Char} {cs : List Char} : r.rest = c :: cs → c ≠ ';' →
      Turn r (some ((takeToken r.column c cs).lexeme r.mark r.column))
        (takeToken r.column c cs).reader

theorem turn_cases (r : Reader) :
    (r.rest = [] ∧ r.turn = none) ∨ ∃ x? r', r.turn = some (x?, r') ∧ Turn r x? r' := by
  unfold turn
  split
  · exact Or.inl ⟨‹_›, rfl⟩
  · split_ifs with hc
    · exact Or.inr ⟨_, _, rfl, .comment (hc ▸ ‹_›)⟩
    · exact Or.inr ⟨_, _, rfl, .token ‹_› hc⟩

theorem turn_of_eq {r r' : Reader} {x? : Option Lexeme} (h : r.turn = some (x?, r')) :
    Turn r x? r' := by
  rcases r.turn_cases with ⟨-, hn⟩ | ⟨y?, r'', ht, hturn⟩
  · rw [hn] at h
    cases h
  · rw [ht] at h
    cases h
    exact hturn

end Reader

/-! ### Taking a token -/

namespace Scanner

/-- The scanner with its open token ended and with no memory of a comment. -/
def between (s : Scanner) : Scanner := { s.finish with mode := .gap }

@[simp] theorem between_mode (s : Scanner) : s.between.mode = .gap := rfl
@[simp] theorem between_column (s : Scanner) : s.between.column = s.column := s.finish_column
@[simp] theorem between_taken (s : Scanner) : s.between.taken = [] := s.finish_taken

/-- The scanner with `text` added to the open token, or a token opened with
it; `column` is the column after it. -/
def extend (s : Scanner) (column : Nat) (text : List Char) : Scanner :=
  { s with
    column := column
    taken := text.reverse ++ s.taken
    start := if s.taken = [] then s.column else s.start }

/-- What reading a token does to a scanner in the middle of it, with `cs`
ahead: it reads the part of `cs` that the token takes, and is then at the end
of the token, whether or not that shows before the next character. -/
def Gets (s : Scanner) (cs : List Char) (p : Part) : Prop :=
  ∃ read, cs = read ++ p.rest ∧
    (s.run read).finish = (s.extend p.column p.text).close p.kind ∧
    ∀ c ∈ p.rest.head?, (s.run read).finish.step c = (s.run read).step c

/-- A token gets longer by the character that is read before the rest of
it. -/
theorem Gets.cons {s : Scanner} {mode : Mode} {column : Nat} {c : Char} {cs : List Char} {p : Part}
    (hstep : s.step c = s.take mode column c)
    (h : (s.take mode column c).Gets cs p) : s.Gets (c :: cs) (p.cons c) := by
  obtain ⟨read, hcs, hf, hnext⟩ := h
  refine ⟨c :: read, congrArg (c :: ·) hcs, ?_, ?_⟩
  · rw [run_cons, hstep, hf]
    simp [extend, take, close, Part.cons]
  · rw [run_cons, hstep]
    exact hnext

theorem Gets.of_close {s : Scanner} {c : Char} {kind : Token.Kind} {column : Nat}
    (hstep : s.step c = (s.extend column [c]).close kind) (cs : List Char) :
    s.Gets (c :: cs) ⟨kind, [c], column, cs⟩ := by
  have hf : (s.run [c]).finish = s.run [c] := by
    rw [run_cons, run_nil, hstep]
    rfl
  exact ⟨[c], rfl, hf.trans hstep, fun d _ => by rw [hf]⟩

theorem gets_atom : ∀ (cs : List Char) (s : Scanner), s.mode = .atom → s.taken ≠ [] →
    s.Gets cs (takeAtom s.column cs)
  | [], s, hm, ht => ⟨[], rfl, by simp [finish, hm, ht, takeAtom, extend, close],
      by simp [takeAtom]⟩
  | c :: cs, s, hm, ht => by
    rw [takeAtom]
    by_cases hc : isAtomChar c = true
    · rw [if_pos hc]
      have hstep := step_atomChar (Or.inr hm) hc
      rw [turnTo_self hm] at hstep
      exact .cons hstep (gets_atom cs _ rfl (by simp))
    · rw [if_neg hc]
      refine ⟨[], rfl, by simp [finish, hm, ht, extend, close], ?_⟩
      rintro d hd
      obtain rfl : c = d := by simpa using hd
      exact step_finish (Or.inr hm) (fun h => by simp [hm] at h) fun _ => by simpa using hc

def InBlanks (s : Scanner) (cs : List Char) : Prop :=
  s.mode = .gap ∨ s.mode = .comment ∧ (cs = [] ∨ cs.head? = some '\n')

theorem InBlanks.step {s : Scanner} {c : Char} {cs : List Char} (h : s.InBlanks (c :: cs))
    (hc : isBlank c = true) : s.step c = s.take .gap (Column.advance s.column c) c := by
  rcases h with hm | ⟨hm, hcs⟩
  · rw [step_blank (Or.inl hm) hc, turnTo_self hm]
  · obtain rfl : c = '\n' := by simpa using hcs
    simp [step_comment hm]

theorem InBlanks.mode_of_ne {s : Scanner} {c : Char} {cs : List Char} (h : s.InBlanks (c :: cs))
    (hc : isBlank c = false) : s.mode = .gap := by
  refine h.resolve_right ?_
  rintro ⟨-, hcs⟩
  obtain rfl : c = '\n' := by simpa using hcs
  cases hc

/-- A comment in a run of blanks changes nothing but the running column. -/
theorem Gets.semicolon {s : Scanner} {cs : List Char} {p : Part} (hm : s.mode = .gap)
    (ht : s.taken ≠ []) (h : Gets { s with mode := .comment, column := 0 } (afterComment cs) p) :
    s.Gets (';' :: cs) p := by
  obtain ⟨comment, hn, hcs, -⟩ := afterComment_eq cs
  obtain ⟨read, hafter, hf, hnext⟩ := h
  have hrun : s.run (';' :: comment ++ read) =
      Scanner.run { s with mode := .comment, column := 0 } read := by
    rw [run_append, run_semicolon (Or.inl hm) hn, turnTo_self hm]
  refine ⟨';' :: comment ++ read, ?_, ?_, ?_⟩
  · rw [List.append_assoc, ← hafter, List.cons_append, ← hcs]
  · rw [hrun, hf]
    simp [extend, close, ht]
  · rw [hrun]
    exact hnext

theorem gets_blanks (cs : List Char) (s : Scanner) (hm : s.InBlanks cs) (ht : s.taken ≠ []) :
    s.Gets cs (takeBlanks s.column cs) := by
  match cs with
  | [] =>
    refine ⟨[], by simp [takeBlanks], ?_, by simp [takeBlanks]⟩
    rcases hm with hm | ⟨hm, -⟩ <;> simp [finish, hm, ht, takeBlanks, extend, close]
  | c :: cs =>
    rw [takeBlanks]
    by_cases hc : isBlank c = true
    · rw [if_pos hc]
      exact .cons (hm.step hc) (gets_blanks cs _ (Or.inl rfl) (by simp))
    have hgap := hm.mode_of_ne (by simpa using hc)
    rw [if_neg hc]
    by_cases hs : c = ';'
    · rw [if_pos hs, hs]
      obtain ⟨-, -, -, hafter⟩ := afterComment_eq cs
      exact .semicolon hgap ht (gets_blanks (afterComment cs) _ (Or.inr ⟨rfl, hafter⟩) ht)
    · rw [if_neg hs]
      refine ⟨[], rfl, by simp [finish, hgap, ht, extend, close], ?_⟩
      intro d hd
      obtain rfl : c = d := by simpa using hd
      exact step_finish (Or.inl hgap) (fun _ => ⟨by simpa using hc, hs⟩) fun h => by
        simp [hgap] at h
termination_by cs.length
decreasing_by
  · simp
  · exact Nat.lt_succ_of_le (length_afterComment cs)

theorem gets_literal : ∀ (cs : List Char) (s : Scanner), s.mode = .literal → s.taken ≠ [] →
    s.Gets cs (takeLiteral s.column cs)
  | [], s, hm, ht => ⟨[], rfl, by simp [finish, hm, ht, takeLiteral, extend, close],
      by simp [takeLiteral]⟩
  | c :: cs, s, hm, ht => by
    have hstep := step_literal hm c
    rw [takeLiteral.eq_def]
    dsimp only
    by_cases hq : c = '"'
    · rw [if_pos hq]
      refine .of_close ?_ cs
      rw [hstep, stepLiteral, if_pos hq]
      simp [take, extend, close, ht]
    rw [if_neg hq]
    by_cases hb : c = '\\'
    · have hbackslash : s.step c = s.take .escape (Column.advanceInLiteral s.column c) c := by
        rw [hstep, stepLiteral, if_neg hq, if_pos hb, Column.exact_advanceInLiteral]
      rw [if_pos hb]
      cases cs with
      | nil =>
        refine ⟨[c], rfl, ?_, by simp⟩
        rw [run_cons, run_nil, hbackslash]
        simp [finish, take, extend, close, ht]
      | cons d cs =>
        refine .cons hbackslash (.cons rfl ?_)
        exact gets_literal cs (take _ .literal _ d) rfl (by simp)
    · rw [if_neg hb]
      have hplain : s.step c = s.take .literal (Column.advanceInLiteral s.column c) c := by
        rw [hstep, stepLiteral, if_neg hq, if_neg hb, Column.exact_advanceInLiteral]
      exact .cons hplain (gets_literal cs _ rfl (by simp))

theorem gets_token {s : Scanner} (hm : s.mode = .gap) (ht : s.taken = []) {c : Char}
    (hc : c ≠ ';') (cs : List Char) : s.Gets (c :: cs) (takeToken s.column c cs) := by
  have hcode : s.InCode := Or.inl hm
  have hfinish := finish_of_idle hm ht
  have paren {kind : Token.Kind} (hk : ParenKind c kind) :
      s.Gets (c :: cs) ⟨kind, [c], Column.advance s.column c, cs⟩ := by
    refine .of_close ?_ cs
    rw [step_paren hcode hk, hfinish]
    simp [take, extend, close]
  unfold takeToken
  split_ifs with hl hr hq hb
  · exact paren (hl ▸ .left)
  · exact paren (hr ▸ .right)
  · have hstep := step_quote hcode
    rw [hfinish, ← hq] at hstep
    exact .cons hstep (gets_literal cs _ rfl (by simp))
  · have hstep := step_blank hcode hb
    rw [turnTo_self hm] at hstep
    rw [takeBlanks, if_pos hb]
    exact .cons hstep (gets_blanks cs _ (Or.inl rfl) (by simp))
  · have ha : isAtomChar c = true := isAtomChar_iff.2 ⟨hl, hr, hq, hc, by simpa using hb⟩
    have hstep := step_atomChar hcode ha
    rw [turnTo_of_ne (by simp [hm]), hfinish] at hstep
    rw [takeAtom, if_pos ha]
    exact .cons hstep (gets_atom cs _ rfl (by simp))

end Scanner

/-! ### The reader and the scanner -/

namespace Reader

/-- The reader `r`, which has taken the tokens `xs`, is where the scanner is
after the text `read` once its open token is ended. -/
structure Follows (read : List Char) (xs : List Lexeme) (r : Reader) : Prop where
  column : (Scanner.init.run read).column = r.column
  mark : (Scanner.init.run read).finish.mark = r.mark
  done : (Scanner.init.run read).finish.done = xs.reverse
  next : ∀ c ∈ r.rest.head?, (Scanner.init.run read).step c = (Scanner.init.run read).between.step c

theorem follows_start (text : List Char) : Follows [] [] (.start text) :=
  ⟨rfl, rfl, rfl, fun _ _ => rfl⟩

/-- What is read next is read from between two tokens. -/
theorem Follows.run_append {read : List Char} {xs : List Lexeme} {r : Reader}
    (h : Follows read xs r) {c : Char} (hc : c ∈ r.rest.head?) (cs : List Char) :
    Scanner.init.run (read ++ c :: cs) = (Scanner.init.run read).between.run (c :: cs) := by
  rw [Scanner.run_append, Scanner.run_cons, h.next c hc, Scanner.run_cons]

theorem Follows.comment {read : List Char} {xs : List Lexeme} {r : Reader} (h : Follows read xs r)
    {cs : List Char} (hr : r.rest = ';' :: cs) :
    ∃ comment, cs = comment ++ (r.skip cs).rest ∧
      Follows (read ++ ';' :: comment) xs (r.skip cs) := by
  obtain ⟨comment, hn, hcs, hafter⟩ := afterComment_eq cs
  refine ⟨comment, hcs, ?_⟩
  set u := (Scanner.init.run read).between with hu
  have hrun : Scanner.init.run (read ++ ';' :: comment) =
      { u with mode := .comment, column := 0 } := by
    rw [h.run_append (by rw [hr]; rfl), Scanner.run_semicolon (Or.inl rfl) hn,
      Scanner.turnTo_self (Scanner.between_mode _)]
  have hf : (Scanner.init.run (read ++ ';' :: comment)).finish =
      { u with mode := .comment, column := 0 } := by
    rw [hrun, Scanner.finish_eq]
    exact if_pos ⟨rfl, Scanner.between_taken _⟩
  refine ⟨by rw [hrun]; rfl, by rw [hf]; exact h.mark, by rw [hf]; exact h.done, fun c hc => ?_⟩
  obtain rfl : c = '\n' := by
    rcases hafter with hnil | hnl
    · rw [skip, hnil] at hc
      cases hc
    · rw [skip, hnl] at hc
      simpa using hc.symm
  rw [Scanner.between, hf, hrun]
  rfl

theorem Follows.token {read : List Char} {xs : List Lexeme} {r : Reader} (h : Follows read xs r)
    {c : Char} {cs : List Char} (hr : r.rest = c :: cs) (hc : c ≠ ';') :
    ∃ token, cs = token ++ (takeToken r.column c cs).rest ∧
      Follows (read ++ c :: token) (xs ++ [(takeToken r.column c cs).lexeme r.mark r.column])
        (takeToken r.column c cs).reader := by
  set p := takeToken r.column c cs with hp
  set u := (Scanner.init.run read).between with hu
  have hcolumn : u.column = r.column := (Scanner.between_column _).trans h.column
  have htaken : u.taken = [] := Scanner.between_taken _
  have hgets := Scanner.gets_token (s := u) rfl htaken hc cs
  rw [hcolumn, ← hp] at hgets
  obtain ⟨token, hcs, hf, hnext⟩ := hgets
  cases token with
  | nil =>
    -- a token has been finished, so something has been read
    rw [Scanner.run_nil, Scanner.finish_of_idle rfl htaken] at hf
    have hdone := congrArg (fun s : Scanner => s.done.length) hf
    simp [Scanner.extend] at hdone
  | cons d token =>
    obtain ⟨rfl, htail⟩ := List.cons.inj hcs
    have hrun := h.run_append (by rw [hr]; rfl) token
    rw [← hu] at hrun
    refine ⟨token, htail, ?_, ?_, ?_, fun d hd => ?_⟩
    · rw [hrun, ← Scanner.finish_column, hf]
      rfl
    · rw [hrun, hf]
      rfl
    · rw [hrun, hf, List.reverse_append, ← h.done, ← hcolumn, ← h.mark]
      simp [Scanner.extend, Part.lexeme, hu, Scanner.between]
    · rw [hrun, ← hnext d hd, Scanner.between, hf]
      rfl

/-- A turn reads some of what is left, and the scanner reads the same. -/
theorem Follows.turn {read : List Char} {xs : List Lexeme} {r r' : Reader} {x? : Option Lexeme}
    (h : Follows read xs r) (ht : Turn r x? r') :
    ∃ more, more ≠ [] ∧ r.rest = more ++ r'.rest ∧
      Follows (read ++ more) (xs ++ x?.toList) r' := by
  cases ht with
  | @comment cs hr =>
    obtain ⟨comment, hrest, hf⟩ := h.comment hr
    refine ⟨';' :: comment, List.cons_ne_nil _ _, ?_, ?_⟩
    · rw [hr, List.cons_append, ← hrest]
    · rwa [Option.toList_none, List.append_nil]
  | @token c cs hr hc =>
    obtain ⟨token, hrest, hf⟩ := h.token hr hc
    refine ⟨c :: token, List.cons_ne_nil _ _, ?_, hf⟩
    rw [hr, List.cons_append]
    exact congrArg (c :: ·) hrest

/-- Wherever the reader gets to, it follows the scanner. -/
theorem Reaches.follows {text : List Char} {xs : List Lexeme} {r : Reader}
    (h : Reaches text xs r) : ∃ read, text = read ++ r.rest ∧ Follows read xs r := by
  induction h with
  | start => exact ⟨[], rfl, follows_start text⟩
  | turn _ ht ih =>
    obtain ⟨read, htext, hf⟩ := ih
    obtain ⟨more, -, hrest, hf'⟩ := hf.turn (turn_of_eq ht)
    exact ⟨read ++ more, by rw [htext, hrest, List.append_assoc], hf'⟩

theorem Reaches.eq_scan {text : List Char} {xs : List Lexeme} {r : Reader}
    (h : Reaches text xs r) (hr : r.rest = []) : xs = scan text := by
  obtain ⟨read, htext, hf⟩ := h.follows
  rw [hr, List.append_nil] at htext
  rw [scan, htext, hf.done, List.reverse_reverse]

theorem Reaches.to_end {text : List Char} {xs : List Lexeme} {r : Reader}
    (h : Reaches text xs r) : ∃ ys r', Reaches text (xs ++ ys) r' ∧ r'.rest = [] := by
  rcases r.turn_cases with ⟨hr, -⟩ | ⟨x?, r', ht, hturn⟩
  · exact ⟨[], r, by rwa [List.append_nil], hr⟩
  obtain ⟨read, -, hf⟩ := h.follows
  obtain ⟨more, hmore, hrest, -⟩ := hf.turn hturn
  have hlen : r'.rest.length < r.rest.length := by
    rw [hrest, List.length_append]
    have := List.length_pos_of_ne_nil hmore
    omega
  obtain ⟨ys, r'', hreach, hend⟩ := (h.turn ht).to_end
  exact ⟨x?.toList ++ ys, r'', by rwa [← List.append_assoc], hend⟩
termination_by r.rest.length

/-- What the reader has read are the first tokens of the text. -/
theorem Reaches.isPrefix {text : List Char} {xs : List Lexeme} {r : Reader}
    (h : Reaches text xs r) : xs <+: scan text := by
  obtain ⟨ys, r', hreach, hend⟩ := h.to_end
  exact ⟨ys, hreach.eq_scan hend⟩

theorem reaches_scan (text : List Char) : ∃ r, Reaches text (scan text) r ∧ r.rest = [] := by
  have hstart : Reaches text [] (.start text) := .start
  obtain ⟨ys, r, hreach, hend⟩ := hstart.to_end
  rw [hreach.eq_scan hend] at hreach
  exact ⟨r, hreach, hend⟩

/-! ### The two columns -/

/-- At the head of the loop the columns agree, but for right after a comment,
where the next character is the line feed that ends it. -/
theorem Reaches.columns {text : List Char} {xs : List Lexeme} {r : Reader}
    (h : Reaches text xs r) :
    r.mark = r.column ∨ r.column = 0 ∧ (r.rest = [] ∨ r.rest.head? = some '\n') := by
  cases h with
  | start => exact Or.inl rfl
  | turn _ ht =>
    cases turn_of_eq ht with
    | @comment cs _ =>
      obtain ⟨-, -, -, hafter⟩ := afterComment_eq cs
      exact Or.inr ⟨rfl, hafter⟩
    | token _ _ => exact Or.inl rfl

/-- A token that is no run of blanks begins where the token before it
ended. -/
theorem Reaches.start_eq {text : List Char} {xs : List Lexeme} {r : Reader}
    (h : Reaches text xs r) : ∀ x ∈ xs, x.token.kind ≠ .space → x.start = x.token.column := by
  induction h with
  | start => exact fun x hx => absurd hx List.not_mem_nil
  | turn hreach ht ih =>
    intro x hx hk
    rcases List.mem_append.1 hx with hx | hx
    · exact ih x hx hk
    cases turn_of_eq ht with
    | comment _ => cases hx
    | token hr _ =>
      obtain rfl := List.mem_singleton.1 hx
      rcases hreach.columns with heq | ⟨-, hnil | hline⟩
      · exact heq.symm
      · rw [hnil] at hr
        cases hr
      · -- a token that begins with a line feed is a run of blanks
        rw [hr] at hline
        obtain rfl := Option.some.inj hline
        rw [takeToken_blank _ rfl] at hk
        exact absurd (kind_takeBlanks _ _) hk

end Reader

theorem start_eq_column {text : List Char} {x : Lexeme} (hx : x ∈ scan text)
    (hk : x.token.kind ≠ .space) : x.start = x.token.column := by
  obtain ⟨r, hreach, -⟩ := Reader.reaches_scan text
  exact hreach.start_eq x hx hk

namespace Log

/-- A literal left open is logged at the column of its token. -/
theorem ofLexeme_unterminated {text : List Char} {x : Lexeme} (hx : x ∈ scan text)
    (hk : x.token.kind = .unterminated) :
    ofLexeme x = [.literalLeftOpen x.token.column, .token x.token] := by
  rw [ofLexeme, if_pos hk, start_eq_column hx (by simp [hk])]

/-- Nothing but its tokens is logged of a text before a literal left open. -/
theorem reading_unterminated {text : List Char} {x : Lexeme} (hx : x ∈ scan text)
    (hk : x.token.kind = .unterminated) :
    reading text =
      (tokenize text).dropLast.map .token ++ [.literalLeftOpen x.token.column, .token x.token] := by
  have hne : scan text ≠ [] := List.ne_nil_of_mem hx
  have hclosed : ∀ y ∈ (scan text).dropLast, y.token.kind ≠ .unterminated := by
    intro y hy
    apply kind_ne_unterminated text
    rw [tokenize, ← List.map_dropLast]
    exact List.mem_map_of_mem hy
  have hlast : (scan text).getLast hne = x := by
    rw [← List.dropLast_concat_getLast hne, List.mem_append, List.mem_singleton] at hx
    rcases hx with hx | hx
    · exact absurd hk (hclosed x hx)
    · exact hx.symm
  calc reading text
      = ((scan text).dropLast ++ [x]).flatMap ofLexeme := by
        rw [reading, ← hlast, List.dropLast_concat_getLast]
    _ = (scan text).dropLast.flatMap ofLexeme ++ ofLexeme x := by
        rw [List.flatMap_append, List.flatMap_singleton]
    _ = (tokenize text).dropLast.map .token ++
          [.literalLeftOpen x.token.column, .token x.token] := by
        rw [flatMap_ofLexeme hclosed, ofLexeme_unterminated hx hk, tokenize, ← List.map_dropLast]

end Log

/-- **The two columns agree wherever it matters.** At the head of the reader's
loop, after any turns, the mark is the running column, or the running column
is 0 and the text ends or goes on with a line feed. The reader follows the
scanner and reads the first tokens of the text, in the end all of them. So a
literal left open is logged at the column of its token, which is the column
that `parse` reports. -/
theorem counters_agree (text : List Char) :
    (∀ xs r, Reader.Reaches text xs r →
        (r.mark = r.column ∨ r.column = 0 ∧ (r.rest = [] ∨ r.rest.head? = some '\n')) ∧
          (∃ read, text = read ++ r.rest ∧ Reader.Follows read xs r) ∧ xs <+: scan text) ∧
      (∃ r, Reader.Reaches text (scan text) r ∧ r.rest = []) ∧
      ∀ x ∈ scan text, x.token.kind = .unterminated →
        Log.ofLexeme x = [.literalLeftOpen x.token.column, .token x.token] ∧
          Log.reading text = (tokenize text).dropLast.map .token ++
            [.literalLeftOpen x.token.column, .token x.token] ∧
          parse text = .error (.unterminatedLiteral x.token.column) := by
  refine ⟨fun xs r h => ⟨h.columns, h.follows, h.isPrefix⟩, Reader.reaches_scan text,
    fun x hx hk => ?_⟩
  exact ⟨Log.ofLexeme_unterminated hx hk, Log.reading_unterminated hx hk,
    parse_of_fault (fault_of_unterminated (List.mem_map_of_mem hx) hk)⟩

/-- After a comment the columns differ; the run of blanks that begins with the
line feed makes them equal, and a literal is then left open. -/
example :
    let text := ['a', ';', '"', '\n', ' ', '"', 'b']
    (Scanner.init.run ['a', ';', '"']).finish.mark = 1 ∧
      (Scanner.init.run ['a', ';', '"']).column = 0 ∧
      Log.reading text = [.token ⟨.atom, ['a'], 0⟩, .token ⟨.space, ['\n', ' '], 1⟩,
        .literalLeftOpen 1, .token ⟨.unterminated, ['"', 'b'], 1⟩] := by decide

end ParenLint
