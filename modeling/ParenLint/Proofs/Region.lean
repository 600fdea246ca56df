/-
# Texts without their comments

Which part of a text a character is in (`Region`) can be told one character
at a time, without tokens: outside literals and comments, in a literal, after
a backslash in one, or in a comment. A comment runs from its semicolon up to
the next line feed, and `strip` takes the comments out.

The scanner agrees with this. Its mode says which region the next character
is in (`region_run`), and the characters in its tokens, finished and open,
are those it has read less the comments (`kept_run`). So the tokens of a text
hold the text without its comments, and a literal is open at its end exactly
if the text ends inside one (`tokenize_strip`).

Key definitions: `Region.next`, `Region.keeps`, `Region.after`, `strip`,
`Scanner.kept`.
Key theorems: `Scanner.region_run`, `Scanner.kept_run`, `tokenize_strip`.
-/
import ParenLint.Proofs.Scanning

namespace ParenLint

inductive Region
  | code
  | literal
  /-- In a literal, right after a backslash. -/
  | escape
  | comment
  deriving DecidableEq

namespace Region

def next : Region → Char → Region
  | code, c => if c = '"' then literal else if c = ';' then comment else code
  | literal, c => if c = '\\' then escape else if c = '"' then code else literal
  | escape, _ => literal
  | comment, c => if c = '\n' then code else comment

/-- Whether the character `c` is outside comments. The semicolon that begins
a comment is part of it, the line feed after it is not. -/
def keeps : Region → Char → Bool
  | code, c => c ≠ ';'
  | literal, _ => true
  | escape, _ => true
  | comment, c => c = '\n'

def after (r : Region) (cs : List Char) : Region := cs.foldl next r

@[simp] theorem after_nil (r : Region) : r.after [] = r := rfl

@[simp] theorem after_cons (r : Region) (c : Char) (cs : List Char) :
    r.after (c :: cs) = (r.next c).after cs := rfl

theorem after_append (r : Region) (cs ds : List Char) :
    r.after (cs ++ ds) = (r.after cs).after ds := by
  simp [after]

/-- A character taken out is in a comment, and so is what follows. -/
theorem next_of_not_keeps {r : Region} {c : Char} (h : r.keeps c = false) :
    r.next c = .comment := by
  cases r with
  | code => have : c = ';' := by simpa [keeps] using h
            simp [next, this]
  | literal => simp [keeps] at h
  | escape => simp [keeps] at h
  | comment => have : c ≠ '\n' := by simpa [keeps] using h
               simp [next, this]

theorem next_ne_comment {r : Region} {c : Char} (hr : r ≠ .comment) (hk : r.keeps c = true) :
    r.next c ≠ .comment := by
  cases r with
  | code =>
    have hs : c ≠ ';' := by simpa [keeps] using hk
    by_cases hq : c = '"' <;> simp [next, hq, hs]
  | literal => by_cases hb : c = '\\' <;> by_cases hq : c = '"' <;> simp [next, hb, hq]
  | escape => simp [next]
  | comment => exact absurd rfl hr

theorem next_code {c : Char} (hq : c ≠ '"') (hs : c ≠ ';') : next .code c = .code := by
  simp [next, hq, hs]

end Region

open Region

/-- The text `cs`, which begins in the region `r`, without its comments. -/
def strip (r : Region) : List Char → List Char
  | [] => []
  | c :: cs => if r.keeps c then c :: strip (r.next c) cs else strip (r.next c) cs

@[simp] theorem strip_nil (r : Region) : strip r [] = [] := rfl

theorem strip_singleton (r : Region) (c : Char) :
    strip r [c] = if r.keeps c then [c] else [] := rfl

theorem strip_append : ∀ (cs : List Char) (r : Region) (ds : List Char),
    strip r (cs ++ ds) = strip r cs ++ strip (r.after cs) ds
  | [], _, _ => rfl
  | c :: cs, r, ds => by
    by_cases h : r.keeps c = true
    · simp [strip, h, strip_append cs]
    · simp [strip, h, strip_append cs]

theorem strip_eq_self (text : List Char) (r : Region) (hr : r ≠ .comment)
    (h : ∀ before rest, text = before ++ ';' :: rest → r.after before ≠ .code) :
    strip r text = text := by
  induction text generalizing r with
  | nil => rfl
  | cons c cs ih =>
    have hk : r.keeps c = true := by
      cases r with
      | code =>
        have : c ≠ ';' := fun hc => h [] cs (by simp [hc]) rfl
        simpa [keeps] using this
      | literal => rfl
      | escape => rfl
      | comment => exact absurd rfl hr
    have hcs : strip (r.next c) cs = cs :=
      ih (r.next c) (next_ne_comment hr hk) fun before rest hb =>
        h (c :: before) rest (by rw [hb]; rfl)
    rw [strip, if_pos hk, hcs]

namespace Scanner

def Mode.region : Mode → Region
  | .gap => .code
  | .comment => .comment
  | .atom => .code
  | .literal => .literal
  | .escape => .escape

theorem Mode.region_ne_comment {mode : Mode} (h : mode ≠ .comment) : mode.region ≠ .comment := by
  cases mode <;> first | exact absurd rfl h | simp [region]

/-- The characters of the finished tokens, then those of the open one. -/
def kept (s : Scanner) : List Char := s.done.reverse.flatMap (·.token.text) ++ s.taken.reverse

theorem kept_take (s : Scanner) (mode : Mode) (column : Nat) (c : Char) :
    (s.take mode column c).kept = s.kept ++ [c] := by
  simp [kept]

theorem kept_close (s : Scanner) (kind : Token.Kind) : (s.close kind).kept = s.kept := by
  simp [kept]

theorem kept_finish (s : Scanner) : s.finish.kept = s.kept := by
  unfold finish
  split
  · split <;> [rfl; exact kept_close s _]
  · split <;> [rfl; exact kept_close s _]
  all_goals exact kept_close s _

theorem kept_turnTo (s : Scanner) (mode : Mode) : (s.turnTo mode).kept = s.kept :=
  turnTo_ind (P := fun t => t.kept = s.kept) mode rfl (kept_finish s)

theorem region_of_inCode {s : Scanner} (h : s.InCode) : s.mode.region = .code := by
  rcases h with h | h <;> rw [h] <;> rfl

theorem inCode_of_region {s : Scanner} (h : s.mode.region = .code) : s.InCode := by
  unfold InCode
  cases hm : s.mode <;> rw [hm] at h <;> first | exact Or.inl rfl | exact Or.inr rfl | cases h

/-- One character moves the scanner to the region after it, and is kept
unless it is in a comment. -/
theorem Move.region_kept {s s' : Scanner} {c : Char} (h : Move s c s') :
    s'.mode.region = s.mode.region.next c ∧ s'.kept = s.kept ++ strip s.mode.region [c] := by
  cases h with
  | blank hc hb =>
    have hcs : c ≠ '"' ∧ c ≠ ';' := by
      rcases isBlank_iff.1 hb with rfl | rfl | rfl | rfl <;> decide
    rw [region_of_inCode hc, next_code hcs.1 hcs.2, kept_take, kept_turnTo, strip_singleton]
    exact ⟨rfl, by simp [keeps, hcs.2]⟩
  | semicolon hc hs =>
    rw [region_of_inCode hc, strip_singleton, hs]
    refine ⟨rfl, ?_⟩
    show (s.turnTo .gap).kept = _
    rw [kept_turnTo]
    simp [keeps]
  | paren hc hk =>
    have hcs : c ≠ '"' ∧ c ≠ ';' := by cases hk <;> decide
    rw [region_of_inCode hc, next_code hcs.1 hcs.2, kept_close, kept_take, kept_finish,
      strip_singleton]
    exact ⟨rfl, by simp [keeps, hcs.2]⟩
  | quote hc hq =>
    rw [region_of_inCode hc, kept_take, kept_finish, strip_singleton, hq]
    exact ⟨rfl, by simp [keeps]⟩
  | atom hc ha =>
    obtain ⟨-, -, hq, hs, -⟩ := isAtomChar_iff.1 ha
    rw [region_of_inCode hc, next_code hq hs, kept_take, kept_turnTo, strip_singleton]
    exact ⟨rfl, by simp [keeps, hs]⟩
  | lineEnd hm hn =>
    rw [hm, kept_take, strip_singleton, hn]
    exact ⟨rfl, by simp [keeps, Mode.region]⟩
  | skip hm hn =>
    rw [hm, strip_singleton]
    exact ⟨by simp [Mode.region, next, hn], by simp [keeps, Mode.region, hn]⟩
  | unquote hm hq =>
    rw [hm, kept_close, kept_take, strip_singleton, hq]
    exact ⟨rfl, by simp [keeps, Mode.region]⟩
  | backslash hm hb =>
    rw [hm, kept_take, strip_singleton, hb]
    exact ⟨rfl, by simp [keeps, Mode.region]⟩
  | plain hm hq hb =>
    rw [hm, kept_take, strip_singleton]
    exact ⟨by simp [Mode.region, next, hq, hb], by simp [keeps, Mode.region]⟩
  | escaped hm =>
    rw [hm, kept_take, strip_singleton]
    exact ⟨rfl, by simp [keeps, Mode.region]⟩

theorem Move.reads {read : List Char} {s s' : Scanner} {c : Char} (h : Move s c s')
    (hr : s.mode.region = after .code read) (hk : s.kept = strip .code read) :
    s'.mode.region = after .code (read ++ [c]) ∧ s'.kept = strip .code (read ++ [c]) := by
  obtain ⟨hr', hk'⟩ := h.region_kept
  rw [hr', hk', hr, hk, after_append, strip_append]
  exact ⟨rfl, rfl⟩

theorem region_kept_run (text : List Char) :
    (init.run text).mode.region = after .code text ∧ (init.run text).kept = strip .code text := by
  refine run_induction (P := fun read s =>
    s.mode.region = after .code read ∧ s.kept = strip .code read) ⟨rfl, rfl⟩ ?_ text
  exact fun read c s' h hm => hm.reads h.1 h.2

theorem region_run (text : List Char) : (init.run text).mode.region = after .code text :=
  (region_kept_run text).1

/-- What the tokens hold is what has been read, without the comments. -/
theorem kept_run (text : List Char) : (init.run text).kept = strip .code text :=
  (region_kept_run text).2

end Scanner

theorem texts_tokenize (text : List Char) :
    (tokenize text).flatMap Token.text = strip .code text := by
  have h := Scanner.kept_finish (Scanner.init.run text)
  rw [Scanner.kept_run, Scanner.kept, Scanner.finish_taken, List.reverse_nil, List.append_nil] at h
  rw [← h, tokenize, scan, List.flatMap_map]

/-- The last token is a literal left open exactly if the scanner is in a
literal. -/
theorem getLast_kind_iff (text : List Char) :
    (∃ t, (tokenize text).getLast? = some t ∧ t.kind = .unterminated) ↔
      after .code text = .literal ∨ after .code text = .escape := by
  set s := Scanner.init.run text with hs
  have hlast : (tokenize text).getLast? = s.finish.done.head?.map Lexeme.token := by
    rw [tokenize, scan, List.getLast?_map, List.getLast?_reverse]
  have hopen : s.Terminated := Scanner.terminated_run text
  rw [hlast, ← Scanner.region_run, ← hs]
  -- in code and in comments the last token is a finished one, a run of blanks or an atom
  have hne : ∀ u : Scanner, u.Terminated →
      ¬ ∃ t, u.done.head?.map Lexeme.token = some t ∧ t.kind = .unterminated := by
    rintro u hu ⟨t, ht, hk⟩
    obtain ⟨x, hx, rfl⟩ := Option.map_eq_some_iff.1 ht
    exact hu x (List.mem_of_mem_head? hx) hk
  cases hm : s.mode with
  | gap => simpa [Scanner.Mode.region] using hne _ (hopen.finish (Or.inl hm))
  | atom => simpa [Scanner.Mode.region] using hne _ (hopen.finish (Or.inr hm))
  | comment =>
    have hf : s.finish.Terminated := by
      unfold Scanner.finish
      rw [hm]
      dsimp only
      split
      · exact hopen
      · exact hopen.close (by decide)
    simpa [Scanner.Mode.region] using hne _ hf
  | literal => simp [Scanner.Mode.region, Scanner.finish, hm]
  | escape => simp [Scanner.Mode.region, Scanner.finish, hm]

theorem terminated_iff (text : List Char) :
    (∀ t ∈ tokenize text, t.kind ≠ .unterminated) ↔
      after .code text ≠ .literal ∧ after .code text ≠ .escape := by
  have hlast := getLast_kind_iff text
  constructor
  · intro h
    have hno : ¬ ∃ t, (tokenize text).getLast? = some t ∧ t.kind = .unterminated := by
      rintro ⟨t, ht, hk⟩
      exact h t (List.mem_of_getLast? ht) hk
    rwa [hlast, not_or] at hno
  · rintro hr t ht hk
    have hne : tokenize text ≠ [] := List.ne_nil_of_mem ht
    rw [← List.dropLast_concat_getLast hne, List.mem_append, List.mem_singleton] at ht
    rcases ht with ht | rfl
    · exact kind_ne_unterminated text t ht hk
    · exact not_or.2 hr (hlast.1 ⟨_, List.getLast?_eq_some_getLast hne, hk⟩)

/-- **Tokens lose nothing but comments.** The texts of the tokens of a text,
one after the other, are the text without its comments, and the text itself
if no comment begins in it; and a literal is left open, as the last token
only, exactly if the text ends inside one. -/
theorem tokenize_strip (text : List Char) :
    (tokenize text).flatMap Token.text = strip .code text ∧
      ((∀ before rest, text = before ++ ';' :: rest → after .code before ≠ .code) →
        (tokenize text).flatMap Token.text = text) ∧
      ((∃ t, (tokenize text).getLast? = some t ∧ t.kind = .unterminated) ↔
        after .code text = .literal ∨ after .code text = .escape) ∧
      ∀ t ∈ (tokenize text).dropLast, t.kind ≠ .unterminated := by
  refine ⟨texts_tokenize text, fun h => ?_, getLast_kind_iff text, kind_ne_unterminated text⟩
  rw [texts_tokenize, strip_eq_self text .code (by decide) h]

end ParenLint
