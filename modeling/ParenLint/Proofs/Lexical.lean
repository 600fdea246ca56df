/-
# The lexical grammar

A token sequence, as kinds with their characters, is well formed if every
token has a form its kind allows (`Lexical`), a literal left open comes last,
and no two atoms and no two runs of blanks are side by side. The tokens of
every text are well formed, and a well-formed sequence is what the text made
of its tokens, one after the other, is read as.

The first half is an invariant of the scanner (`Scanner.Lexed`): the
finished tokens are well formed, and the open one can still become a token
that may follow them. Comments are the case to watch: one that begins after
an atom ends the atom, and one in a run of blanks does not end the run, so
what follows it is a line feed and goes into the run or begins one. The
second half reads a sequence token by token: a scanner that is `Ready` for a
kind adds the next token whole (`Scanner.adds_token`).

Key definitions: `Units`, `Lexical`, `Apart`, `WellFormed`, `shapes`.
Key theorems: `wellFormed_tokenize`, `shapes_tokenize_texts`,
`tokenize_lexical`.
-/
import ParenLint.Proofs.Scanning
import Mathlib.Data.List.Chain

namespace ParenLint

/-! ### The grammar -/

/-- What may stand between the quotes of a literal: characters other than
quote and backslash, and backslashes with the character after them. -/
inductive Units : List Char → Prop
  | nil : Units []
  | plain {c : Char} {cs : List Char} : c ≠ '"' → c ≠ '\\' → Units cs → Units (c :: cs)
  | escape {c : Char} {cs : List Char} : Units cs → Units ('\\' :: c :: cs)

theorem Units.append {cs ds : List Char} (h : Units cs) (hd : Units ds) : Units (cs ++ ds) := by
  induction h with
  | nil => exact hd
  | plain hq hb _ ih => exact .plain hq hb ih
  | escape _ ih => exact .escape ih

/-- The texts that a token of each kind can have. -/
def Lexical : Token.Kind → List Char → Prop
  | .leftParen, text => text = ['(']
  | .rightParen, text => text = [')']
  | .atom, text => text ≠ [] ∧ ∀ c ∈ text, c ∉ ['(', ')', '"', ';', ' ', '\t', '\n', '\r']
  | .space, text => text ≠ [] ∧ ∀ c ∈ text, c ∈ [' ', '\t', '\n', '\r']
  | .literal, text => ∃ us, Units us ∧ text = '"' :: (us ++ ['"'])
  | .unterminated, text => ∃ us, Units us ∧ (text = '"' :: us ∨ text = '"' :: (us ++ ['\\']))

/-- The kinds of two tokens that may stand side by side. -/
def Apart (k k' : Token.Kind) : Prop :=
  ¬ (k = .atom ∧ k' = .atom) ∧ ¬ (k = .space ∧ k' = .space)

/-- A sequence of tokens, as kinds with their texts, that the grammar
allows. -/
structure WellFormed (ps : List (Token.Kind × List Char)) : Prop where
  lexical : ∀ p ∈ ps, Lexical p.1 p.2
  open_last : ∀ p ∈ ps.dropLast, p.1 ≠ .unterminated
  apart : ps.IsChain fun p q => Apart p.1 q.1

theorem WellFormed.cons {p : Token.Kind × List Char} {ps : List (Token.Kind × List Char)}
    (hl : Lexical p.1 p.2) (ho : ps ≠ [] → p.1 ≠ .unterminated)
    (ha : ∀ q ∈ ps.head?, Apart p.1 q.1) (h : WellFormed ps) : WellFormed (p :: ps) where
  lexical := List.forall_mem_cons.2 ⟨hl, h.lexical⟩
  open_last q hq := by
    have hne : ps ≠ [] := fun hnil => by simp [hnil] at hq
    rw [List.dropLast_cons_of_ne_nil hne] at hq
    rcases List.mem_cons.1 hq with rfl | hq
    · exact ho hne
    · exact h.open_last q hq
  apart := List.isChain_cons.2 ⟨ha, h.apart⟩

theorem WellFormed.ne_unterminated {p : Token.Kind × List Char}
    {ps : List (Token.Kind × List Char)} (h : WellFormed (p :: ps)) (hne : ps ≠ []) :
    p.1 ≠ .unterminated := by
  apply h.open_last
  rw [List.dropLast_cons_of_ne_nil hne]
  exact List.mem_cons_self

theorem WellFormed.tail {p : Token.Kind × List Char} {ps : List (Token.Kind × List Char)}
    (h : WellFormed (p :: ps)) : WellFormed ps where
  lexical q hq := h.lexical q (List.mem_cons_of_mem _ hq)
  open_last q hq := by
    refine h.open_last q ?_
    rw [List.dropLast_cons_of_ne_nil fun hnil => by simp [hnil] at hq]
    exact List.mem_cons_of_mem _ hq
  apart := h.apart.tail

def shapes (ts : List Token) : List (Token.Kind × List Char) := ts.map fun t => (t.kind, t.text)

theorem WellFormed.head {t : Token} {ts : List Token} (h : WellFormed (shapes (t :: ts))) :
    Lexical t.kind t.text ∧ ∀ u ∈ ts.head?, Apart t.kind u.kind := by
  refine ⟨h.lexical (t.kind, t.text) List.mem_cons_self, fun u hu => ?_⟩
  apply (List.isChain_cons.1 h.apart).1 (u.kind, u.text)
  rw [List.head?_map, Option.mem_def.1 hu]
  rfl

theorem mem_blanks_iff {c : Char} : c ∈ [' ', '\t', '\n', '\r'] ↔ isBlank c = true := by
  simp [isBlank_iff]

theorem not_mem_specials_iff {c : Char} :
    c ∉ ['(', ')', '"', ';', ' ', '\t', '\n', '\r'] ↔ isAtomChar c = true := by
  simp [isAtomChar, isBlank, and_assoc]

/-! ### Tokens of a text are well formed -/

namespace Scanner

def last? (s : Scanner) : Option Token.Kind := s.done.head?.map (·.token.kind)

/-- What the open token can be, given the kind of the token before it. -/
def Opened (last : Option Token.Kind) : Mode → List Char → Prop
  | .gap, text => (∀ c ∈ text, isBlank c = true) ∧ last ≠ some .space ∧
      (text = [] → last ≠ some .atom)
  | .comment, text => (∀ c ∈ text, isBlank c = true) ∧ last ≠ some .space
  | .atom, text => text ≠ [] ∧ (∀ c ∈ text, isAtomChar c = true) ∧ last ≠ some .atom
  | .literal, text => ∃ us, Units us ∧ text = '"' :: us
  | .escape, text => ∃ us, Units us ∧ text = '"' :: (us ++ ['\\'])

/-- The finished tokens, latest first, have the form of their kinds and may
stand side by side. -/
structure Finished (done : List Lexeme) : Prop where
  lexical : ∀ x ∈ done, Lexical x.token.kind x.token.text
  apart : done.IsChain fun x y => Apart y.token.kind x.token.kind

theorem Finished.close {s : Scanner} (h : Finished s.done) {kind : Token.Kind}
    (hl : Lexical kind s.taken.reverse) (ha : kind = .atom → s.last? ≠ some .atom)
    (hs : kind = .space → s.last? ≠ some .space) : Finished (s.close kind).done := by
  refine
    { lexical := fun x hx => ?_
      apart := List.isChain_cons.2 ⟨fun y hy => ?_, h.apart⟩ }
  · rcases List.mem_cons.1 hx with rfl | hx
    · exact hl
    · exact h.lexical x hx
  · have hlast : s.last? = some y.token.kind := by rw [last?, Option.mem_def.1 hy]; rfl
    rw [hlast] at ha hs
    exact ⟨fun hk => ha hk.2 (congrArg some hk.1), fun hk => hs hk.2 (congrArg some hk.1)⟩

/-- What holds of the scanner at every moment: the finished tokens are well
formed, and the open one may follow them. -/
structure Lexed (s : Scanner) : Prop where
  finished : Finished s.done
  opened : Opened s.last? s.mode s.taken.reverse

theorem lexed_init : init.Lexed :=
  ⟨⟨by simp [init], by simp [init]⟩, by simp [Opened, init, last?]⟩

theorem lexical_space {text : List Char} (h : ∀ c ∈ text, isBlank c = true) (hne : text ≠ []) :
    Lexical .space text :=
  ⟨hne, fun c hc => mem_blanks_iff.2 (h c hc)⟩

theorem lexical_atom {text : List Char} (h : ∀ c ∈ text, isAtomChar c = true) (hne : text ≠ []) :
    Lexical .atom text :=
  ⟨hne, fun c hc => not_mem_specials_iff.2 (h c hc)⟩

/-- Ending the open token keeps the finished ones well formed, whatever the
token is. -/
theorem Lexed.finish {s : Scanner} (h : s.Lexed) : Finished s.finish.done := by
  have ho := h.opened
  have space (hb : ∀ c ∈ s.taken.reverse, isBlank c = true) (hl : s.last? ≠ some .space) :
      Finished (if s.taken = [] then s else s.close .space).done := by
    split
    · exact h.finished
    · exact h.finished.close (lexical_space hb (by simpa)) (by simp) fun _ => hl
  unfold Scanner.finish
  cases hm : s.mode with
  | gap => rw [hm] at ho; exact space ho.1 ho.2.1
  | comment => rw [hm] at ho; exact space ho.1 ho.2
  | atom =>
    rw [hm] at ho
    exact h.finished.close (lexical_atom ho.2.1 ho.1) (fun _ => ho.2.2) (by simp)
  | literal =>
    rw [hm] at ho
    obtain ⟨us, hu, ht⟩ := ho
    exact h.finished.close ⟨us, hu, Or.inl ht⟩ (by simp) (by simp)
  | escape =>
    rw [hm] at ho
    obtain ⟨us, hu, ht⟩ := ho
    exact h.finished.close ⟨us, hu, Or.inr ht⟩ (by simp) (by simp)

/-- Outside literals and comments, the token before a new one is not an atom,
unless an atom has just been ended, and then it is no run of blanks. -/
theorem Lexed.last_finish {s : Scanner} (h : s.Lexed) (hc : s.InCode) :
    (s.mode = .gap → s.finish.last? ≠ some .atom) ∧
      (s.mode = .atom → s.finish.last? = some .atom) := by
  have ho := h.opened
  rcases finish_cases hc with ⟨hm, ht, hf⟩ | ⟨hm, -, hf⟩ | ⟨hm, hf⟩
  · rw [hm, ht] at ho
    rw [hf]
    exact ⟨fun _ => ho.2.2 rfl, fun h => by simp [hm] at h⟩
  · rw [hf]
    exact ⟨fun _ => by simp [last?], fun h => by simp [hm] at h⟩
  · rw [hf]
    exact ⟨fun h => by simp [hm] at h, fun _ => rfl⟩

theorem Lexed.turnTo_gap {s : Scanner} (h : s.Lexed) (hc : s.InCode) :
    Finished (s.turnTo .gap).done ∧
      (∀ c ∈ (s.turnTo .gap).taken.reverse, isBlank c = true) ∧
      (s.turnTo .gap).last? ≠ some .space := by
  have ho := h.opened
  rcases hc with hm | hm
  · rw [turnTo_self hm]
    rw [hm] at ho
    exact ⟨h.finished, ho.1, ho.2.1⟩
  · rw [turnTo_of_ne (by simp [hm]), finish_taken]
    refine ⟨h.finish, by simp, ?_⟩
    rw [(h.last_finish (Or.inr hm)).2 hm]
    decide

theorem Lexed.turnTo_atom {s : Scanner} (h : s.Lexed) (hc : s.InCode) :
    Finished (s.turnTo .atom).done ∧
      (∀ c ∈ (s.turnTo .atom).taken.reverse, isAtomChar c = true) ∧
      (s.turnTo .atom).last? ≠ some .atom := by
  have ho := h.opened
  rcases hc with hm | hm
  · rw [turnTo_of_ne (by simp [hm]), finish_taken]
    exact ⟨h.finish, by simp, (h.last_finish (Or.inl hm)).1 hm⟩
  · rw [turnTo_self hm]
    rw [hm] at ho
    exact ⟨h.finished, ho.2.1, ho.2.2⟩

theorem forall_mem_reverse_cons {p : Char → Prop} {c : Char} {cs : List Char} (hc : p c)
    (h : ∀ d ∈ cs.reverse, p d) : ∀ d ∈ (c :: cs).reverse, p d := by
  intro d hd
  rw [List.reverse_cons, List.mem_append, List.mem_singleton] at hd
  rcases hd with hd | rfl
  · exact h d hd
  · exact hc

theorem Lexed.move {s s' : Scanner} {c : Char} (h : s.Lexed) (hm : Move s c s') :
    s'.Lexed := by
  have ho := h.opened
  cases hm with
  | blank hc hb =>
    obtain ⟨hf, ht, hl⟩ := h.turnTo_gap hc
    exact ⟨hf, forall_mem_reverse_cons hb ht, hl, by simp⟩
  | semicolon hc _ =>
    obtain ⟨hf, ht, hl⟩ := h.turnTo_gap hc
    exact ⟨hf, ht, hl⟩
  | @paren kind hc hk =>
    have hf : Finished (s.finish.take .gap (Column.advance s.column c) c).done := h.finish
    refine ⟨hf.close ?_ ?_ ?_, by simp, ?_, ?_⟩
    · rw [take_taken, finish_taken]
      cases hk <;> rfl
    all_goals cases hk <;> simp [last?]
  | quote hc hq =>
    refine ⟨h.finish, [], .nil, ?_⟩
    rw [take_taken, finish_taken, hq]
    rfl
  | atom hc ha =>
    obtain ⟨hf, ht, hl⟩ := h.turnTo_atom hc
    exact ⟨hf, by simp, forall_mem_reverse_cons ha ht, hl⟩
  | lineEnd hm hn =>
    rw [hm] at ho
    exact ⟨h.finished, forall_mem_reverse_cons (by rw [hn]; rfl) ho.1, ho.2, by simp⟩
  | skip _ _ => exact h
  | unquote hm hq =>
    rw [hm] at ho
    obtain ⟨us, hu, ht⟩ := ho
    have hf : Finished (s.take .literal (Column.advanceInLiteral s.column c) c).done := h.finished
    refine ⟨hf.close ⟨us, hu, ?_⟩ (by simp) (by simp), by simp, by simp [last?], by simp [last?]⟩
    rw [take_taken, List.reverse_cons, ht, hq]
    rfl
  | backslash hm hb =>
    rw [hm] at ho
    obtain ⟨us, hu, ht⟩ := ho
    refine ⟨h.finished, us, hu, ?_⟩
    rw [take_taken, List.reverse_cons, ht, hb]
    rfl
  | plain hm hq hb =>
    rw [hm] at ho
    obtain ⟨us, hu, ht⟩ := ho
    refine ⟨h.finished, us ++ [c], hu.append (.plain hq hb .nil), ?_⟩
    rw [take_taken, List.reverse_cons, ht]
    rfl
  | escaped hm =>
    rw [hm] at ho
    obtain ⟨us, hu, ht⟩ := ho
    refine ⟨h.finished, us ++ ['\\', c], hu.append (.escape .nil), ?_⟩
    rw [take_taken, List.reverse_cons, ht]
    simp

theorem lexed_run (text : List Char) : (init.run text).Lexed :=
  run_induction (P := fun _ s => s.Lexed) lexed_init (fun _ _ _ h hm => h.move hm) text

end Scanner

theorem wellFormed_tokenize (text : List Char) : WellFormed (shapes (tokenize text)) := by
  have hf := (Scanner.lexed_run text).finish
  refine
    { lexical := fun p hp => ?_
      open_last := fun p hp => ?_
      apart := ?_ }
  · simp only [shapes, tokenize, scan, List.mem_map, List.mem_reverse] at hp
    obtain ⟨_, ⟨x, hx, rfl⟩, rfl⟩ := hp
    exact hf.lexical x hx
  · rw [shapes, ← List.map_dropLast] at hp
    obtain ⟨t, ht, rfl⟩ := List.mem_map.1 hp
    exact kind_ne_unterminated text t ht
  · rw [shapes, tokenize, scan, List.map_map, List.isChain_map, List.isChain_reverse]
    exact hf.apart

/-! ### Well-formed sequences are read back -/

namespace Scanner

def doneShapes (done : List Lexeme) : List (Token.Kind × List Char) :=
  done.reverse.map fun x => (x.token.kind, x.token.text)

def shapesRead (s : Scanner) : List (Token.Kind × List Char) := doneShapes s.finish.done

theorem shapes_tokenize (text : List Char) :
    shapes (tokenize text) = (init.run text).shapesRead := by
  simp [shapes, tokenize, scan, shapesRead, doneShapes]

theorem doneShapes_close (s : Scanner) (kind : Token.Kind) :
    doneShapes (s.close kind).done = doneShapes s.done ++ [(kind, s.taken.reverse)] := by
  simp [doneShapes]

/-- Reading `cs` from `s` puts it into the open token. -/
structure Takes (s : Scanner) (cs : List Char) (mode : Mode) : Prop where
  mode : (s.run cs).mode = mode
  taken : (s.run cs).taken = cs.reverse ++ s.taken
  done : (s.run cs).done = s.done

theorem Takes.nil (s : Scanner) : Takes s [] s.mode := ⟨rfl, rfl, rfl⟩

theorem Takes.cons {s : Scanner} {c : Char} {cs : List Char} {mode : Mode}
    (ht : (s.step c).taken = c :: s.taken) (hd : (s.step c).done = s.done)
    (h : Takes (s.step c) cs mode) : Takes s (c :: cs) mode :=
  ⟨h.mode, by rw [run_cons, h.taken, ht]; simp, h.done.trans hd⟩

theorem step_code {s : Scanner} (h : s.InCode) (c : Char) :
    s.step c = s.stepCode Column.exact c := by
  rcases h with h | h <;> rw [step, stepWith, h]

theorem step_literal {s : Scanner} (h : s.mode = .literal) (c : Char) :
    s.step c = s.stepLiteral Column.exact c := by
  rw [step, stepWith, h]

theorem step_comment {s : Scanner} (h : s.mode = .comment) (c : Char) :
    s.step c = if c = '\n' then s.take .gap (Column.advance s.column c) c else s := by
  rw [step, stepWith, h]
  rfl

theorem step_atomChar {s : Scanner} {c : Char} (h : s.InCode) (hc : isAtomChar c = true) :
    s.step c = (s.turnTo .atom).take .atom (Column.advance s.column c) c := by
  obtain ⟨hl, hr, hq, hs, hb⟩ := isAtomChar_iff.1 hc
  simp [step_code h, stepCode, hl, hr, hq, hs, hb]

theorem step_blank {s : Scanner} {c : Char} (h : s.InCode) (hc : isBlank c = true) :
    s.step c = (s.turnTo .gap).take .gap (Column.advance s.column c) c := by
  simp [step_code h, stepCode, hc]

theorem step_paren {s : Scanner} {c : Char} {kind : Token.Kind} (h : s.InCode)
    (hc : ParenKind c kind) :
    s.step c = (s.finish.take .gap (Column.advance s.column c) c).close kind := by
  cases hc <;> simp [step_code h, stepCode, isBlank]

theorem step_quote {s : Scanner} (h : s.InCode) :
    s.step '"' = s.finish.take .literal (Column.advanceInLiteral s.column '"') '"' := by
  simp [step_code h, stepCode, isBlank]

theorem step_semicolon {s : Scanner} (h : s.InCode) :
    s.step ';' = { s.turnTo .gap with mode := .comment, column := 0 } := by
  simp [step_code h, stepCode, isBlank]

/-- A character that does not go on with the open token ends it first. -/
theorem step_finish {s : Scanner} (h : s.InCode) {c : Char}
    (hgap : s.mode = .gap → isBlank c = false ∧ c ≠ ';')
    (hatom : s.mode = .atom → isAtomChar c = false) : s.finish.step c = s.step c := by
  have hf := finish_mode h
  have turn_gap (hc : isBlank c = true ∨ c = ';') : s.finish.turnTo .gap = s.turnTo .gap := by
    have hm : s.mode ≠ .gap := fun hm => by simp [hgap hm] at hc
    rw [turnTo_self hf, turnTo_of_ne hm]
  have turn_atom (hc : isAtomChar c = true) : s.finish.turnTo .atom = s.turnTo .atom := by
    have hm : s.mode ≠ .atom := fun hm => by simp [hatom hm] at hc
    rw [turnTo_of_ne (by simp [hf]), turnTo_of_ne hm, finish_of_idle hf s.finish_taken]
  rw [step_code h.finish, step_code h, stepCode, stepCode, finish_of_idle hf s.finish_taken,
    finish_column]
  split_ifs with hb hs hl hr hq
  · rw [turn_gap (Or.inl hb)]
  · rw [turn_gap (Or.inr hs)]
  · rfl
  · rfl
  · rfl
  · rw [turn_atom (isAtomChar_iff.2 ⟨hl, hr, hq, hs, by simpa using hb⟩)]

theorem takes_all {mode : Mode} {p : Char → Bool}
    (hstep : ∀ (s : Scanner) (c : Char), s.mode = mode → p c = true →
      s.step c = s.take mode (Column.advance s.column c) c) :
    ∀ (cs : List Char) (s : Scanner), s.mode = mode → (∀ c ∈ cs, p c = true) → Takes s cs mode
  | [], s, h, _ => h ▸ Takes.nil s
  | c :: cs, s, h, hcs => by
    have hc := hstep s c h (hcs c List.mem_cons_self)
    refine Takes.cons (by rw [hc]; rfl) (by rw [hc]; rfl) ?_
    rw [hc]
    exact takes_all hstep cs _ rfl fun d hd => hcs d (List.mem_cons_of_mem _ hd)

theorem takes_atom (cs : List Char) (s : Scanner) (h : s.mode = .atom)
    (hcs : ∀ c ∈ cs, isAtomChar c = true) : Takes s cs .atom := by
  refine takes_all (fun s c hm hc => ?_) cs s h hcs
  rw [step_atomChar (Or.inr hm) hc, turnTo_self hm]

theorem takes_blanks (cs : List Char) (s : Scanner) (h : s.mode = .gap)
    (hcs : ∀ c ∈ cs, isBlank c = true) : Takes s cs .gap := by
  refine takes_all (fun s c hm hc => ?_) cs s h hcs
  rw [step_blank (Or.inl hm) hc, turnTo_self hm]

theorem takes_units {us : List Char} (hu : Units us) :
    ∀ s : Scanner, s.mode = .literal → Takes s us .literal := by
  induction hu with
  | nil => exact fun s h => h ▸ Takes.nil s
  | @plain c cs hq hb _ ih =>
    intro s h
    have hstep : s.step c = s.take .literal (Column.advanceInLiteral s.column c) c := by
      simp [step_literal h, stepLiteral, hq, hb]
    refine Takes.cons (by rw [hstep]; rfl) (by rw [hstep]; rfl) ?_
    rw [hstep]
    exact ih _ rfl
  | @escape c cs _ ih =>
    intro s h
    have hstep : s.step '\\' = s.take .escape (Column.advanceInLiteral s.column '\\') '\\' := by
      simp [step_literal h, stepLiteral]
    have hstep' : (s.step '\\').step c = ((s.step '\\').take .literal
        (Column.advanceInLiteral (s.step '\\').column c) c) := by
      rw [hstep]; rfl
    refine Takes.cons (by rw [hstep]; rfl) (by rw [hstep]; rfl) ?_
    refine Takes.cons (by rw [hstep']; rfl) (by rw [hstep']; rfl) ?_
    rw [hstep']
    exact ih _ rfl

/-- The next token of a scanner can be of the kind `kind`: no token is open
that would go on with it. -/
structure Ready (s : Scanner) (kind : Token.Kind) : Prop where
  inCode : s.InCode
  atom : kind = .atom → s.mode = .gap
  space : kind = .space → s.mode = .gap → s.taken = []

theorem Ready.of_idle {s : Scanner} (hm : s.mode = .gap) (ht : s.taken = [])
    (kind : Token.Kind) : s.Ready kind :=
  ⟨Or.inl hm, fun _ => hm, fun _ _ => ht⟩

/-- What reading the text of a token does: the token comes after those read
so far, and any kind that may follow it can come next. -/
def Adds (s : Scanner) (kind : Token.Kind) (text : List Char) : Prop :=
  (s.run text).shapesRead = s.shapesRead ++ [(kind, text)] ∧
    (kind ≠ .unterminated → ∀ kind', Apart kind kind' → (s.run text).Ready kind')

theorem adds_paren {s : Scanner} {c : Char} {kind : Token.Kind} (h : s.InCode)
    (hc : ParenKind c kind) : s.Adds kind [c] := by
  have hrun : s.run [c] = (s.finish.take .gap (Column.advance s.column c) c).close kind :=
    step_paren h hc
  refine ⟨?_, fun _ kind' _ => .of_idle (by rw [hrun]; rfl) (by rw [hrun]; rfl) kind'⟩
  rw [hrun, shapesRead]
  show doneShapes (close _ kind).done = _
  rw [doneShapes_close, take_taken, finish_taken]
  rfl

/-- Reading `text` from `s` ends the open token and opens one that has
`text` so far. -/
structure Opens (s : Scanner) (text : List Char) (mode : Mode) : Prop where
  mode : (s.run text).mode = mode
  taken : (s.run text).taken.reverse = text
  done : (s.run text).done = s.finish.done

theorem Opens.of_takes {s : Scanner} {c : Char} {cs : List Char} {first mode : Mode}
    {column : Nat} (hstep : s.step c = s.finish.take first column c)
    (h : Takes (s.step c) cs mode) : s.Opens (c :: cs) mode := by
  refine ⟨h.mode, ?_, ?_⟩
  · rw [run_cons, h.taken, hstep, take_taken, finish_taken]
    simp
  · rw [run_cons, h.done, hstep, take_done]

/-- A token that is ended right after its text comes after those before. -/
theorem Opens.shapesRead {s : Scanner} {text : List Char} {mode : Mode} (h : s.Opens text mode)
    {kind : Token.Kind} (hf : (s.run text).finish = (s.run text).close kind) :
    (s.run text).shapesRead = s.shapesRead ++ [(kind, text)] := by
  rw [Scanner.shapesRead, hf, doneShapes_close, h.taken, h.done, Scanner.shapesRead]

theorem adds_atom {s : Scanner} (h : s.Ready .atom) {text : List Char}
    (ht : Lexical .atom text) : s.Adds .atom text := by
  obtain ⟨hne, hall⟩ := ht
  obtain ⟨c, cs, rfl⟩ := List.exists_cons_of_ne_nil hne
  have hall' : ∀ d ∈ c :: cs, isAtomChar d = true := fun d hd => not_mem_specials_iff.1 (hall d hd)
  have hm : s.mode = .gap := h.atom rfl
  have hstep := step_atomChar h.inCode (hall' c List.mem_cons_self)
  rw [turnTo_of_ne (by simp [hm])] at hstep
  have hopens : s.Opens (c :: cs) .atom := .of_takes hstep <|
    takes_atom cs _ (by rw [hstep]; rfl) fun d hd => hall' d (List.mem_cons_of_mem _ hd)
  have hf : (s.run (c :: cs)).finish = (s.run (c :: cs)).close .atom := by
    simp only [finish, hopens.mode]
  have hready : ∀ kind', Apart .atom kind' → (s.run (c :: cs)).Ready kind' := by
    intro kind' ha
    refine { inCode := Or.inr hopens.mode, atom := fun hk => ?_, space := fun _ hg => ?_ }
    · exact absurd ⟨rfl, hk⟩ ha.1
    · rw [hopens.mode] at hg
      cases hg
  exact ⟨hopens.shapesRead hf, fun _ => hready⟩

theorem adds_space {s : Scanner} (h : s.Ready .space) {text : List Char}
    (ht : Lexical .space text) : s.Adds .space text := by
  obtain ⟨hne, hall⟩ := ht
  obtain ⟨c, cs, rfl⟩ := List.exists_cons_of_ne_nil hne
  have hall' : ∀ d ∈ c :: cs, isBlank d = true := fun d hd => mem_blanks_iff.1 (hall d hd)
  -- no blanks are open, so the first blank ends what is and begins a run
  have hturn : s.turnTo .gap = s.finish := by
    rcases finish_cases h.inCode with ⟨hm, -, hf⟩ | ⟨hm, hne, -⟩ | ⟨hm, -⟩
    · rw [turnTo_self hm, hf]
    · exact absurd (h.space rfl hm) hne
    · exact turnTo_of_ne (by simp [hm])
  have hstep := step_blank h.inCode (hall' c List.mem_cons_self)
  rw [hturn] at hstep
  have hopens : s.Opens (c :: cs) .gap := .of_takes hstep <|
    takes_blanks cs _ (by rw [hstep]; rfl) fun d hd => hall' d (List.mem_cons_of_mem _ hd)
  have htaken : (s.run (c :: cs)).taken ≠ [] := by
    intro h0
    have ht := hopens.taken
    rw [h0] at ht
    cases ht
  have hf : (s.run (c :: cs)).finish = (s.run (c :: cs)).close .space := by
    simp only [finish, hopens.mode, if_neg htaken]
  have hready : ∀ kind', Apart .space kind' → (s.run (c :: cs)).Ready kind' := by
    intro kind' ha
    refine { inCode := Or.inl hopens.mode, atom := fun _ => hopens.mode, space := fun hk _ => ?_ }
    exact absurd ⟨rfl, hk⟩ ha.2
  exact ⟨hopens.shapesRead hf, fun _ => hready⟩

theorem opens_quote_units {s : Scanner} (h : s.InCode) {us : List Char} (hu : Units us) :
    s.Opens ('"' :: us) .literal := by
  have hstep := step_quote h
  exact .of_takes hstep (takes_units hu _ (by rw [hstep]; rfl))

theorem adds_literal {s : Scanner} (h : s.InCode) {us : List Char} (hu : Units us) :
    s.Adds .literal ('"' :: (us ++ ['"'])) := by
  obtain ⟨hmode, htaken, hdone⟩ := opens_quote_units h hu
  have hrun : s.run ('"' :: (us ++ ['"'])) = ((s.run ('"' :: us)).take .literal
      (Column.advanceInLiteral (s.run ('"' :: us)).column '"') '"').close .literal := by
    rw [← List.cons_append, run_append, run_cons, run_nil, step_literal hmode]
    rfl
  refine ⟨?_, fun _ kind' _ => .of_idle (by rw [hrun]; rfl) (by rw [hrun]; rfl) kind'⟩
  rw [hrun, shapesRead]
  show doneShapes (close _ .literal).done = _
  rw [doneShapes_close, take_done, take_taken, List.reverse_cons, htaken, hdone]
  rfl

theorem adds_unterminated {s : Scanner} (h : s.InCode) {us : List Char} (hu : Units us) :
    s.Adds .unterminated ('"' :: us) := by
  have hopens := opens_quote_units h hu
  have hf : (s.run ('"' :: us)).finish = (s.run ('"' :: us)).close .unterminated := by
    simp only [finish, hopens.mode]
  exact ⟨hopens.shapesRead hf, fun hk => absurd rfl hk⟩

/-- A lone backslash at the end of the text stays in the literal. -/
theorem adds_backslash {s : Scanner} (h : s.InCode) {us : List Char} (hu : Units us) :
    s.Adds .unterminated ('"' :: (us ++ ['\\'])) := by
  obtain ⟨hmode, htaken, hdone⟩ := opens_quote_units h hu
  have hrun : s.run ('"' :: us ++ ['\\']) = (s.run ('"' :: us)).take .escape
      (Column.advanceInLiteral (s.run ('"' :: us)).column '\\') '\\' := by
    rw [run_append, run_cons, run_nil, step_literal hmode]
    rfl
  have hopens : s.Opens ('"' :: us ++ ['\\']) .escape := by
    refine ⟨by rw [hrun]; rfl, ?_, ?_⟩
    · rw [hrun, take_taken, List.reverse_cons, htaken]
    · rw [hrun, take_done, hdone]
  have hf : (s.run ('"' :: us ++ ['\\'])).finish =
      (s.run ('"' :: us ++ ['\\'])).close .unterminated := by
    simp only [finish, hopens.mode]
  exact ⟨hopens.shapesRead hf, fun hk => absurd rfl hk⟩

theorem adds_token {s : Scanner} {kind : Token.Kind} (h : s.Ready kind) {text : List Char}
    (ht : Lexical kind text) : s.Adds kind text := by
  cases kind with
  | leftParen => rw [show text = ['('] from ht]; exact adds_paren h.inCode .left
  | rightParen => rw [show text = [')'] from ht]; exact adds_paren h.inCode .right
  | atom => exact adds_atom h ht
  | space => exact adds_space h ht
  | literal =>
    obtain ⟨us, hu, rfl⟩ := ht
    exact adds_literal h.inCode hu
  | unterminated =>
    obtain ⟨us, hu, rfl | rfl⟩ := ht
    · exact adds_unterminated h.inCode hu
    · exact adds_backslash h.inCode hu

/-- A scanner that is ready for the first token of a well-formed sequence
adds the whole sequence. -/
theorem shapesRead_run_texts : ∀ (ps : List (Token.Kind × List Char)) (s : Scanner),
    WellFormed ps → (∀ p ∈ ps.head?, s.Ready p.1) →
    (s.run (ps.flatMap Prod.snd)).shapesRead = s.shapesRead ++ ps
  | [], s, _, _ => by simp
  | p :: ps, s, hw, hr => by
    have hhead := (List.isChain_cons.1 hw.apart).1
    have hadds := adds_token (hr p rfl) (hw.lexical p List.mem_cons_self)
    have hready : ∀ q ∈ ps.head?, (s.run p.2).Ready q.1 := by
      intro q hq
      have hne : ps ≠ [] := fun h => by simp [h] at hq
      exact hadds.2 (hw.ne_unterminated hne) q.1 (hhead q hq)
    rw [List.flatMap_cons, run_append, shapesRead_run_texts ps (s.run p.2) hw.tail hready, hadds.1]
    simp

end Scanner

theorem shapes_tokenize_texts {ps : List (Token.Kind × List Char)} (h : WellFormed ps) :
    shapes (tokenize (ps.flatMap Prod.snd)) = ps := by
  rw [Scanner.shapes_tokenize,
    Scanner.shapesRead_run_texts ps .init h fun p _ => .of_idle rfl rfl p.1]
  rfl

/-- **The lexical grammar is exactly what tokenizing gives**, and tokenizing
undoes putting the tokens of a well-formed sequence together. -/
theorem tokenize_lexical :
    (∀ text, WellFormed (shapes (tokenize text))) ∧
      ∀ ps, WellFormed ps → shapes (tokenize (ps.flatMap Prod.snd)) = ps :=
  ⟨wellFormed_tokenize, fun _ h => shapes_tokenize_texts h⟩

end ParenLint
