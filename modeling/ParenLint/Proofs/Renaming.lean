/-
# Texts with other characters

If a map of characters keeps those that the scanner tells apart and makes none
of the others one of them, the text that it maps to has the same tokens at the
same columns, and only their texts are mapped. How wide a character is, or how
it is written in bytes, plays no part.

The mapped scanner does on mapped characters what the scanner does on the
characters (`Scanner.simulation_rename`), and nothing else has to be said about
scanning. Blanks are mapped to themselves, so the forms differ in their labels
alone (`tokenize_relabel`), and what compares columns or counts parentheses
sees no difference at all.

Key definitions: `Scanner.rename`, `Change.relabel`.
Key theorems: `Scanner.simulation_rename`, `tokenize_relabel`,
`classes_suffice`.
-/
import ParenLint.Proofs.Changes
import ParenLint.Proofs.Lexical
import ParenLint.Proofs.Simulation

namespace ParenLint

variable {f : Char → Char}

theorem KeepsClasses.map_blanks (h : KeepsClasses f) {text : List Char}
    (hb : ∀ c ∈ text, c ∈ [' ', '\t', '\n', '\r']) : text.map f = text := by
  have hfixed : ∀ c ∈ text, f c = id c := by
    intro c hc
    have hs : [' ', '\t', '\n', '\r'] ⊆ significant := by decide
    exact h.fixed c (hs (hb c hc))
  rw [List.map_congr_left hfixed, List.map_id]

/-! ### Scanners -/

def Token.rename (f : Char → Char) (t : Token) : Token := { t with text := t.text.map f }

def Lexeme.rename (f : Char → Char) (x : Lexeme) : Lexeme := { x with token := x.token.rename f }

namespace Scanner

def rename (f : Char → Char) (s : Scanner) : Scanner :=
  { s with
    taken := s.taken.map f
    done := s.done.map (Lexeme.rename f) }

theorem rename_close (f : Char → Char) (s : Scanner) (kind : Token.Kind) :
    (s.rename f).close kind = (s.close kind).rename f := by
  simp [close, rename, Lexeme.rename, Token.rename]

theorem rename_take (f : Char → Char) (s : Scanner) (mode : Mode) (column : Nat) (c : Char) :
    (s.rename f).take mode column (f c) = (s.take mode column c).rename f := by
  simp [take, rename]

theorem simulation_rename (f : Char → Char) : Simulation f fun s u => u = s.rename f where
  mode := fun h => by rw [h]; rfl
  column := fun h => by rw [h]; rfl
  idle := fun h => by rw [h]; exact List.map_eq_nil_iff
  take := fun h mode column c => by rw [h]; exact rename_take f _ mode column c
  close := fun h kind => by rw [h]; exact rename_close f _ kind
  comment := fun h => by rw [h]; rfl

end Scanner

/-! ### Texts -/

theorem tokenize_map (h : KeepsClasses f) (text : List Char) :
    tokenize (text.map f) = (tokenize text).map (Token.rename f) := by
  have hrun : Scanner.init.run (text.map f) = (Scanner.init.run text).rename f :=
    (Scanner.simulation_rename f).run h text rfl
  have hfinish := (Scanner.simulation_rename f).finish hrun
  have hscan : scan (text.map f) = (scan text).map (Lexeme.rename f) := by
    rw [scan, hfinish, scan, List.map_reverse]
    rfl
  rw [tokenize, hscan, tokenize, List.map_map, List.map_map]
  rfl

def Change.relabel (g : List Char → List Char) : Change := { label := g }

/-- Blanks are mapped to themselves, so only labels change. -/
theorem tokenize_relabel (h : KeepsClasses f) (text : List Char) :
    tokenize (text.map f) = (tokenize text).map (Token.change (.relabel (List.map f))) := by
  rw [tokenize_map h]
  refine List.map_congr_left fun t ht => ?_
  have hlexical : Lexical t.kind t.text :=
    (wellFormed_tokenize text).lexical (t.kind, t.text) (List.mem_map_of_mem ht)
  by_cases hk : t.kind = .space
  · rw [hk] at hlexical
    have htext : t.text.map f = t.text := h.map_blanks hlexical.2
    simp [Token.rename, Token.change, Change.relabel, hk, htext]
  · simp [Token.rename, Token.change, Change.relabel, hk]

/-- No error reports a label. -/
theorem StructureError.change_relabel (g : List Char → List Char) (e : StructureError) :
    e.change (.relabel g) = e := by
  cases e <;> rfl

theorem build_relabel (h : KeepsClasses f) (text : List Char) :
    build (tokenize (text.map f)) = (build (tokenize text)).change (.relabel (List.map f)) := by
  rw [tokenize_relabel h, build_change fun _ _ => rfl, (rooted_build _).change_eq rfl rfl]

theorem fault_relabel (h : KeepsClasses f) (text : List Char) :
    fault? (tokenize (text.map f)) = fault? (tokenize text) := by
  rw [tokenize_relabel h, fault_change fun _ _ => rfl]
  cases fault? (tokenize text) with
  | none => rfl
  | some e => exact congrArg some (e.change_relabel _)

/-- Labels do not matter to the rules. -/
theorem Form.isIndented_relabel (g : List Char → List Char) (root : Form) :
    (root.change (.relabel g)).isIndented = root.isIndented :=
  isIndentedUnder_change (m := .relabel g) strictMono_id root 0

/-- **Only the class of a character matters.** If the map keeps the characters
that the scanner tells apart and makes none of the others one of them, the
tokens of the mapped text are those of the text, with their texts mapped; its
forms are the same but for their labels, which are mapped; the verdicts are
the same, and so is what is wrong with the structure, if anything. -/
theorem classes_suffice (f : Char → Char) (h : KeepsClasses f) (text : List Char) :
    tokenize (text.map f) = (tokenize text).map (Token.rename f) ∧
      build (tokenize (text.map f)) = (build (tokenize text)).change (.relabel (List.map f)) ∧
      Verdict.lenient (text.map f) = Verdict.lenient text ∧
      Verdict.strict (text.map f) = Verdict.strict text ∧
      parse (text.map f) = (parse text).map (Form.change (.relabel (List.map f))) := by
  have hparse : parse (text.map f) = (parse text).map (Form.change (.relabel (List.map f))) := by
    rw [parse, parse, fault_relabel h, build_relabel h]
    cases fault? (tokenize text) <;> rfl
  refine ⟨tokenize_map h text, build_relabel h text, ?_, ?_, hparse⟩
  · rw [Verdict.lenient, build_relabel h, Form.isIndented_relabel, Verdict.lenient]
  · rw [Verdict.strict, hparse, Verdict.strict]
    cases parse text with
    | error e => rfl
    | ok root => exact congrArg Except.ok (Form.isIndented_relabel _ root)

/-- All letters become one that takes two bytes, but for the significant
characters: in an atom, after a backslash, in a literal left open and in a
comment. -/
theorem classes_suffice_greek :
    let f := fun c => if c ∈ significant then c else 'λ'
    let text := ['(', 'a', 'b', ';', 'c', '\n', '"', '\\', 'd', 'e']
    KeepsClasses f ∧
      (tokenize (text.map f)).map Token.text =
        [['('], ['λ', 'λ'], ['\n'], ['"', '\\', 'λ', 'λ']] ∧
      tokenize (text.map f) = (tokenize text).map (Token.rename f) ∧
      Verdict.strict (text.map f) = Verdict.strict text := by
  intro f text
  have hkeeps : KeepsClasses f :=
    { fixed := fun c hc => if_pos hc
      other := fun c hc => by
        have hf : f c = 'λ' := if_neg hc
        rw [hf]
        decide }
  obtain ⟨htokens, -, -, hstrict, -⟩ := classes_suffice f hkeeps text
  exact ⟨hkeeps, by decide, htokens, hstrict⟩

end ParenLint
