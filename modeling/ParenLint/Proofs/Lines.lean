/-
# Well-structured texts one after the other

Two well-structured texts with a line feed between them are a well-structured
text again, and its forms are those of the one followed by those of the other.
Only the blanks of the first form of the second text are not what they were:
they now begin with the blanks the first text ends in, and the line feed.

The line feed ends what the first text ends in, an atom or a comment, and puts
the column back to 0, where the second text begins. So the tokens are those of
the two texts, but that the blanks at the seam are one token
(`tokenize_lines`). A build uses all tokens of such a text, which makes the
root a matter of its pieces alone (`Balanced.piecesAll`): nothing is joined
behind a piece that is not blanks (`Piece.tidy_append`), and what is put in
front of blanks is put in front of the first form (`Piece.tidy_lead`).

Key definitions: `Piece.lead`, `Form.lead`, `Form.leadFirst`, `trailing`.
Key theorems: `Piece.tidy_append`, `tokenize_lines`, `Balanced.piecesAll`,
`balanced_lines`, `build_lines`, `Form.isIndented_append`, `parse_lines`.
-/
import ParenLint.Proofs.Readback
import ParenLint.Proofs.Repair
import ParenLint.Proofs.Rules
import ParenLint.Proofs.Seam

namespace ParenLint

/-! ### Blanks put in front -/

namespace Piece

/-- Pieces with the blanks `text` put in front, unless there is no form for
them to stand before. -/
def lead (text : List Char) : List Piece → List Piece
  | [] => []
  | space text' :: ps => space (text ++ text') :: ps
  | closing column :: ps => closing column :: ps
  | p :: ps => space text :: p :: ps

/-- Where the first of two sequences of pieces ends in anything but blanks,
each is tidied by itself. -/
theorem tidy_append : ∀ {ps : List Piece}, (∀ p, ps.getLast? = some p → p.isMark = true) →
    ∀ qs : List Piece, tidy (ps ++ qs) = tidy ps ++ tidy qs
  | [], _, _ => rfl
  | [p], h, qs => by
    have hp : p.isMark = true := h p rfl
    rw [List.singleton_append, tidy_of_isMark hp, tidy_of_isMark hp]
    rfl
  | p :: q :: ps, h, qs => by
    have hq : ∀ r, (q :: ps).getLast? = some r → r.isMark = true := fun r hr =>
      h r (by rwa [List.getLast?_cons_cons])
    by_cases hp : p.isMark = true
    · rw [List.cons_append, tidy_of_isMark hp, tidy_append hq, tidy_of_isMark hp, List.cons_append]
    obtain ⟨a, rfl⟩ := eq_space_of_not_isMark hp
    by_cases hm : q.isMark = true
    · have ih := tidy_append hq qs
      rw [List.cons_append, tidy_of_isMark hm, tidy_of_isMark hm, List.cons_append] at ih
      rw [List.cons_append, List.cons_append, tidy_space_mark hm, tidy_space_mark hm, ih,
        List.append_assoc, List.cons_append]
    · -- two runs of blanks count as one, which leaves fewer pieces
      obtain ⟨b, rfl⟩ := eq_space_of_not_isMark hm
      have hjoined : ∀ r, (space (a ++ b) :: ps).getLast? = some r → r.isMark = true := by
        intro r hr
        cases ps with
        | nil => cases hq (space b) rfl
        | cons s ps => exact hq r (by rwa [List.getLast?_cons_cons] at hr ⊢)
      rw [List.cons_append, List.cons_append, tidy_space_space, tidy_space_space]
      exact tidy_append hjoined qs
termination_by ps => ps.length

/-- More blanks in front of blanks are more blanks before the first form. -/
theorem tidy_lead {a : List Char} (ha : a ≠ []) : ∀ (ps : List Piece) (b : List Char),
    tidy (space (a ++ b) :: ps) = lead a (tidy (space b :: ps))
  | [], b => by rw [tidy_blanks_end, tidy_blanks_end]; rfl
  | p :: ps, b => by
    by_cases hp : p.isMark = true
    · rw [tidy_space_mark hp, tidy_space_mark hp]
      cases p with
      | space _ => cases hp
      | closing _ => rfl
      | _ => by_cases hb : b = [] <;> simp [beginsForm, blanks, lead, ha, hb]
    · obtain ⟨c, rfl⟩ := eq_space_of_not_isMark hp
      rw [tidy_space_space, tidy_space_space, List.append_assoc]
      exact tidy_lead ha ps (b ++ c)

end Piece

namespace Form

def lead (text : List Char) : Form → Form
  | atom space column label => atom (text ++ space) column label
  | list space column children closing => list (text ++ space) column children closing

def leadFirst (text : List Char) : List Form → List Form
  | [] => []
  | f :: fs => f.lead text :: fs

@[simp] theorem column_lead (text : List Char) (f : Form) : (f.lead text).column = f.column := by
  cases f <;> rfl

@[simp] theorem isIndentedUnder_lead (text : List Char) (f : Form) (parent : Nat) :
    (f.lead text).isIndentedUnder parent = f.isIndentedUnder parent := by
  cases f <;> rfl

theorem pieces_lead {text : List Char} (h : text ≠ []) (f : Form) (ps : List Piece) :
    (f.lead text).pieces ++ ps = Piece.lead text (f.pieces ++ ps) := by
  cases f with
  | atom space _ _ =>
    by_cases hs : space = [] <;> simp [lead, pieces, Piece.blanks, Piece.lead, h, hs]
  | list space _ _ _ =>
    by_cases hs : space = [] <;> simp [lead, pieces, Piece.blanks, Piece.lead, h, hs]

theorem piecesAll_leadFirst {text : List Char} (h : text ≠ []) (fs : List Form) :
    piecesAll (leadFirst text fs) = Piece.lead text (piecesAll fs) := by
  cases fs with
  | nil => rfl
  | cons f fs => exact pieces_lead h f (piecesAll fs)

theorem AllClosed.leadFirst {fs : List Form} (h : AllClosed fs) (text : List Char) :
    AllClosed (leadFirst text fs) := by
  cases fs with
  | nil => exact h
  | cons f fs =>
    obtain ⟨hf, hfs⟩ := List.forall_mem_cons.1 h
    refine List.forall_mem_cons.2 ⟨?_, hfs⟩
    cases f with
    | atom _ _ _ => rfl
    | list _ _ _ closing =>
      cases closing with
      | none => cases hf
      | some _ => exact hf

end Form

/-! ### The tokens -/

/-- The blanks that a text ends in, as far as its last token goes. -/
def trailing (text : List Char) : List Char :=
  match (tokenize text).getLast? with
  | some t => if t.kind = .space then t.text else []
  | none => []

open Nesting Region

/-- The tokens of two texts with a line feed between them: those of the one,
then those of the other, the blanks at the seam in one token with the line
feed. -/
theorem tokenize_lines {s : List Char}
    (hs : after .code s ≠ .literal ∧ after .code s ≠ .escape) (t : List Char) :
    ∃ before blanks rest i j, (∀ u, before.getLast? = some u → u.kind ≠ .space) ∧
      tokenize s = before ++ spaceToken (trailing s) i ∧
      tokenize t = spaceToken blanks j ++ rest ∧
      tokenize (s ++ '\n' :: t) =
        before ++ ⟨.space, trailing s ++ '\n' :: blanks, i⟩ :: rest := by
  set v := Scanner.init.run s with hv
  set w := v.step '\n' with hw
  have hout : v.mode = .comment ∨ v.InCode := by
    rw [← Scanner.region_run, ← hv] at hs
    cases hm : v.mode <;> simp [Scanner.InCode, Scanner.Mode.region, hm] at hs ⊢
  obtain ⟨final, hmode, hcolumn, htaken, htokens⟩ := Scanner.step_lineFeed hout
  rw [← hw] at hmode hcolumn htaken htokens
  -- the tokens before the line feed end in those blanks, and in no others
  have hbefore : ∀ u, (Scanner.inOrder w.done).getLast? = some u → u.kind ≠ .space := by
    intro u hu hk
    have hlexed := (Scanner.lexed_run (s ++ ['\n'])).opened
    rw [Scanner.run_append, ← hv, show v.run ['\n'] = w from rfl, hmode] at hlexed
    rw [Scanner.inOrder, List.getLast?_map, List.getLast?_reverse] at hu
    obtain ⟨x, hx, rfl⟩ := Option.map_eq_some_iff.1 hu
    exact hlexed.2.1 (by rw [Scanner.last?, hx, Option.map_some, hk])
  have hfinal : final = trailing s := by
    rw [trailing, ← Scanner.tokens_run, ← hv, htokens]
    by_cases hf : final = []
    · rw [hf, spaceToken, if_pos rfl, List.append_nil]
      cases hlast : (Scanner.inOrder w.done).getLast? with
      | none => rfl
      | some u => exact (if_neg (hbefore u hlast)).symm
    · rw [spaceToken_of_ne hf, List.getLast?_concat]
      exact (if_pos rfl).symm
  have hbehind : Scanner.Behind (final ++ ['\n']) .init { w with done := [] } :=
    { mode := hmode
      column := hcolumn
      taken := by rw [← htaken, List.reverse_reverse]; rfl
      blank := rfl
      idle := fun _ _ => rfl
      fresh := rfl
      fresh' := rfl }
  obtain ⟨blanks, rest, ht, hu⟩ := hbehind.tokens_run (by simp) t
  refine ⟨Scanner.inOrder w.done, blanks, rest, w.mark, 0, hbefore, ?_, ht, ?_⟩
  · rw [← hfinal, ← htokens, hv, Scanner.tokens_run]
  · have honto : w = Scanner.onto { w with done := [] } w.done := rfl
    rw [← Scanner.tokens_run, Scanner.run_append, ← hv, Scanner.run_cons, ← hw, honto,
      Scanner.run_onto, Scanner.tokens_onto, hu, ← hfinal, List.append_assoc]
    rfl

/-! ### The forms -/

namespace Balanced

variable {ts : List Token}

theorem rootPieces (h : Balanced ts) :
    (build ts).rootPieces = Piece.tidy (ts.map Token.piece) := by
  have hused : ∀ (us : List Token) (d : Nat), (∀ p ∈ met d us, ¬ Stops p) → used d us = us := by
    intro us
    induction us with
    | nil => exact fun _ _ => rfl
    | cons t us ih =>
      intro d hm
      obtain ⟨ht, hus⟩ := List.forall_mem_cons.1 hm
      rw [used_cons ht, ih _ hus]
  rw [Builder.rootPieces_eq_ahead, Builder.ahead_init,
    hused ts 0 (stop_eq_none_iff.1 h.unstopped)]

theorem shape (h : Balanced ts) :
    build ts = .list [] 0 (build ts).children none ∧ Form.AllClosed (build ts).children := by
  have hshape := (rooted_build ts).shape
  have hfault := fault_of_balanced h.unstopped h.depth
  rcases ofTokens_cases ts with ⟨-, b, -, hb⟩ | ⟨t, ht, -⟩
  · have hclosing : (build ts).closing = none := by rw [build, hb, Builder.closing_finish]
    rw [Built.fault?, hb] at hfault
    have hopen : Form.firstOpenAmong? (build ts).children = none := by
      rw [build, hb]
      exact Option.map_eq_none_iff.1 hfault
    exact ⟨by rw [← hclosing]; exact hshape, Form.firstOpenAmong_eq_none_iff.1 hopen⟩
  · rw [h.unstopped] at ht
    cases ht

theorem piecesAll (h : Balanced ts) :
    Form.piecesAll (build ts).children = Piece.tidy (ts.map Token.piece) := by
  rw [← h.rootPieces, h.shape.1]
  exact (List.append_nil _).symm

theorem of_parens {us vs : List Token} (ht : Balanced ts) (hu : Balanced us)
    (hp : parens vs = parens ts ++ parens us) (hv : ∀ t ∈ vs, t.kind ≠ .unterminated) :
    Balanced vs := by
  have hdepth : Nesting.depth 0 (parens ts) = 0 := by rw [depth_parens, ht.depth]
  refine ⟨hv, ?_, ?_⟩
  · have hts := ht.unstopped
    have hus := hu.unstopped
    rw [← stop_parens, stop_eq_none_iff] at hts hus ⊢
    rw [hp, met_append, hdepth]
    exact List.forall_mem_append.2 ⟨hts, hus⟩
  · rw [← depth_parens, hp, depth_append, hdepth, depth_parens, hu.depth]

end Balanced

/-- A line feed between two texts leaves neither a literal nor a comment
open. -/
theorem after_lines {s : List Char} (hs : after .code s ≠ .literal ∧ after .code s ≠ .escape)
    (t : List Char) : after .code (s ++ '\n' :: t) = after .code t := by
  rw [after_append, after_cons]
  cases hr : after .code s with
  | literal => exact absurd hr hs.1
  | escape => exact absurd hr hs.2
  | _ => rfl

theorem parens_spaceToken (text : List Char) (column : Nat) :
    parens (spaceToken text column) = [] := by
  unfold spaceToken
  split <;> rfl

theorem tidy_spaceToken (text : List Char) (column : Nat) (ps : List Piece) :
    Piece.tidy ((spaceToken text column).map Token.piece ++ ps) =
      Piece.tidy (.space text :: ps) := by
  by_cases h : text = []
  · rw [h]
    exact (Piece.tidy_space_nil ps).symm
  · rw [spaceToken_of_ne h]
    rfl

theorem balanced_lines {s t : List Char} (hs : Balanced (tokenize s))
    (ht : Balanced (tokenize t)) : Balanced (tokenize (s ++ '\n' :: t)) := by
  have hregion := (terminated_iff s).1 hs.terminated
  obtain ⟨before, blanks, rest, i, j, -, hst, htt, hwhole⟩ := tokenize_lines hregion t
  refine hs.of_parens ht ?_ ?_
  · rw [hwhole, hst, htt, parens_append, parens_append, parens_append, parens_spaceToken,
      parens_spaceToken, List.append_nil, List.nil_append, parens_cons, if_neg (by simp [isParen])]
  · rw [terminated_iff, after_lines hregion]
    exact (terminated_iff t).1 ht.terminated

theorem piecesAll_lines {s t : List Char} (hs : Balanced (tokenize s))
    (ht : Balanced (tokenize t)) :
    Form.piecesAll (build (tokenize (s ++ '\n' :: t))).children =
      Form.piecesAll (build (tokenize s)).children ++
        Piece.lead (trailing s ++ ['\n']) (Form.piecesAll (build (tokenize t)).children) := by
  obtain ⟨before, blanks, rest, i, j, hbefore, hst, htt, hwhole⟩ :=
    tokenize_lines ((terminated_iff s).1 hs.terminated) t
  have hmark : ∀ p, (before.map Token.piece).getLast? = some p → p.isMark = true := by
    intro p hp
    rw [List.getLast?_map] at hp
    obtain ⟨u, hu, rfl⟩ := Option.map_eq_some_iff.1 hp
    rw [Token.isMark_piece]
    exact decide_eq_true (hbefore u hu)
  have hfirst : Form.piecesAll (build (tokenize s)).children =
      Piece.tidy (before.map Token.piece) := by
    have hblanks := tidy_spaceToken (trailing s) i []
    rw [List.append_nil, Piece.tidy_blanks_end] at hblanks
    rw [hs.piecesAll, hst, List.map_append, Piece.tidy_append hmark, hblanks, List.append_nil]
  have hsecond : Form.piecesAll (build (tokenize t)).children =
      Piece.tidy (.space blanks :: rest.map Token.piece) := by
    rw [ht.piecesAll, htt, List.map_append, tidy_spaceToken]
  set a := trailing s ++ ['\n'] with ha
  have hjoin : trailing s ++ '\n' :: blanks = a ++ blanks := by simp [ha]
  calc Form.piecesAll (build (tokenize (s ++ '\n' :: t))).children
      = Piece.tidy (before.map Token.piece ++ .space (a ++ blanks) :: rest.map Token.piece) := by
        rw [(balanced_lines hs ht).piecesAll, hwhole, List.map_append, List.map_cons,
          Token.piece_space rfl, hjoin]
    _ = Piece.tidy (before.map Token.piece) ++
          Piece.tidy (.space (a ++ blanks) :: rest.map Token.piece) := Piece.tidy_append hmark _
    _ = Piece.tidy (before.map Token.piece) ++
          Piece.lead a (Piece.tidy (.space blanks :: rest.map Token.piece)) := by
        rw [Piece.tidy_lead (by simp [ha])]
    _ = Form.piecesAll (build (tokenize s)).children ++
          Piece.lead a (Form.piecesAll (build (tokenize t)).children) := by rw [hfirst, hsecond]

theorem build_lines {s t : List Char} (hs : Balanced (tokenize s)) (ht : Balanced (tokenize t)) :
    build (tokenize (s ++ '\n' :: t)) =
      .list [] 0 ((build (tokenize s)).children ++
        Form.leadFirst (trailing s ++ ['\n']) (build (tokenize t)).children) none := by
  have hwhole := (balanced_lines hs ht).shape
  have hclosed := List.forall_mem_append.2
    ⟨hs.shape.2, ht.shape.2.leadFirst (trailing s ++ ['\n'])⟩
  have hpieces := piecesAll_lines hs ht
  rw [← Form.piecesAll_leadFirst (by simp), ← Form.piecesAll_append] at hpieces
  have hchildren := (Form.piecesAll_append_inj _ _ (Form.endedAll_of_allClosed hwhole.2 _)
    (Form.endedAll_of_allClosed hclosed _) rfl rfl (congrArg (· ++ []) hpieces)).1
  rw [hwhole.1, hchildren]

/-! ### The verdict -/

namespace Form

/-- Of the two parts of a root that are each well indented, only the first
forms matter to each other. -/
theorem isIndented_append {fs gs : List Form} (hf : (list [] 0 fs none).isIndented = true)
    (hg : (list [] 0 gs none).isIndented = true) :
    (list [] 0 (fs ++ gs) none).isIndented = true ↔
      fs = [] ∨ gs = [] ∨
        ∃ f g, fs.head? = some f ∧ gs.head? = some g ∧ f.column ≤ g.column := by
  cases fs with
  | nil => simpa using hg
  | cons f fs =>
    cases gs with
    | nil => simpa using hf
    | cons g gs =>
      have hiff : (list [] 0 (f :: fs ++ g :: gs) none).isIndented = true ↔
          f.column ≤ g.column := by
        rw [isIndented, isIndentedUnder_list] at hf hg ⊢
        constructor
        · intro h
          exact (h g (by simp)).2.1 f rfl
        · intro hfg
          refine List.forall_mem_append.2 ⟨hf, fun x hx => ?_⟩
          obtain ⟨hi, hfirst, hclosing⟩ := hg x hx
          refine ⟨hi, fun y hy => ?_, hclosing⟩
          obtain rfl : f = y := Option.some.inj hy
          exact hfg.trans (hfirst g rfl)
      rw [hiff]
      simp

theorem isIndented_leadFirst (text : List Char) (fs : List Form) :
    (list [] 0 (leadFirst text fs) none).isIndented = (list [] 0 fs none).isIndented := by
  rw [Bool.eq_iff_iff, isIndented, isIndented, isIndentedUnder_list, isIndentedUnder_list]
  cases fs with
  | nil => rfl
  | cons f fs => simp [leadFirst]

theorem head_leadFirst (text : List Char) (fs : List Form) :
    (leadFirst text fs).head? = fs.head?.map (lead text) := by
  cases fs <;> rfl

theorem leadFirst_eq_nil {text : List Char} {fs : List Form} :
    leadFirst text fs = [] ↔ fs = [] := by
  cases fs <;> simp [leadFirst]

end Form

/-- **Well-structured texts can be put together line by line.** With a line
feed between them, two well-structured texts have the forms of the one and
then those of the other; the first of these gets the blanks the one ends in
and the line feed before its own blanks. If both pass, then together they pass
exactly if one of them has no forms or the first form of the second is not
left of the first form of the first. -/
theorem parse_lines (s t : List Char) (root root' : Form) (hs : parse s = .ok root)
    (ht : parse t = .ok root') :
    parse (s ++ '\n' :: t) =
        .ok (.list [] 0
          (root.children ++ Form.leadFirst (trailing s ++ ['\n']) root'.children) none) ∧
      (Verdict.strict s = .ok true → Verdict.strict t = .ok true →
        ∃ passes, Verdict.strict (s ++ '\n' :: t) = .ok passes ∧
          (passes = true ↔ root.children = [] ∨ root'.children = [] ∨
            ∃ f g, root.children.head? = some f ∧ root'.children.head? = some g ∧
              f.column ≤ g.column)) := by
  obtain ⟨hbs, rfl⟩ := balanced_of_parse hs
  obtain ⟨hbt, rfl⟩ := balanced_of_parse ht
  have hparse := parse_of_balanced (balanced_lines hbs hbt)
  rw [build_lines hbs hbt] at hparse
  refine ⟨hparse, fun hps hpt => ⟨_, by rw [Verdict.strict, hparse]; rfl, ?_⟩⟩
  have hindented : ∀ {text : List Char} {r : Form}, parse text = .ok r →
      Verdict.strict text = .ok true → r.isIndented = true := by
    intro text r hp hv
    rw [Verdict.strict, hp] at hv
    exact Except.ok.inj hv
  have hfirst := hindented hs hps
  have hsecond := hindented ht hpt
  rw [hbs.shape.1] at hfirst
  rw [hbt.shape.1, ← Form.isIndented_leadFirst (trailing s ++ ['\n'])] at hsecond
  rw [Form.isIndented_append hfirst hsecond, Form.leadFirst_eq_nil, Form.head_leadFirst]
  simp

/-- A comment and a blank at the seam: the blanks before the second list are
the blank, the line feed and a blank of its own. -/
theorem parse_lines_comment :
    parse ['(', 'a', ')', ' ', ';', 'x'] =
        .ok (.list [] 0 [.list [] 0 [.atom [] 1 ['a']] (some 2)] none) ∧
      parse [' ', '(', ')'] = .ok (.list [] 0 [.list [' '] 1 [] (some 2)] none) ∧
      parse (['(', 'a', ')', ' ', ';', 'x'] ++ '\n' :: [' ', '(', ')']) =
        .ok (.list [] 0 [.list [] 0 [.atom [] 1 ['a']] (some 2),
          .list [' ', '\n', ' '] 1 [] (some 2)] none) ∧
      Verdict.strict (['(', 'a', ')', ' ', ';', 'x'] ++ '\n' :: [' ', '(', ')']) = .ok true := by
  have hs : parse ['(', 'a', ')', ' ', ';', 'x'] =
      .ok (.list [] 0 [.list [] 0 [.atom [] 1 ['a']] (some 2)] none) := by decide
  have ht : parse [' ', '(', ')'] = .ok (.list [] 0 [.list [' '] 1 [] (some 2)] none) := by decide
  obtain ⟨hparse, hverdict⟩ := parse_lines _ _ _ _ hs ht
  obtain ⟨passes, hpasses, hiff⟩ := hverdict (by decide) (by decide)
  have htrue : passes = true := hiff.2 (Or.inr (Or.inr ⟨_, _, rfl, rfl, by decide⟩))
  exact ⟨hs, ht, hparse.trans (by decide), by rw [hpasses, htrue]⟩

/-- The second list is left of the first. -/
example : Verdict.strict ([' ', '(', ')'] ++ '\n' :: ['(', ')']) = .ok false := by decide

end ParenLint
