/-
# Well-structured texts are printed back

A form has the blanks before it, so a root can be printed: its forms one after
the other, each with its blanks, the lists between parentheses
(`Form.unparse`). For a well-structured text this prints all its tokens but the
blanks that stand before no form (`trimBlanks`), since the pieces of the root
are the tokens, tidied, and there is nothing else to tidy in the tokens of a
text. Comments are in no token and so they are not printed.

To read the print is to read the tokens that are left. They are well formed
again: where blanks are left out a `)` or the end comes next, so that no two
atoms get side by side. The parentheses are the same, so the print is
well structured, and its root has the pieces of the first one at other columns.

Key definitions: `Form.text`, `Form.unparse`, `Form.flat`, `trimBlanks`.
Key theorems: `tidy_tokens`, `unparse_build`, `wellFormed_trimBlanks`,
`build_trimBlanks`, `flat_of_shapes`, `parse_unparse`.
-/
import ParenLint.Proofs.Image
import ParenLint.Proofs.Lines
import ParenLint.Proofs.Changes
import ParenLint.Proofs.Lexical

namespace ParenLint

open Nesting Form

/-! ### Printing -/

def Piece.text : Piece → List Char
  | space text => text
  | atom label _ => label
  | opening _ => ['(']
  | closing _ => [')']

def Change.flat : Change := { column := fun _ => 0 }

namespace Form

mutual

/-- The text of a form: the blanks before it, then an atom as it is, or a list
between parentheses. -/
def text : Form → List Char
  | atom space _ label => space ++ label
  | list space _ children _ => space ++ '(' :: (textAll children ++ [')'])

def textAll : List Form → List Char
  | [] => []
  | f :: fs => text f ++ textAll fs

end

/-- The text of all that is inside a root. -/
def unparse (root : Form) : List Char := textAll root.children

def flat (f : Form) : Form := f.change .flat

theorem Rooted.flat_eq {f : Form} (h : f.Rooted) : f.flat = f.changeInside .flat := by
  rw [h.shape]
  rfl

mutual

theorem text_flat : ∀ f : Form, (f.change .flat).text = f.text
  | atom _ _ _ => rfl
  | list space column fs closing => by
    show space ++ '(' :: (textAll (changeAll .flat fs) ++ [')']) = _
    rw [textAll_flat fs, text]

theorem textAll_flat : ∀ fs : List Form, textAll (changeAll .flat fs) = textAll fs
  | [] => rfl
  | f :: fs => by rw [changeAll, textAll, text_flat f, textAll_flat fs, textAll]

end

theorem unparse_flat (root : Form) : root.flat.unparse = root.unparse := by
  cases root with
  | atom _ _ _ => rfl
  | list _ _ fs _ => exact textAll_flat fs

theorem text_blanks (text : List Char) : (Piece.blanks text).flatMap Piece.text = text := by
  unfold Piece.blanks
  split
  · rename_i h
    exact h.symm
  · exact List.append_nil text

mutual

/-- With all lists closed, a form is printed piece by piece. -/
theorem text_pieces : ∀ f : Form, f.firstOpen? = none → f.pieces.flatMap Piece.text = f.text
  | atom space column label, _ => by
    rw [pieces, List.flatMap_append, text_blanks, List.flatMap_singleton]
    rfl
  | list _ _ _ none, h => by cases h
  | list space column fs (some k), h => by
    have hfs : AllClosed fs := firstOpenAmong_eq_none_iff.1 h
    rw [pieces, List.flatMap_append, text_blanks, List.flatMap_cons, List.flatMap_append,
      text_piecesAll fs hfs]
    rfl

theorem text_piecesAll : ∀ fs : List Form, AllClosed fs →
    (piecesAll fs).flatMap Piece.text = textAll fs
  | [], _ => rfl
  | f :: fs, h => by
    obtain ⟨hf, hfs⟩ := List.forall_mem_cons.1 h
    rw [piecesAll, List.flatMap_append, text_pieces f hf, text_piecesAll fs hfs, textAll]

end

end Form

/-! ### Blanks that stand before no form -/

/-- Tokens without the blanks that stand right before a `)` or at the end. -/
def trimBlanks : List Token → List Token
  | [] => []
  | t :: ts =>
    if t.kind = .space ∧ ∀ u ∈ ts.head?, u.kind = .rightParen then trimBlanks ts
    else t :: trimBlanks ts

theorem trimBlanks_of_ne {t : Token} (h : t.kind ≠ .space) (ts : List Token) :
    trimBlanks (t :: ts) = t :: trimBlanks ts :=
  if_neg fun hk => h hk.1

theorem trimBlanks_sublist : ∀ ts : List Token, (trimBlanks ts).Sublist ts
  | [] => .slnil
  | t :: ts => by
    unfold trimBlanks
    split
    · exact (trimBlanks_sublist ts).cons t
    · exact (trimBlanks_sublist ts).cons_cons t

theorem head_trimBlanks {u : Token} : ∀ {ts : List Token}, u ∈ (trimBlanks ts).head? →
    u ∈ ts.head? ∨ u.kind = .rightParen
  | [], h => Or.inl h
  | t :: ts, h => by
    unfold trimBlanks at h
    split at h
    · rename_i hdrop
      rcases head_trimBlanks h with hu | hu
      · exact Or.inr (hdrop.2 u hu)
      · exact Or.inr hu
    · exact Or.inl h

theorem wellFormed_trimBlanks : ∀ {ts : List Token}, WellFormed (shapes ts) →
    WellFormed (shapes (trimBlanks ts))
  | [], h => h
  | t :: ts, h => by
    have ih := wellFormed_trimBlanks h.tail
    unfold trimBlanks
    split
    · exact ih
    · obtain ⟨hlexical, hnext⟩ := h.head
      refine .cons hlexical (fun hne => ?_) (fun q hq => ?_) ih
      · apply h.ne_unterminated
        rintro hnil
        obtain rfl : ts = [] := List.map_eq_nil_iff.1 hnil
        exact hne rfl
      · rw [List.head?_map] at hq
        obtain ⟨u, hu, rfl⟩ := Option.map_eq_some_iff.1 hq
        rcases head_trimBlanks hu with hhead | hright
        · exact hnext u hhead
        · simp [Apart, hright]

theorem parens_trimBlanks : ∀ ts : List Token, parens (trimBlanks ts) = parens ts
  | [] => rfl
  | t :: ts => by
    unfold trimBlanks
    split
    · rename_i hdrop
      rw [parens_trimBlanks ts, parens_cons, if_neg (by simp [isParen, hdrop.1])]
    · rw [parens_cons, parens_cons, parens_trimBlanks ts]

/-- In the tokens of a text there is nothing else to tidy: no blanks are empty
and none are side by side. -/
theorem tidy_tokens : ∀ {ts : List Token}, WellFormed (shapes ts) →
    Piece.tidy (ts.map Token.piece) = (trimBlanks ts).map Token.piece
  | [], _ => rfl
  | t :: ts, h => by
    have ih := tidy_tokens h.tail
    by_cases hk : t.kind = .space
    · rw [List.map_cons, Token.piece_space hk]
      cases ts with
      | nil =>
        rw [List.map_nil, Piece.tidy_blanks_end]
        simp [trimBlanks, hk]
      | cons u ts =>
        obtain ⟨hlexical, hnext⟩ := h.head
        rw [hk] at hlexical hnext
        have hne : t.text ≠ [] := hlexical.1
        have hu : u.kind ≠ .space := fun hu => (hnext u rfl).2 ⟨rfl, hu⟩
        have hmark : u.piece.isMark = true := by rw [Token.isMark_piece, decide_eq_true hu]
        rw [List.map_cons, Piece.tidy_of_isMark hmark] at ih
        rw [List.map_cons, Piece.tidy_space_mark hmark, ih]
        by_cases hr : u.kind = .rightParen
        · rw [Token.piece_rightParen hr]
          simp [trimBlanks, hk, hr, Piece.beginsForm]
        · have hbegins : Piece.beginsForm [u.piece] = true := by
            unfold Token.piece Token.pieceAt
            split <;> first | rfl | contradiction
          rw [if_pos hbegins]
          simp [trimBlanks, hk, hr, Piece.blanks, hne, Token.piece_space]
    · have hmark : t.piece.isMark = true := by rw [Token.isMark_piece, decide_eq_true hk]
      rw [List.map_cons, Piece.tidy_of_isMark hmark, ih, trimBlanks_of_ne hk, List.map_cons]

theorem Balanced.trimBlanks {ts : List Token} (h : Balanced ts) : Balanced (trimBlanks ts) where
  terminated t ht := h.terminated t ((trimBlanks_sublist ts).subset ht)
  unstopped := by rw [← stop_parens, parens_trimBlanks, stop_parens, h.unstopped]
  depth := by rw [← depth_parens, parens_trimBlanks, depth_parens, h.depth]

theorem build_trimBlanks {ts : List Token} (h : Balanced ts) (hw : WellFormed (shapes ts)) :
    build (trimBlanks ts) = build ts := by
  have hpieces : (build ts).rootPieces = (trimBlanks ts).map Token.piece := by
    rw [h.rootPieces, tidy_tokens hw]
  refine eq_of_rootPieces (rooted_build _) (rooted_build ts) ?_
  calc (build (trimBlanks ts)).rootPieces
      = Piece.tidy ((trimBlanks ts).map Token.piece) := h.trimBlanks.rootPieces
    _ = Piece.tidy (build ts).rootPieces := by rw [hpieces]
    _ = (build ts).rootPieces := tidy_rootPieces _

/-! ### Printing a root -/

theorem Token.text_piece {t : Token} (h : Lexical t.kind t.text) : t.piece.text = t.text := by
  unfold Token.piece Token.pieceAt
  split
  · rfl
  · rename_i hk
    rw [hk] at h
    exact h.symm
  · rename_i hk
    rw [hk] at h
    exact h.symm
  all_goals rfl

/-- The root of a balanced text is printed as the tokens of the text, but for
the blanks that stand before no form. -/
theorem unparse_build {ts : List Token} (h : Balanced ts) (hw : WellFormed (shapes ts)) :
    (build ts).unparse = (trimBlanks ts).flatMap Token.text := by
  have htexts : ∀ t ∈ trimBlanks ts, t.piece.text = t.text := fun t ht =>
    Token.text_piece ((wellFormed_trimBlanks hw).lexical _ (List.mem_map_of_mem ht))
  calc (build ts).unparse
      = (piecesAll (build ts).children).flatMap Piece.text := (text_piecesAll _ h.shape.2).symm
    _ = ((trimBlanks ts).map Token.piece).flatMap Piece.text := by
        rw [h.piecesAll, tidy_tokens hw]
    _ = (trimBlanks ts).flatMap fun t => t.piece.text := List.flatMap_map _ _ _
    _ = (trimBlanks ts).flatMap Token.text := List.flatMap_congr htexts

/-! ### Reading the print -/

theorem texts_shapes (ts : List Token) :
    (shapes ts).flatMap Prod.snd = ts.flatMap Token.text :=
  List.flatMap_map _ _ _

/-- Tokens that are the same but for columns build the same root but for
columns, and if one of the builds has no fault neither has the other. -/
theorem flat_of_shapes {ts us : List Token} (h : shapes us = shapes ts) :
    (build us).flat = (build ts).flat ∧ (fault? ts = none → fault? us = none) := by
  have hmap : ∀ vs : List Token, vs.map (Token.change .flat) =
      (shapes vs).map fun p => ⟨p.1, p.2, 0⟩ := by
    intro vs
    rw [shapes, List.map_map]
    refine List.map_congr_left fun t _ => ?_
    show (⟨t.kind, if t.kind = .space then t.text else t.text, 0⟩ : Token) = _
    rw [ite_self]
    rfl
  have hflat : us.map (Token.change .flat) = ts.map (Token.change .flat) := by
    rw [hmap, h, hmap]
  constructor
  · calc (build us).flat
        = build (us.map (Token.change .flat)) := by
          rw [(rooted_build us).flat_eq, build_change fun _ _ => rfl]
      _ = build (ts.map (Token.change .flat)) := by rw [hflat]
      _ = (build ts).flat := by
          rw [(rooted_build ts).flat_eq, build_change fun _ _ => rfl]
  · intro hts
    have hus : (fault? us).map (StructureError.change .flat) = none := by
      rw [← fault_change (fun _ _ => rfl), hflat, fault_change fun _ _ => rfl, hts]
      rfl
    exact Option.map_eq_none_iff.1 hus

/-- **A well-structured text is printed back.** The root is printed as the
tokens of the text, without the blanks right before a `)` and at the end. What
is printed is well structured, its root is the same but for columns, and it is
printed in the same way. -/
theorem parse_unparse (text : List Char) (root : Form) (h : parse text = .ok root) :
    root.unparse = (trimBlanks (tokenize text)).flatMap Token.text ∧
      ∃ root', parse root.unparse = .ok root' ∧ root'.flat = root.flat ∧
        root'.unparse = root.unparse := by
  obtain ⟨hbalanced, rfl⟩ := balanced_of_parse h
  set ts := tokenize text
  have hw : WellFormed (shapes ts) := wellFormed_tokenize text
  have hprint := unparse_build hbalanced hw
  have hshapes : shapes (tokenize (build ts).unparse) = shapes (trimBlanks ts) := by
    rw [hprint, ← texts_shapes, shapes_tokenize_texts (wellFormed_trimBlanks hw)]
  obtain ⟨hflat, hfault⟩ := flat_of_shapes hshapes
  rw [build_trimBlanks hbalanced hw] at hflat
  refine ⟨hprint, build (tokenize (build ts).unparse), ?_, hflat, ?_⟩
  · apply parse_of_no_fault
    apply hfault
    rw [fault_of_terminated hbalanced.trimBlanks.terminated,
      fault_of_balanced hbalanced.trimBlanks.unstopped hbalanced.trimBlanks.depth]
  · rw [← unparse_flat, hflat, unparse_flat]

/-- A comment between two atoms, a literal that holds a quote and a `)`, and
blanks before a `)` and at the end. -/
theorem parse_unparse_comment :
    ∃ root, parse ['(', 'a', ';', ')', '\n', 'b', '"', '\\', '"', ')', '"', ' ', ')', '\n'] =
        .ok root ∧
      root.unparse = ['(', 'a', '\n', 'b', '"', '\\', '"', ')', '"', ')'] ∧
      ∃ root', parse root.unparse = .ok root' ∧ root'.flat = root.flat ∧
        root'.unparse = root.unparse := by
  have hparse : parse ['(', 'a', ';', ')', '\n', 'b', '"', '\\', '"', ')', '"', ' ', ')', '\n'] =
      .ok (.list [] 0 [.list [] 0 [.atom [] 1 ['a'], .atom ['\n'] 0 ['b'],
        .atom [] 1 ['"', '\\', '"', ')', '"']] (some 7)] none) := by decide
  exact ⟨_, hparse, by decide, (parse_unparse _ _ hparse).2⟩

end ParenLint
