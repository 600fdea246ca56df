/-
# Forms can be read back

Forms in source order can be told apart: two roots that tokens build are the
same if they are the same in source order (`Form.eq_of_rootPieces`). So to
know what a build gives it is enough to know which pieces it has.

Blanks and the column of an opening begin a form, and a closing ends a list
that is closed, so a form followed by other pieces ends where its own pieces
end (`Form.pieces_append_inj`). Nothing says where a list ends that is not
closed, but what is open stays open up to the end: such a list is the last
form of the root or of a list like it, and no pieces follow it
(`Form.Ended`).

Key definitions: `Form.Ended`, `Form.EndedAll`, `Form.Rooted`.
Key theorems: `Form.pieces_append_inj`, `Form.eq_of_rootPieces`,
`rooted_build`.
-/
import ParenLint.Proofs.Nesting
import ParenLint.Proofs.UsedTokens

namespace ParenLint

theorem Piece.beginsForm_cons (p : Piece) (ps : List Piece) :
    beginsForm (p :: ps) = beginsForm [p] := by
  cases p <;> rfl

namespace Form

/-! ### Where lists may be open -/

mutual

/-- The lists in the form that are not closed, it included, are the last of
the lists they are in, and there are none unless nothing follows the form. -/
def Ended (last : Prop) : Form → Prop
  | atom _ _ _ => True
  | list _ _ fs none => last ∧ EndedAll True fs
  | list _ _ fs (some _) => EndedAll False fs

def EndedAll (last : Prop) : List Form → Prop
  | [] => True
  | f :: fs => Ended (last ∧ fs = []) f ∧ EndedAll last fs

end

theorem endedAll_append (last : Prop) : ∀ fs gs : List Form,
    EndedAll last (fs ++ gs) ↔ EndedAll (last ∧ gs = []) fs ∧ EndedAll last gs
  | [], _ => by simp [EndedAll]
  | f :: fs, gs => by
    have hlast : (last ∧ fs ++ gs = []) = ((last ∧ gs = []) ∧ fs = []) := by
      rw [List.append_eq_nil_iff]
      exact propext ⟨fun h => ⟨⟨h.1, h.2.2⟩, h.2.1⟩, fun h => ⟨h.1.1, h.2, h.1.2⟩⟩
    rw [List.cons_append, EndedAll, EndedAll, endedAll_append last fs gs, hlast, and_assoc,
      and_assoc]

/-- Forms that are each well ended, whatever follows, are so together. -/
theorem endedAll_of_forall {fs : List Form} (h : ∀ f ∈ fs, ∀ last, f.Ended last) (last : Prop) :
    EndedAll last fs := by
  induction fs with
  | nil => trivial
  | cons f fs ih =>
    exact ⟨h f List.mem_cons_self _, ih fun g hg => h g (List.mem_cons_of_mem _ hg)⟩

theorem ended_of_closed {f : Form} (h : f.firstOpen? = none) : ∀ last, f.Ended last := by
  induction f with
  | atom _ _ _ => exact fun _ => trivial
  | list space column fs closing ih =>
    cases closing with
    | none => cases h
    | some k =>
      have hfs : AllClosed fs := firstOpenAmong_eq_none_iff.1 h
      exact fun _ => endedAll_of_forall (fun f hf => ih f hf (hfs f hf)) False

theorem endedAll_of_allClosed {fs : List Form} (h : AllClosed fs) (last : Prop) :
    EndedAll last fs :=
  endedAll_of_forall (fun f hf => ended_of_closed (h f hf)) last

/-! ### Reading back -/

theorem blanks_append_inj {s s' : List Char} {p p' : Piece} {xs ys : List Piece}
    (hp : p.isMark = true) (hp' : p'.isMark = true)
    (h : Piece.blanks s ++ p :: xs = Piece.blanks s' ++ p' :: ys) : s = s' ∧ p = p' ∧ xs = ys := by
  unfold Piece.blanks at h
  by_cases hs : s = [] <;> by_cases hs' : s' = []
  · simpa [hs, hs'] using h
  · rw [if_pos hs, if_neg hs'] at h
    obtain ⟨rfl, -⟩ := List.cons.inj h
    cases hp
  · rw [if_neg hs, if_pos hs'] at h
    obtain ⟨rfl, -⟩ := List.cons.inj h
    cases hp'
  · simpa [hs, hs'] using h

/-- Every form has a piece that is not blanks. -/
theorem pieces_eq (f : Form) : ∃ p ps, f.pieces = Piece.blanks f.space ++ p :: ps ∧
    p.isMark = true ∧ Piece.beginsForm [p] = true := by
  cases f with
  | atom space column label => exact ⟨_, _, rfl, rfl, rfl⟩
  | list space column fs closing => exact ⟨_, _, rfl, rfl, rfl⟩

theorem piecesAll_append_eq_nil {fs : List Form} {xs : List Piece} :
    piecesAll fs ++ xs = [] ↔ xs = [] ∧ fs = [] := by
  cases fs with
  | nil => simp [piecesAll]
  | cons f fs =>
    obtain ⟨p, ps, hf, -⟩ := pieces_eq f
    simp [piecesAll, hf]

/-- A form does not begin where pieces end or a list is closed. -/
theorem pieces_append_ne (f : Form) (xs : List Piece) {ys : List Piece}
    (h : Piece.beginsForm ys = false) : f.pieces ++ xs ≠ ys := by
  rintro rfl
  obtain ⟨p, ps, hf, -, hp⟩ := pieces_eq f
  rw [hf] at h
  unfold Piece.blanks at h
  split at h
  · rw [List.nil_append, List.cons_append, Piece.beginsForm_cons, hp] at h
    cases h
  · cases h

/-- What follows the forms of a list: its closing and what follows it. A list
that is not closed has nothing behind it. -/
theorem Ended.closings {space : List Char} {column : Nat} {fs : List Form} {closing : Option Nat}
    {xs : List Piece} (h : (list space column fs closing).Ended (xs = [])) :
    EndedAll (Piece.closings closing ++ xs = []) fs ∧
      Piece.beginsForm (Piece.closings closing ++ xs) = false := by
  cases closing with
  | none =>
    obtain ⟨rfl, hfs⟩ := h
    exact ⟨by simpa [Piece.closings] using hfs, rfl⟩
  | some k => exact ⟨by simpa [Ended, Piece.closings] using h, rfl⟩

theorem Ended.closings_inj {s s' : List Char} {i i' : Nat} {fs gs : List Form} {c c' : Option Nat}
    {xs ys : List Piece} (hx : (list s i fs c).Ended (xs = []))
    (hy : (list s' i' gs c').Ended (ys = []))
    (h : Piece.closings c ++ xs = Piece.closings c' ++ ys) : c = c' ∧ xs = ys := by
  cases c with
  | none =>
    obtain rfl : xs = [] := hx.1
    cases c' with
    | none => exact ⟨rfl, hy.1.symm⟩
    | some k' => cases h
  | some k =>
    cases c' with
    | none =>
      obtain rfl : ys = [] := hy.1
      cases h
    | some k' => simpa [Piece.closings] using h

mutual

/-- A form in source order, whatever follows it, tells which form it is and
where it ends. -/
theorem pieces_append_inj : ∀ (f g : Form) {xs ys : List Piece}, f.Ended (xs = []) →
    g.Ended (ys = []) → f.pieces ++ xs = g.pieces ++ ys → f = g ∧ xs = ys
  | atom s i l, atom s' i' l', xs, ys, _, _, h => by
    rw [pieces, pieces, List.append_assoc, List.append_assoc] at h
    obtain ⟨rfl, hp, hr⟩ := blanks_append_inj rfl rfl h
    obtain ⟨rfl, rfl⟩ := Piece.atom.inj hp
    exact ⟨rfl, hr⟩
  | list s i fs c, list s' i' gs c', xs, ys, hx, hy, h => by
    rw [pieces, pieces, List.append_assoc, List.append_assoc] at h
    obtain ⟨rfl, hp, hr⟩ := blanks_append_inj rfl rfl h
    obtain rfl := Piece.opening.inj hp
    rw [List.append_eq, List.append_eq, List.append_assoc, List.append_assoc] at hr
    obtain ⟨hfs, hbx⟩ := hx.closings
    obtain ⟨hgs, hby⟩ := hy.closings
    obtain ⟨rfl, hc⟩ := piecesAll_append_inj fs gs hfs hgs hbx hby hr
    obtain ⟨rfl, hxy⟩ := hx.closings_inj hy hc
    exact ⟨rfl, hxy⟩
  | atom s i l, list s' i' gs c', xs, ys, _, _, h => by
    rw [pieces, pieces, List.append_assoc, List.append_assoc] at h
    obtain ⟨-, hp, -⟩ := blanks_append_inj rfl rfl h
    cases hp
  | list s i fs c, atom s' i' l', xs, ys, _, _, h => by
    rw [pieces, pieces, List.append_assoc, List.append_assoc] at h
    obtain ⟨-, hp, -⟩ := blanks_append_inj rfl rfl h
    cases hp

theorem piecesAll_append_inj : ∀ (fs gs : List Form) {xs ys : List Piece},
    EndedAll (xs = []) fs → EndedAll (ys = []) gs → Piece.beginsForm xs = false →
    Piece.beginsForm ys = false → piecesAll fs ++ xs = piecesAll gs ++ ys → fs = gs ∧ xs = ys
  | [], [], _, _, _, _, _, _, h => ⟨rfl, h⟩
  | f :: fs, g :: gs, xs, ys, hx, hy, hbx, hby, h => by
    rw [piecesAll, piecesAll, List.append_assoc, List.append_assoc] at h
    have hf : f.Ended (piecesAll fs ++ xs = []) := propext piecesAll_append_eq_nil ▸ hx.1
    have hg : g.Ended (piecesAll gs ++ ys = []) := propext piecesAll_append_eq_nil ▸ hy.1
    obtain ⟨rfl, hrest⟩ := pieces_append_inj f g hf hg h
    obtain ⟨rfl, hxy⟩ := piecesAll_append_inj fs gs hx.2 hy.2 hbx hby hrest
    exact ⟨rfl, hxy⟩
  | [], g :: gs, xs, ys, _, _, hbx, _, h => by
    rw [piecesAll, piecesAll, List.append_assoc] at h
    exact absurd h.symm (pieces_append_ne g _ hbx)
  | f :: fs, [], xs, ys, _, _, _, hby, h => by
    rw [piecesAll, piecesAll, List.append_assoc] at h
    exact absurd h (pieces_append_ne f _ hby)

end

/-! ### Roots -/

/-- A root that tokens may build: it has no blanks and is at column 0, and no
list in it is open unless it is at the end. -/
structure Rooted (root : Form) : Prop where
  shape : root = list [] 0 root.children root.closing
  ended : EndedAll (root.closing = none) root.children

/-- **A root is told by its pieces.** -/
theorem eq_of_rootPieces {f g : Form} (hf : f.Rooted) (hg : g.Rooted)
    (h : f.rootPieces = g.rootPieces) : f = g := by
  have tail : ∀ c : Option Nat, (c = none) = (Piece.closings c = []) ∧
      Piece.beginsForm (Piece.closings c) = false := by
    intro c
    cases c <;> simp [Piece.closings, Piece.beginsForm]
  obtain ⟨hfs, hc⟩ := piecesAll_append_inj f.children g.children
    ((tail _).1 ▸ hf.ended) ((tail _).1 ▸ hg.ended) (tail _).2 (tail _).2 h
  have hclosing : f.closing = g.closing := by
    cases hcf : f.closing <;> cases hcg : g.closing <;> rw [hcf, hcg] at hc <;>
      first | rfl | cases hc
    rfl
  rw [hf.shape, hg.shape, hfs, hclosing]

end Form

open Form

/-! ### Builds -/

namespace Builder

def OnRoot (b : Builder) : Prop :=
  ∀ l, (b.inner :: b.outer).getLast? = some l → l.space = [] ∧ l.column = 0

theorem onRoot_init : OnRoot init := by
  intro l hl
  obtain rfl : OpenList.root = l := by simpa [init] using hl
  exact ⟨rfl, rfl⟩

theorem OnRoot.add {l : OpenList} {outer : List OpenList} {space : List Char}
    (h : OnRoot ⟨l, outer, space⟩) (f : Form) (space' : List Char) :
    OnRoot ⟨l.add f, outer, space'⟩ := by
  intro m hm
  cases outer with
  | nil =>
    obtain rfl : l.add f = m := by simpa using hm
    exact h l rfl
  | cons around outer => exact h m (by rwa [List.getLast?_cons_cons] at hm ⊢)

theorem OnRoot.step {b b' : Builder} {t : Token} (h : OnRoot b) (hs : Step b t b') :
    OnRoot b' := by
  cases hs with
  | space _ => exact h
  | opens _ _ =>
    intro l hl
    exact h l (by rwa [List.getLast?_cons_cons] at hl)
  | @closes around outer _ ho =>
    have hout : OnRoot ⟨around, outer, []⟩ := by
      intro l hl
      exact h l (by rwa [ho, List.getLast?_cons_cons])
    exact hout.add _ _
  | atom _ =>
    have hinner : OnRoot ⟨b.inner, b.outer, b.space⟩ := h
    exact hinner.add _ _

theorem Reads.onRoot {b b' : Builder} {ts : List Token} (h : Reads b ts b') (hb : OnRoot b) :
    OnRoot b' := by
  induction h with
  | nil => exact hb
  | snoc _ hs ih => exact ih.step hs

/-- Ending the open lists leaves open lists at the end only. -/
theorem rooted_unwind : ∀ (outer : List OpenList) (inner : OpenList),
    (∀ l ∈ outer, AllClosed l.children) → EndedAll True inner.children.reverse →
    (∀ l, (inner :: outer).getLast? = some l → l.space = [] ∧ l.column = 0) →
    (unwind inner outer).Rooted
  | [], inner, _, hi, hr => by
    obtain ⟨hs, hc⟩ := hr inner rfl
    exact ⟨by simp [unwind, OpenList.toForm, hs, hc, children, closing],
      by simpa [unwind, OpenList.toForm, children, closing] using hi⟩
  | around :: outer, inner, ho, hi, hr => by
    refine rooted_unwind outer _ (fun l hl => ho l (List.mem_cons_of_mem _ hl)) ?_ ?_
    · have haround : AllClosed around.children.reverse := fun f hf =>
        ho around List.mem_cons_self f (List.mem_reverse.1 hf)
      show EndedAll True (inner.toForm none :: around.children).reverse
      rw [List.reverse_cons, endedAll_append]
      exact ⟨endedAll_of_allClosed haround _, ⟨⟨trivial, rfl⟩, hi⟩, trivial⟩
    · have haround : OnRoot ⟨around, outer, []⟩ := fun l hl =>
        hr l (by rwa [List.getLast?_cons_cons])
      exact haround.add _ []

theorem rooted_finish {b : Builder} (hc : Closed b) (hr : OnRoot b) : b.finish.Rooted := by
  refine rooted_unwind b.outer b.inner (fun l hl => hc l (List.mem_cons_of_mem _ hl)) ?_ hr
  exact endedAll_of_allClosed (fun f hf => hc _ List.mem_cons_self f (List.mem_reverse.1 hf)) _

theorem Stop.rooted {b : Builder} {t : Token} {root : Form} {ending : Ending}
    (h : Stop b t root ending) (hc : Closed b) (hr : OnRoot b) : root.Rooted := by
  cases h with
  | strayClose _ ho =>
    obtain ⟨hs, hcol⟩ := hr b.inner (by rw [ho]; rfl)
    refine ⟨by simp [OpenList.toForm, hs, hcol, children, closing], ?_⟩
    exact endedAll_of_allClosed
      (fun f hf => hc _ List.mem_cons_self f (List.mem_reverse.1 hf)) _
  | tooDeep _ _ => exact rooted_finish hc hr

end Builder

theorem rooted_build (ts : List Token) : (build ts).Rooted := by
  rcases Builder.run_cases ts .init with ⟨b, hr, h⟩ | ⟨_, _, _, b, root, _, -, hr, hs, h⟩
  · rw [build, Built.ofTokens, h]
    exact Builder.rooted_finish (hr.closed Builder.closed_init) (hr.onRoot Builder.onRoot_init)
  · rw [build, Built.ofTokens, h]
    exact hs.rooted (hr.closed Builder.closed_init) (hr.onRoot Builder.onRoot_init)

end ParenLint
