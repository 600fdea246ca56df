/-
# Which forms tokens build

What tokens build is a root, a list at column 0 with no blanks before it, and
two more things hold of it however the build ends: no list in it is in so many
others that the builder would not have opened it, and a list that is not
closed stands at the very end of a list that is not closed either
(`Form.Buildable`). Nothing else holds of all of them, since every such form is
built by the tokens that list it in source order (`Form.tokens`).

The first half is about the builder. Every form in an open list is low enough
for the lists that are open around it (`Builder.Fits`), and ending the open
lists leaves them so. The second half is about pieces: those of such a form are
all used (`Form.used_pieces`) and tidy (`Form.tidy_pieces`), so that the form
and what its tokens build have the same pieces.

Key definitions: `Form.Nested`, `Form.height`, `Form.Buildable`,
`Builder.Fits`, `Form.tokens`.
Key theorems: `Form.buildable_iff`, `buildable_build`, `Form.tidy_rootPieces`,
`build_tokens`, `build_image`.
-/
import ParenLint.Proofs.Readback
import ParenLint.Proofs.Rules

namespace ParenLint

namespace Form

/-! ### How deep lists are nested -/

/-- The form `f` is inside the root, in `n` lists other than the root, itself
counted if it is a list. -/
inductive Nested (root : Form) : Nat → Form → Prop
  | outermost {f : Form} : f ∈ root.children → Nested root f.isList.toNat f
  | child {n : Nat} {l f : Form} :
      Nested root n l → f ∈ l.children → Nested root (n + f.isList.toNat) f

mutual

/-- How many lists there are one inside the other in a form, itself counted. -/
def height : Form → Nat
  | atom _ _ _ => 0
  | list _ _ children _ => heightAll children + 1

def heightAll : List Form → Nat
  | [] => 0
  | f :: fs => max (height f) (heightAll fs)

end

theorem heightAll_le_iff {n : Nat} {fs : List Form} :
    heightAll fs ≤ n ↔ ∀ f ∈ fs, f.height ≤ n := by
  induction fs with
  | nil => simp [heightAll]
  | cons f fs ih => rw [heightAll, Nat.max_le, ih, List.forall_mem_cons]

theorem height_le_heightAll {f : Form} {fs : List Form} (h : f ∈ fs) : f.height ≤ heightAll fs :=
  heightAll_le_iff.1 (Nat.le_refl _) f h

theorem height_eq (f : Form) : f.height = f.isList.toNat + heightAll f.children := by
  cases f with
  | atom _ _ _ => rfl
  | list _ _ fs _ => exact Nat.add_comm (heightAll fs) 1

theorem Nested.le {root f : Form} {n : Nat} (h : Nested root n f) :
    n + heightAll f.children ≤ heightAll root.children := by
  induction h with
  | outermost hf =>
    rw [← height_eq]
    exact height_le_heightAll hf
  | @child n l f _ hf ih =>
    have hle := height_le_heightAll hf
    rw [height_eq] at hle
    omega

/-- How deep forms are nested in a root is how high the forms of the root
are. -/
theorem nested_le_iff {root : Form} {k : Nat} :
    (∀ n f, Nested root n f → n ≤ k) ↔ heightAll root.children ≤ k := by
  constructor
  · intro h
    have below : ∀ (f : Form) (n : Nat), Nested root n f → n + heightAll f.children ≤ k := by
      intro f
      induction f with
      | atom _ _ _ => exact fun n hn => h n _ hn
      | list space column fs closing ih =>
        intro n hn
        have hroom : heightAll fs ≤ k - n := by
          rw [heightAll_le_iff]
          intro f hf
          have hle := ih f hf _ (.child hn hf)
          rw [height_eq]
          omega
        have hle := h n _ hn
        show n + heightAll fs ≤ k
        omega
    rw [heightAll_le_iff]
    intro f hf
    rw [height_eq]
    exact below f _ (.outermost hf)
  · intro h n f hn
    have hle := hn.le
    omega

/-! ### Where lists may be open -/

theorem ended_iff {f : Form} {last : Prop} :
    f.Ended last ↔ (f.isList = true → f.closing = none → last) ∧
      EndedAll (f.closing = none) f.children := by
  cases f with
  | atom _ _ _ => simp [Ended, EndedAll, isList, children]
  | list _ _ fs closing =>
    cases closing <;> simp [Ended, isList, Form.closing, children]

theorem endedAll_iff {last : Prop} {fs : List Form} :
    EndedAll last fs ↔
      ∀ before f after, fs = before ++ f :: after → f.Ended (last ∧ after = []) := by
  induction fs with
  | nil => simp [EndedAll]
  | cons g gs ih =>
    constructor
    · rintro h before f after heq
      rw [heq, endedAll_append] at h
      exact h.2.1
    · intro h
      refine ⟨h [] g gs rfl, ih.2 fun before f after heq => ?_⟩
      exact h (g :: before) f after (by rw [heq, List.cons_append])

theorem Inside.endedAll {root l : Form} (h : Inside root l)
    (hroot : EndedAll (root.closing = none) root.children) :
    EndedAll (l.closing = none) l.children := by
  induction h with
  | self => exact hroot
  | child _ hf ih =>
    obtain ⟨before, after, heq⟩ := List.append_of_mem hf
    exact (ended_iff.1 (endedAll_iff.1 ih _ _ _ heq)).2

/-- A root is well ended if every list inside it that is not closed is the last
form of a list that is not closed. -/
theorem endedAll_children_iff {root : Form} :
    EndedAll (root.closing = none) root.children ↔
      ∀ l before f after, Inside root l → l.children = before ++ f :: after →
        f.isList = true → f.closing = none → after = [] ∧ l.closing = none := by
  constructor
  · intro h l before f after hl heq hlist hopen
    exact ((ended_iff.1 (endedAll_iff.1 (hl.endedAll h) _ _ _ heq)).1 hlist hopen).symm
  · intro h
    have inside : ∀ l, Inside root l → EndedAll (l.closing = none) l.children := by
      intro l
      induction l with
      | atom _ _ _ => exact fun _ => trivial
      | list space column fs closing ih =>
        intro hl
        rw [endedAll_iff]
        intro before f after heq
        have hf : f ∈ fs := by
          show f ∈ (list space column fs closing).children
          rw [heq]
          exact List.mem_append_right _ List.mem_cons_self
        exact ended_iff.2 ⟨fun hlist hopen => (h _ _ _ _ hl heq hlist hopen).symm,
          ih f hf (.child hl hf)⟩
    exact inside root .self

/-! ### Roots that can be built -/

/-- What the forms that tokens build have in common. -/
structure Buildable (root : Form) : Prop where
  isList : root.isList = true
  space : root.space = []
  column : root.column = 0
  /-- No form is in more lists than may be open at once. -/
  nested : ∀ n f, Nested root n f → n ≤ maxDepth
  /-- A list that is not closed is the last form of one that is not closed
  either. -/
  openLast : ∀ l before f after, Inside root l → l.children = before ++ f :: after →
    f.isList = true → f.closing = none → after = [] ∧ l.closing = none

theorem buildable_iff {root : Form} :
    root.Buildable ↔ root.Rooted ∧ heightAll root.children ≤ maxDepth := by
  constructor
  · intro h
    have hshape : root = list [] 0 root.children root.closing := by
      obtain ⟨hlist, hspace, hcolumn, -, -⟩ := h
      cases root with
      | atom _ _ _ => cases hlist
      | list space column fs closing =>
        obtain rfl : space = [] := hspace
        obtain rfl : column = 0 := hcolumn
        rfl
    exact ⟨⟨hshape, endedAll_children_iff.2 h.openLast⟩, nested_le_iff.1 h.nested⟩
  · rintro ⟨hroot, hheight⟩
    have hshape := hroot.shape
    exact
      { isList := by rw [hshape]; rfl
        space := by rw [hshape]; rfl
        column := by rw [hshape]; rfl
        nested := nested_le_iff.2 hheight
        openLast := endedAll_children_iff.1 hroot.ended }

end Form

open Form Nesting

/-! ### What tokens build -/

namespace Builder

/-- Every form in an open list, together with the lists that are open around
it, is no higher than lists may be nested. -/
def Fits : List OpenList → Prop
  | [] => True
  | l :: outer =>
    outer.length ≤ maxDepth ∧ (∀ f ∈ l.children, f.height + outer.length ≤ maxDepth) ∧ Fits outer

theorem Fits.add {l : OpenList} {outer : List OpenList} (h : Fits (l :: outer)) {f : Form}
    (hf : f.height + outer.length ≤ maxDepth) : Fits (l.add f :: outer) :=
  ⟨h.1, List.forall_mem_cons.2 ⟨hf, h.2.1⟩, h.2.2⟩

theorem Fits.add_toForm {l around : OpenList} {outer : List OpenList}
    (h : Fits (l :: around :: outer)) (closing : Option Nat) :
    Fits (around.add (l.toForm closing) :: outer) := by
  obtain ⟨hdepth, hforms, houter⟩ := h
  rw [List.length_cons] at hdepth hforms
  refine houter.add ?_
  have hheight : heightAll l.children.reverse ≤ maxDepth - (outer.length + 1) := by
    rw [heightAll_le_iff]
    intro f hf
    have hle := hforms f (List.mem_reverse.1 hf)
    omega
  show heightAll l.children.reverse + 1 + outer.length ≤ maxDepth
  omega

theorem Fits.step {b b' : Builder} {t : Token} (h : Fits (b.inner :: b.outer)) (hs : Step b t b') :
    Fits (b'.inner :: b'.outer) := by
  cases hs with
  | space _ => exact h
  | opens _ hd =>
    have hlt : b.outer.length < maxDepth := Nat.lt_of_le_of_ne h.1 hd
    exact ⟨hlt, by simp, h⟩
  | closes _ ho =>
    rw [ho] at h
    exact h.add_toForm _
  | atom _ => exact h.add (by simpa [height] using h.1)

theorem Reads.fits {b b' : Builder} {ts : List Token} (h : Reads b ts b')
    (hb : Fits (b.inner :: b.outer)) : Fits (b'.inner :: b'.outer) := by
  induction h with
  | nil => exact hb
  | snoc _ hs ih => exact ih.step hs

/-- Ending the open lists does not make them any higher. -/
theorem heightAll_unwind : ∀ (outer : List OpenList) (inner : OpenList), Fits (inner :: outer) →
    heightAll (unwind inner outer).children ≤ maxDepth
  | [], inner, h => by
    show heightAll inner.children.reverse ≤ maxDepth
    rw [heightAll_le_iff]
    exact fun f hf => h.2.1 f (List.mem_reverse.1 hf)
  | around :: outer, inner, h => heightAll_unwind outer _ (h.add_toForm none)

theorem Stop.heightAll {b : Builder} {t : Token} {root : Form} {ending : Ending}
    (h : Stop b t root ending) (hb : Fits (b.inner :: b.outer)) :
    Form.heightAll root.children ≤ maxDepth := by
  cases h with
  | strayClose _ ho =>
    rw [ho] at hb
    exact heightAll_unwind [] b.inner hb
  | tooDeep _ _ => exact heightAll_unwind b.outer b.inner hb

end Builder

theorem buildable_build (ts : List Token) : (build ts).Buildable := by
  refine buildable_iff.2 ⟨rooted_build ts, ?_⟩
  have hinit : Builder.Fits (Builder.init.inner :: Builder.init.outer) :=
    ⟨Nat.zero_le _, by simp [Builder.init, OpenList.root], trivial⟩
  rcases Builder.run_cases ts .init with ⟨b, hr, h⟩ | ⟨_, _, _, b, root, _, -, hr, hs, h⟩
  · rw [build, Built.ofTokens, h]
    exact Builder.heightAll_unwind b.outer b.inner (hr.fits hinit)
  · rw [build, Built.ofTokens, h]
    exact hs.heightAll (hr.fits hinit)

/-! ### The tokens of a form -/

def Piece.token : Piece → Token
  | space text => ⟨.space, text, 0⟩
  | atom label column => ⟨.atom, label, column⟩
  | opening column => ⟨.leftParen, ['('], column⟩
  | closing column => ⟨.rightParen, [')'], column⟩

theorem Piece.piece_token (p : Piece) : p.token.piece = p := by
  cases p <;> rfl

/-- The tokens that list a root in source order: for each form in it its
blanks, if it has any, and then an atom, or a `(`, the tokens of the forms in
the list and a `)` if the list is closed; last a `)` if the root is closed. -/
def Form.tokens (root : Form) : List Token := root.rootPieces.map Piece.token

namespace Form

theorem used_blanks (d : Nat) (text : List Char) (ts : List Token) :
    used d ((Piece.blanks text).map Piece.token ++ ts) =
      (Piece.blanks text).map Piece.token ++ used d ts := by
  unfold Piece.blanks
  split
  · rfl
  · exact used_cons (by simp [Stops, Piece.token]) ts

theorem used_closings {closing : Option Nat} {ps : List Piece} (h : closing = none → ps = [])
    (d : Nat) : used (d + 1) ((Piece.closings closing ++ ps).map Piece.token) =
      (Piece.closings closing).map Piece.token ++ used d (ps.map Piece.token) := by
  cases closing with
  | none =>
    rw [h rfl]
    rfl
  | some k => exact used_cons (by simp [Stops, Piece.token]) _

mutual

/-- A form that is low enough for the depth it stands at is used as a whole. -/
theorem used_pieces : ∀ (f : Form) (d : Nat) (ps : List Piece), f.height + d ≤ maxDepth →
    f.Ended (ps = []) → used d ((f.pieces ++ ps).map Piece.token) =
      f.pieces.map Piece.token ++ used d (ps.map Piece.token)
  | atom space column label, d, ps, _, _ => by
    have hatom : ∀ ts, used d ((Piece.atom label column).token :: ts) =
        (Piece.atom label column).token :: used d ts := fun ts =>
      used_cons (by simp [Stops, Piece.token]) ts
    rw [pieces, List.append_assoc, List.map_append, used_blanks, List.singleton_append,
      List.map_cons, hatom]
    simp
  | list space column fs closing, d, ps, hd, he => by
    rw [height] at hd
    have hopening : ∀ ts, used d ((Piece.opening column).token :: ts) =
        (Piece.opening column).token :: used (d + 1) ts := fun ts =>
      used_cons (by simp [Stops, Piece.token]; omega) ts
    have hopen : closing = none → ps = [] := by
      rintro rfl
      exact he.1
    rw [pieces, List.append_assoc, List.map_append, used_blanks, List.cons_append, List.map_cons,
      hopening, List.append_assoc, used_piecesAll fs (d + 1) _ (by omega) he.closings.1,
      used_closings hopen]
    simp

theorem used_piecesAll : ∀ (fs : List Form) (d : Nat) (ps : List Piece),
    heightAll fs + d ≤ maxDepth → EndedAll (ps = []) fs →
    used d ((piecesAll fs ++ ps).map Piece.token) =
      (piecesAll fs).map Piece.token ++ used d (ps.map Piece.token)
  | [], _, _, _, _ => rfl
  | f :: fs, d, ps, hd, he => by
    rw [heightAll] at hd
    have hf : f.Ended (piecesAll fs ++ ps = []) := propext piecesAll_append_eq_nil ▸ he.1
    rw [piecesAll, List.append_assoc, used_pieces f d _ (by omega) hf,
      used_piecesAll fs d ps (by omega) he.2]
    simp

end

mutual

/-- The blanks in a form all stand before a form, so there is nothing to
tidy. -/
theorem tidy_pieces : ∀ (f : Form) (ps : List Piece),
    Piece.tidy (f.pieces ++ ps) = f.pieces ++ Piece.tidy ps
  | atom space column label, ps => by
    rw [pieces, List.append_assoc, List.singleton_append, Piece.tidy_blanks_mark rfl rfl,
      List.append_assoc, List.singleton_append]
  | list space column fs closing, ps => by
    have hclosing : Piece.tidy (Piece.closings closing ++ ps) =
        Piece.closings closing ++ Piece.tidy ps := by
      cases closing with
      | none => rfl
      | some k => exact Piece.tidy_of_isMark rfl ps
    rw [pieces, List.append_assoc, List.cons_append, Piece.tidy_blanks_mark rfl rfl,
      List.append_assoc, tidy_piecesAll fs, hclosing]
    simp

theorem tidy_piecesAll : ∀ (fs : List Form) (ps : List Piece),
    Piece.tidy (piecesAll fs ++ ps) = piecesAll fs ++ Piece.tidy ps
  | [], _ => rfl
  | f :: fs, ps => by
    rw [piecesAll, List.append_assoc, tidy_pieces f, tidy_piecesAll fs, List.append_assoc]

end

theorem tidy_rootPieces (root : Form) : Piece.tidy root.rootPieces = root.rootPieces := by
  have hclosing : Piece.tidy (Piece.closings root.closing) = Piece.closings root.closing := by
    cases root.closing <;> rfl
  rw [rootPieces, tidy_piecesAll, hclosing]

theorem used_tokens {root : Form} (h : root.Rooted) (hd : heightAll root.children ≤ maxDepth) :
    used 0 root.tokens = root.tokens := by
  have hended : EndedAll (Piece.closings root.closing = []) root.children := by
    have hnil : (Piece.closings root.closing = []) = (root.closing = none) := by
      cases root.closing <;> simp [Piece.closings]
    rw [hnil]
    exact h.ended
  have hclosing : used 0 ((Piece.closings root.closing).map Piece.token) =
      (Piece.closings root.closing).map Piece.token := by
    cases root.closing <;> rfl
  rw [Form.tokens, rootPieces, used_piecesAll _ 0 _ hd hended, hclosing, List.map_append]

end Form

theorem build_tokens {root : Form} (h : root.Buildable) : build root.tokens = root := by
  obtain ⟨hroot, hheight⟩ := buildable_iff.1 h
  have hpieces : root.tokens.map Token.piece = root.rootPieces := by
    rw [Form.tokens, List.map_map, show Token.piece ∘ Piece.token = id from
      funext Piece.piece_token, List.map_id]
  refine eq_of_rootPieces (rooted_build _) hroot ?_
  rw [Builder.rootPieces_eq_ahead, Builder.ahead_init, used_tokens hroot hheight, hpieces,
    tidy_rootPieces]

/-- **Which forms tokens build.** A form is built by some tokens exactly if it
is a list at column 0 with no blanks before it, no form in it is in more than
`maxDepth` lists besides it, and every list in it that is not closed is the
last form of a list that is not closed. Such a form, and no other, is built by
the tokens that list it in source order. -/
theorem build_image (root : Form) :
    ((∃ ts, build ts = root) ↔ root.Buildable) ∧
      (root.Buildable ↔ build root.tokens = root) := by
  have hbuilt : ∀ ts, build ts = root → root.Buildable := by
    rintro ts rfl
    exact buildable_build ts
  exact ⟨⟨fun ⟨ts, h⟩ => hbuilt ts h, fun h => ⟨root.tokens, build_tokens h⟩⟩,
    ⟨build_tokens, hbuilt root.tokens⟩⟩

/-- A list that is not closed is read back. If the root is to be closed after
it, the list takes the `)` as its own. -/
example :
    build (Form.tokens (.list [] 0 [.list [' '] 1 [.atom ['\n'] 4 ['a']] none] none)) =
        .list [] 0 [.list [' '] 1 [.atom ['\n'] 4 ['a']] none] none ∧
      build (Form.tokens (.list [] 0 [.list [' '] 1 [.atom ['\n'] 4 ['a']] none] (some 7))) =
        .list [] 0 [.list [' '] 1 [.atom ['\n'] 4 ['a']] (some 7)] none := by decide

end ParenLint
