/-
# Forms with other blanks, columns or labels

The shape of what tokens build depends on nothing but their kinds. If their
columns and their texts are changed one by one, so are those of the root
(`build_change`), and without the blanks among them they build the same root
with no blanks in it (`build_unspaced`). Both are shown on the pieces of the
root, which tell it (`Form.eq_of_rootPieces`). What is wrong with the
structure changes in the same way (`fault_change`, `fault_unspaced`).

The indentation rules compare columns with each other, so the first violation
of a form stays the first if its columns are changed and keep their order
(`Form.violation_change`), and the verdict of every form is kept by a strictly
monotone function (`Form.verdict_by_order`).

Key definitions: `Change`, `Form.change`, `Form.changeInside`, `Form.bare`,
`unspaced`.
Key theorems: `Form.pieces_change`, `Form.violation_change`,
`Form.verdict_by_order`, `Piece.tidy_change`, `build_unspaced`,
`fault_unspaced`, `build_change`, `fault_change`.
-/
import ParenLint.Proofs.Readback
import ParenLint.Proofs.Repair
import ParenLint.Proofs.Rules
import Mathlib.Order.Monotone.Basic

namespace ParenLint

/-- A way to change the blanks, the columns and the labels of forms. -/
structure Change where
  blanks : List Char → List Char := id
  column : Nat → Nat := id
  label : List Char → List Char := id

namespace Change

def bare : Change := { blanks := fun _ => [] }

def shift (k : Nat) : Change := { column := fun i => i + k }

theorem strictMono_shift (k : Nat) : StrictMono (shift k).column :=
  fun _ _ h => Nat.add_lt_add_right h k

variable {m : Change}

/-- If blanks side by side change as each of them does, no blanks stay no
blanks. -/
theorem blanks_nil (hm : ∀ a b, m.blanks (a ++ b) = m.blanks a ++ m.blanks b) :
    m.blanks [] = [] := by
  have hlength := congrArg List.length (hm [] [])
  rw [List.append_nil, List.length_append] at hlength
  exact List.eq_nil_of_length_eq_zero (by omega)

end Change

variable {m : Change}

/-! ### Pieces -/

namespace Piece

def change (m : Change) : Piece → Piece
  | space text => space (m.blanks text)
  | atom label column => atom (m.label label) (m.column column)
  | opening column => opening (m.column column)
  | closing column => closing (m.column column)

/-- Pieces changed, without blanks that are empty then. -/
def changeAll (m : Change) (ps : List Piece) : List Piece :=
  (ps.map (change m)).filter (· ≠ space [])

theorem changeAll_append (m : Change) (ps qs : List Piece) :
    changeAll m (ps ++ qs) = changeAll m ps ++ changeAll m qs := by
  simp [changeAll]

theorem changeAll_cons {p : Piece} (h : p.isMark = true) (m : Change) (ps : List Piece) :
    changeAll m (p :: ps) = p.change m :: changeAll m ps := by
  cases p with
  | space _ => cases h
  | _ => rfl

theorem changeAll_blanks (hm : m.blanks [] = []) (text : List Char) :
    changeAll m (blanks text) = blanks (m.blanks text) := by
  by_cases h : text = []
  · simp [blanks, h, hm, changeAll]
  · by_cases h' : m.blanks text = [] <;> simp [blanks, h, h', changeAll, change]

theorem changeAll_closings (m : Change) (closing : Option Nat) :
    changeAll m (closings closing) = closings (closing.map m.column) := by
  cases closing <;> rfl

theorem changeAll_bare (ps : List Piece) : changeAll .bare ps = ps.filter isMark := by
  induction ps with
  | nil => rfl
  | cons p ps ih =>
    have hcons : changeAll .bare (p :: ps) = changeAll .bare [p] ++ changeAll .bare ps :=
      changeAll_append .bare [p] ps
    rw [hcons, ih]
    cases p <;> rfl

theorem isMark_change (m : Change) (p : Piece) : (p.change m).isMark = p.isMark := by
  cases p <;> rfl

theorem beginsForm_change (m : Change) (p : Piece) : beginsForm [p.change m] = beginsForm [p] := by
  cases p <;> rfl

/-- Pieces that are changed and then tidied are tidy pieces changed, if blanks
side by side change as each of them does. -/
theorem tidy_change (hm : ∀ a b, m.blanks (a ++ b) = m.blanks a ++ m.blanks b) :
    ∀ ps : List Piece, tidy (ps.map (change m)) = changeAll m (tidy ps)
  | [] => rfl
  | [p] => by
    by_cases hp : p.isMark = true
    · rw [tidy_of_isMark hp, changeAll_cons hp]
      exact tidy_of_isMark ((isMark_change m p).trans hp) []
    · obtain ⟨a, rfl⟩ := eq_space_of_not_isMark hp
      rw [tidy_blanks_end]
      exact tidy_blanks_end (m.blanks a)
  | p :: q :: ps => by
    by_cases hp : p.isMark = true
    · rw [List.map_cons, tidy_of_isMark ((isMark_change m p).trans hp), tidy_of_isMark hp,
        changeAll_cons hp, tidy_change hm (q :: ps)]
    obtain ⟨a, rfl⟩ := eq_space_of_not_isMark hp
    by_cases hq : q.isMark = true
    · have hblanks : changeAll m (if beginsForm [q] then blanks a else []) =
          if beginsForm [q] then blanks (m.blanks a) else [] := by
        split
        · exact changeAll_blanks (Change.blanks_nil hm) a
        · rfl
      rw [List.map_cons, List.map_cons, change, tidy_space_mark ((isMark_change m q).trans hq),
        beginsForm_change, tidy_change hm ps, tidy_space_mark hq, changeAll_append,
        changeAll_cons hq, hblanks]
    · -- two runs of blanks count as one, which leaves fewer pieces
      obtain ⟨b, rfl⟩ := eq_space_of_not_isMark hq
      rw [List.map_cons, List.map_cons, change, change, tidy_space_space, tidy_space_space, ← hm]
      exact tidy_change hm (space (a ++ b) :: ps)
termination_by ps => ps.length

/-- There is nothing to tidy where there are no blanks. -/
theorem tidy_of_forall_isMark : ∀ {ps : List Piece}, (∀ p ∈ ps, p.isMark = true) → tidy ps = ps
  | [], _ => rfl
  | p :: ps, h => by
    rw [tidy_of_isMark (h p List.mem_cons_self),
      tidy_of_forall_isMark fun q hq => h q (List.mem_cons_of_mem _ hq)]

end Piece

/-! ### Forms -/

def Violation.change (m : Change) : Violation → Violation
  | notRightOfParent label column parent =>
    notRightOfParent (m.label label) (m.column column) (m.column parent)
  | leftOfFirst column first => leftOfFirst (m.column column) (m.column first)
  | rightOfClosing column closing => rightOfClosing (m.column column) (m.column closing)

namespace Form

mutual

def change (m : Change) : Form → Form
  | atom space column label => atom (m.blanks space) (m.column column) (m.label label)
  | list space column children closing =>
    list (m.blanks space) (m.column column) (changeAll m children) (closing.map m.column)

def changeAll (m : Change) : List Form → List Form
  | [] => []
  | f :: fs => change m f :: changeAll m fs

end

/-- The forms in a list and its closing changed; for a root, everything that
is read from the text. -/
def changeInside (m : Change) : Form → Form
  | atom space column label => atom space column label
  | list space column children closing =>
    list space column (changeAll m children) (closing.map m.column)

def bare (f : Form) : Form := f.change .bare

theorem changeAll_eq_map (m : Change) : ∀ fs : List Form, changeAll m fs = fs.map (change m)
  | [] => rfl
  | f :: fs => by rw [changeAll, changeAll_eq_map m fs, List.map_cons]

@[simp] theorem column_change (m : Change) (f : Form) :
    (f.change m).column = m.column f.column := by
  cases f <;> rfl

@[simp] theorem isList_change (m : Change) (f : Form) : (f.change m).isList = f.isList := by
  cases f <;> rfl

mutual

theorem pieces_change (hm : m.blanks [] = []) : ∀ f : Form,
    (f.change m).pieces = Piece.changeAll m f.pieces
  | atom space column label => by
    rw [pieces, Piece.changeAll_append, Piece.changeAll_blanks hm]
    rfl
  | list space column fs closing => by
    rw [pieces, Piece.changeAll_append, Piece.changeAll_blanks hm, Piece.changeAll_cons rfl,
      Piece.changeAll_append, ← piecesAll_changeAll hm fs, Piece.changeAll_closings]
    rfl

theorem piecesAll_changeAll (hm : m.blanks [] = []) : ∀ fs : List Form,
    piecesAll (changeAll m fs) = Piece.changeAll m (piecesAll fs)
  | [] => rfl
  | f :: fs => by
    rw [changeAll, piecesAll, pieces_change hm f, piecesAll_changeAll hm fs, piecesAll,
      Piece.changeAll_append]

end

theorem rootPieces_changeInside (hm : m.blanks [] = []) (f : Form) :
    (f.changeInside m).rootPieces = Piece.changeAll m f.rootPieces := by
  cases f with
  | atom _ _ _ => rfl
  | list space column fs closing =>
    rw [rootPieces, rootPieces, Piece.changeAll_append]
    show piecesAll (changeAll m fs) ++ Piece.closings (closing.map m.column) = _
    rw [piecesAll_changeAll hm, ← Piece.changeAll_closings]
    rfl

mutual

theorem ended_change : ∀ (f : Form) (last : Prop), (f.change m).Ended last ↔ f.Ended last
  | atom _ _ _, _ => Iff.rfl
  | list _ _ fs none, _ => and_congr_right fun _ => endedAll_changeAll fs True
  | list _ _ fs (some _), _ => endedAll_changeAll fs False

theorem endedAll_changeAll : ∀ (fs : List Form) (last : Prop),
    EndedAll last (changeAll m fs) ↔ EndedAll last fs
  | [], _ => Iff.rfl
  | f :: fs, last => by
    have hnil : (changeAll m fs = []) = (fs = []) := by
      rw [changeAll_eq_map, List.map_eq_nil_iff]
    rw [changeAll, EndedAll, EndedAll, hnil, ended_change f, endedAll_changeAll fs]

end

theorem Rooted.changeInside {f : Form} (h : f.Rooted) : (f.changeInside m).Rooted := by
  obtain ⟨hshape, hended⟩ := h
  rw [hshape]
  refine ⟨rfl, ?_⟩
  have hnone : (f.closing.map m.column = none) = (f.closing = none) := by simp
  show EndedAll (f.closing.map m.column = none) (changeAll m f.children)
  rwa [hnone, endedAll_changeAll]

/-- A root has no blanks before it and counts as opening at column 0. -/
theorem Rooted.change_eq {f : Form} (h : f.Rooted) (hb : m.blanks [] = []) (hc : m.column 0 = 0) :
    f.change m = f.changeInside m := by
  rw [h.shape, Form.change, Form.changeInside, hb, hc]

theorem Rooted.bare_eq {f : Form} (h : f.Rooted) : f.bare = f.changeInside .bare :=
  h.change_eq rfl rfl

theorem Rooted.bare {f : Form} (h : f.Rooted) : f.bare.Rooted := by
  rw [h.bare_eq]
  exact h.changeInside

mutual

theorem firstOpen_change : ∀ f : Form, (f.change m).firstOpen? = f.firstOpen?.map (change m)
  | atom _ _ _ => rfl
  | list _ _ _ none => rfl
  | list _ _ fs (some _) => firstOpenAmong_changeAll fs

theorem firstOpenAmong_changeAll : ∀ fs : List Form,
    firstOpenAmong? (changeAll m fs) = (firstOpenAmong? fs).map (change m)
  | [] => rfl
  | f :: fs => by
    rw [changeAll, firstOpenAmong?, firstOpenAmong?, firstOpen_change f,
      firstOpenAmong_changeAll fs]
    cases f.firstOpen? <;> rfl

end

def openColumn? (f : Form) : Option Nat := (firstOpenAmong? f.children).map column

theorem openColumn_changeInside (m : Change) (f : Form) :
    (f.changeInside m).openColumn? = f.openColumn?.map m.column := by
  cases f with
  | atom _ _ _ => rfl
  | list space i fs closing =>
    show (firstOpenAmong? (changeAll m fs)).map column = ((firstOpenAmong? fs).map column).map _
    rw [firstOpenAmong_changeAll, Option.map_map, Option.map_map]
    exact congrArg (fun g => (firstOpenAmong? fs).map g) (funext fun f => column_change m f)

/-- The bounds that a list sets for a form in it compare columns only. -/
theorem bounds_change (hm : StrictMono m.column) (f : Form) (fs : List Form)
    (closing : Option Nat) :
    ((∀ g, (fs.map (change m)).head? = some g → g.column ≤ (f.change m).column) ∧
        ∀ k, closing.map m.column = some k → (f.change m).column ≤ k) ↔
      (∀ g, fs.head? = some g → g.column ≤ f.column) ∧ ∀ k, closing = some k → f.column ≤ k := by
  refine and_congr ?_ ?_
  · cases fs with
    | nil => simp
    | cons g gs => simp [hm.le_iff_le]
  · cases closing with
    | none => simp
    | some k => simp [hm.le_iff_le]

section Violations

variable {s : Set Nat} (hm : StrictMonoOn m.column s)

include hm

theorem boundViolation_change {first column : Nat} {closing : Option Nat} (hf : first ∈ s)
    (hc : column ∈ s) (hk : ∀ k, closing = some k → k ∈ s) :
    boundViolation? (m.column first) (closing.map m.column) (m.column column) =
      (boundViolation? first closing column).map (Violation.change m) := by
  unfold boundViolation?
  rw [if_congr (hm.lt_iff_lt hc hf) rfl rfl]
  by_cases hlt : column < first
  · simp [hlt, Violation.change]
  · rw [if_neg hlt, if_neg hlt]
    cases closing with
    | none => rfl
    | some k =>
      have hkc : m.column k < m.column column ↔ k < column := hm.lt_iff_lt (hk k rfl) hc
      by_cases hlt : k < column
      · simp [hkc, hlt, Violation.change]
      · simp [hkc, hlt]

mutual

/-- The first violation is the same one, changed, if the columns that are
compared keep their order. -/
theorem violation_change : ∀ (f : Form) {parent : Nat}, parent ∈ s → f.AllColumns (· ∈ s) →
    (f.change m).violation? (m.column parent) =
      (f.violation? parent).map (Violation.change m)
  | atom space column label, parent, hp, hf => by
    have hle : m.column column ≤ m.column parent ↔ column ≤ parent :=
      hm.le_iff_le (hf _ .self).1 hp
    by_cases h : column ≤ parent <;> simp [change, violation?, hle, h, Violation.change]
  | list _ _ [] _, _, _, _ => rfl
  | list space column (f :: fs) closing, parent, _, hf => by
    obtain ⟨hcolumn, hclosing⟩ := hf _ .self
    have hfirst : f.column ∈ s := (hf f (.child .self List.mem_cons_self)).1
    have hchildren := childViolation_change (f :: fs) hcolumn hfirst hclosing fun g hg =>
      hf.child hg
    rw [change, changeAll, violation?, column_change]
    exact hchildren

theorem childViolation_change : ∀ (fs : List Form) {parent first : Nat} {closing : Option Nat},
    parent ∈ s → first ∈ s → (∀ k, closing = some k → k ∈ s) →
    (∀ f ∈ fs, f.AllColumns (· ∈ s)) →
    childViolation? (m.column parent) (m.column first) (closing.map m.column) (changeAll m fs) =
      (childViolation? parent first closing fs).map (Violation.change m)
  | [], _, _, _, _, _, _, _ => rfl
  | f :: fs, parent, first, closing, hp, hfirst, hk, hfs => by
    have hf := hfs f List.mem_cons_self
    rw [changeAll, childViolation?, childViolation?, violation_change f hp hf, column_change,
      boundViolation_change hm hfirst (hf f .self).1 hk,
      childViolation_change fs hp hfirst hk fun g hg => hfs g (List.mem_cons_of_mem _ hg)]
    cases f.violation? parent <;> cases boundViolation? first closing f.column <;> rfl

end

end Violations

theorem isIndentedUnder_change (hm : StrictMono m.column) (f : Form) (parent : Nat) :
    (f.change m).isIndentedUnder (m.column parent) = f.isIndentedUnder parent := by
  rw [isIndentedUnder, violation_change (hm.strictMonoOn Set.univ) f (Set.mem_univ _)
    fun _ _ => ⟨Set.mem_univ _, fun _ _ => Set.mem_univ _⟩, Option.isNone_map]
  rfl

/-- **The verdict depends only on the order of the columns.** A strictly
monotone function applied to all columns in a form, and to the one it is
checked under, changes no verdict; so a form may be moved to the right as a
whole. The function only has to keep the order of the columns that are there,
and then the violation that is reported is the same one, at the new
columns. -/
theorem verdict_by_order (f : Form) (parent : Nat) :
    (∀ φ : Nat → Nat, StrictMono φ →
        (f.change { column := φ }).isIndentedUnder (φ parent) = f.isIndentedUnder parent) ∧
      (∀ k, (f.change (.shift k)).isIndentedUnder (parent + k) = f.isIndentedUnder parent) ∧
      ∀ (φ : Nat → Nat) (s : Set Nat), StrictMonoOn φ s → parent ∈ s → f.AllColumns (· ∈ s) →
        (f.change { column := φ }).violation? (φ parent) =
          (f.violation? parent).map (Violation.change { column := φ }) := by
  refine ⟨fun φ hφ => ?_, fun k => ?_, fun φ s hφ hp hf => ?_⟩
  · exact isIndentedUnder_change (m := { column := φ }) hφ f parent
  · exact isIndentedUnder_change (Change.strictMono_shift k) f parent
  · exact violation_change (m := { column := φ }) hφ f hp hf

/-- An atom left of the first one of its list: with all columns ten times as
large, moved by a tab stop, and with a column at which nothing stands put
left of the others. -/
theorem verdict_by_order_dedent :
    let f := list [] 2 [atom [] 7 ['a'], atom [] 3 ['b']] none
    let outOfOrder := fun i => if i = 5 then 0 else i
    StrictMono (fun i => 10 * i) ∧
      (f.change { column := fun i => 10 * i }).isIndentedUnder (10 * 0) = false ∧
      (f.change (.shift 8)).isIndentedUnder (0 + 8) = false ∧
      StrictMonoOn outOfOrder {i | i ≠ 5} ∧ f.AllColumns (· ≠ 5) ∧
      (f.change { column := outOfOrder }).violation? (outOfOrder 0) =
        some (.leftOfFirst 3 7) := by
  intro f outOfOrder
  have hmono : StrictMono fun i => 10 * i := fun i j h => Nat.mul_lt_mul_of_pos_left h (by decide)
  have hon : StrictMonoOn outOfOrder {i | i ≠ 5} := by
    intro i hi j hj hij
    show (if i = 5 then 0 else i) < if j = 5 then 0 else j
    rwa [if_neg hi, if_neg hj]
  have hcolumns : f.AllColumns (· ≠ 5) := by simp [f]
  obtain ⟨hmap, hshift, hviolation⟩ := verdict_by_order f 0
  exact ⟨hmono, (hmap _ hmono).trans (by decide), (hshift 8).trans (by decide), hon, hcolumns,
    (hviolation outOfOrder _ hon (show 0 ≠ 5 by decide) hcolumns).trans (by decide)⟩

theorem isIndentedUnder_bare (f : Form) (parent : Nat) :
    f.bare.isIndentedUnder parent = f.isIndentedUnder parent :=
  isIndentedUnder_change (m := .bare) strictMono_id f parent

theorem isIndented_bare (f : Form) : f.bare.isIndented = f.isIndented := f.isIndentedUnder_bare 0

end Form

open Form Nesting

/-! ### Tokens without blanks -/

def unspaced (ts : List Token) : List Token := ts.filter (·.kind ≠ .space)

theorem unspaced_append (ts us : List Token) : unspaced (ts ++ us) = unspaced ts ++ unspaced us :=
  List.filter_append ts us

theorem pieces_unspaced (ts : List Token) :
    (unspaced ts).map Token.piece = (ts.map Token.piece).filter Piece.isMark := by
  rw [List.filter_map]
  exact congrArg (List.map Token.piece) (List.filter_congr fun t _ => (Token.isMark_piece t).symm)

theorem isMark_of_mem_unspaced {ts us : List Token} (h : us <+: unspaced ts) :
    ∀ p ∈ us.map Token.piece, p.isMark = true := by
  intro p hp
  obtain ⟨t, ht, rfl⟩ := List.mem_map.1 hp
  rw [Token.isMark_piece]
  exact (List.mem_filter.1 (h.subset ht)).2

/-- Which tokens a build uses does not depend on the blanks among them. -/
theorem used_unspaced : ∀ (ts : List Token) (d : Nat),
    used d (unspaced ts) = unspaced (used d ts)
  | [], _ => rfl
  | t :: ts, d => by
    by_cases hk : t.kind = .space
    · have hstop : ¬ Stops (d, t) := by simp [Stops, hk]
      have hd : depthAfter d t = d := depthAfter_other (by simp [hk]) (by simp [hk]) d
      rw [used_cons hstop, hd, unspaced, List.filter_cons_of_neg (by simp [hk]), unspaced,
        List.filter_cons_of_neg (by simp [hk])]
      exact used_unspaced ts d
    · have hcons : ∀ us, unspaced (t :: us) = t :: unspaced us := fun us =>
        List.filter_cons_of_pos (by simp [hk])
      rw [hcons, used, used]
      split
      · split
        · rw [hcons]; rfl
        · rfl
      · rw [hcons, used_unspaced ts]

theorem rootPieces_build_unspaced (ts : List Token) :
    (build (unspaced ts)).rootPieces = (used 0 (unspaced ts)).map Token.piece := by
  rw [Builder.rootPieces_eq_ahead, Builder.ahead_init,
    Piece.tidy_of_forall_isMark (isMark_of_mem_unspaced (used_isPrefix _ 0))]

/-- Blanks matter to a build only as the blanks of the forms. -/
theorem build_unspaced (ts : List Token) : build (unspaced ts) = (build ts).bare := by
  refine eq_of_rootPieces (rooted_build _) (rooted_build ts).bare ?_
  rw [rootPieces_build_unspaced, (rooted_build ts).bare_eq, rootPieces_changeInside rfl,
    Piece.changeAll_bare, Builder.rootPieces_eq_ahead, Builder.ahead_init, Piece.filter_tidy,
    used_unspaced, pieces_unspaced]

/-- What is wrong with a token sequence: a literal left open, a token that
stops the count, or the first open list of the root. -/
theorem fault_eq (ts : List Token) :
    fault? ts = ((ts.find? (·.kind = .unterminated)).map fun t => .unterminatedLiteral t.column).or
      (((stop? ts).map stopError).or
        ((build ts).openColumn?.map .unclosedList)) := by
  cases hu : ts.find? (·.kind = .unterminated) with
  | some t => rw [fault?, hu]; rfl
  | none =>
    rw [fault?, hu]
    show (Built.ofTokens ts).fault? = _
    cases hs : stop? ts with
    | some t =>
      rcases fault_of_stop hs with ⟨hk, hf⟩ | ⟨hk, hf⟩ <;> simp [hf, stopError, hk]
    | none =>
      rcases ofTokens_cases ts with ⟨-, b, -, hb⟩ | ⟨t, ht, -⟩
      · rw [Built.fault?, openColumn?, Option.map_map, build, hb]
        rfl
      · rw [hs] at ht
        cases ht

theorem fault_unspaced (ts : List Token) : fault? (unspaced ts) = fault? ts := by
  have hfind : (unspaced ts).find? (·.kind = .unterminated) =
      ts.find? (·.kind = .unterminated) := by
    rw [unspaced, List.find?_filter]
    refine congrArg (ts.find? ·) (funext fun t => ?_)
    cases t.kind <;> rfl
  have hparens : parens (unspaced ts) = parens ts := by
    rw [parens, unspaced, List.filter_filter]
    refine List.filter_congr fun t _ => ?_
    cases hk : t.kind <;> simp [isParen, hk]
  have hstop : stop? (unspaced ts) = stop? ts := by rw [← stop_parens, hparens, stop_parens]
  have hopen : (build (unspaced ts)).openColumn? = (build ts).openColumn? := by
    rw [build_unspaced, (rooted_build ts).bare_eq, openColumn_changeInside]
    exact Option.map_id_apply
  rw [fault_eq, fault_eq ts, hfind, hstop, hopen]

/-! ### Tokens with changed columns -/

def Token.change (m : Change) (t : Token) : Token :=
  { t with
    text := if t.kind = .space then m.blanks t.text else m.label t.text
    column := m.column t.column }

def StructureError.change (m : Change) : StructureError → StructureError
  | unterminatedLiteral column => unterminatedLiteral (m.column column)
  | unclosedList column => unclosedList (m.column column)
  | strayClose column => strayClose (m.column column)
  | tooDeep column => tooDeep (m.column column)

@[simp] theorem Token.kind_change (m : Change) (t : Token) : (t.change m).kind = t.kind := rfl

theorem Token.piece_change (m : Change) (t : Token) : (t.change m).piece = t.piece.change m := by
  unfold Token.piece Token.pieceAt
  rw [Token.kind_change]
  cases hk : t.kind <;> simp [Token.change, Piece.change, hk]

theorem met_change (m : Change) : ∀ (ts : List Token) (d : Nat),
    met d (ts.map (Token.change m)) = (met d ts).map fun p => (p.1, p.2.change m)
  | [], _ => rfl
  | t :: ts, d => by
    rw [List.map_cons, met, met, List.map_cons, ← met_change m ts]
    rfl

theorem used_change (m : Change) : ∀ (ts : List Token) (d : Nat),
    used d (ts.map (Token.change m)) = (used d ts).map (Token.change m)
  | [], _ => rfl
  | t :: ts, d => by
    have hstop : Stops (d, t.change m) ↔ Stops (d, t) := Iff.rfl
    have hdepth : depthAfter d (t.change m) = depthAfter d t := rfl
    rw [List.map_cons, used, used, hdepth, used_change m ts]
    by_cases hs : Stops (d, t)
    · rw [if_pos (hstop.2 hs), if_pos hs, Token.kind_change]
      split <;> rfl
    · rw [if_neg (mt hstop.1 hs), if_neg hs, List.map_cons]

theorem stop_change (m : Change) (ts : List Token) :
    stop? (ts.map (Token.change m)) = (stop? ts).map (Token.change m) := by
  rw [stop?, stop?, met_change, List.find?_map, Option.map_map, Option.map_map]
  rfl

theorem Token.map_piece_change (m : Change) (ts : List Token) :
    (ts.map (Token.change m)).map Token.piece = (ts.map Token.piece).map (Piece.change m) := by
  rw [List.map_map, List.map_map]
  exact List.map_congr_left fun t _ => Token.piece_change m t

theorem build_change (hm : ∀ a b, m.blanks (a ++ b) = m.blanks a ++ m.blanks b)
    (ts : List Token) : build (ts.map (Token.change m)) = (build ts).changeInside m := by
  refine eq_of_rootPieces (rooted_build _) (rooted_build ts).changeInside ?_
  rw [rootPieces_changeInside (Change.blanks_nil hm), Builder.rootPieces_eq_ahead,
    Builder.ahead_init, used_change, Token.map_piece_change, Piece.tidy_change hm,
    Builder.rootPieces_eq_ahead, Builder.ahead_init]

theorem fault_change (hm : ∀ a b, m.blanks (a ++ b) = m.blanks a ++ m.blanks b)
    (ts : List Token) :
    fault? (ts.map (Token.change m)) = (fault? ts).map (StructureError.change m) := by
  have hstop : ∀ t, stopError (t.change m) = (stopError t).change m := by
    intro t
    unfold stopError
    rw [Token.kind_change]
    split <;> rfl
  have hopen : (build (ts.map (Token.change m))).openColumn? =
      (build ts).openColumn?.map m.column := by
    rw [build_change hm, openColumn_changeInside]
  have hfind : (ts.map (Token.change m)).find? (·.kind = .unterminated) =
      (ts.find? (·.kind = .unterminated)).map (Token.change m) := List.find?_map
  rw [fault_eq, fault_eq ts, hfind, stop_change, hopen, Option.map_or, Option.map_or,
    Option.map_map, Option.map_map, Option.map_map, Option.map_map, Option.map_map, Option.map_map,
    show stopError ∘ Token.change m = StructureError.change m ∘ stopError from funext hstop]
  rfl

/-! ### Texts with the same tokens but for blanks and columns -/

section Texts

variable {text text' : List Char}

/-- Two texts with the same tokens but for blanks have the same forms but for
blanks, the same verdict and the same fault. -/
theorem bare_of_unspaced_eq (h : unspaced (tokenize text') = unspaced (tokenize text)) :
    (build (tokenize text')).bare = (build (tokenize text)).bare ∧
      Verdict.lenient text' = Verdict.lenient text ∧
      (parse text').map Form.bare = (parse text).map Form.bare := by
  have hbuild : (build (tokenize text')).bare = (build (tokenize text)).bare := by
    rw [← build_unspaced, h, build_unspaced]
  have hfault : fault? (tokenize text') = fault? (tokenize text) := by
    rw [← fault_unspaced, h, fault_unspaced]
  refine ⟨hbuild, ?_, ?_⟩
  · rw [Verdict.lenient, ← isIndented_bare, hbuild, isIndented_bare, Verdict.lenient]
  · rw [parse, parse, hfault]
    cases fault? (tokenize text) with
    | some e => rfl
    | none => exact congrArg Except.ok hbuild

/-- If the tokens but for blanks are changed, so are the forms but for blanks
and the fault. -/
theorem bare_of_unspaced_change (hm : ∀ a b, m.blanks (a ++ b) = m.blanks a ++ m.blanks b)
    (h : unspaced (tokenize text') = (unspaced (tokenize text)).map (Token.change m)) :
    (build (tokenize text')).bare = (build (tokenize text)).bare.changeInside m ∧
      fault? (tokenize text') = (fault? (tokenize text)).map (StructureError.change m) := by
  refine ⟨?_, ?_⟩
  · rw [← build_unspaced, h, build_change hm, build_unspaced]
  · rw [← fault_unspaced, h, fault_change hm, fault_unspaced]

end Texts

end ParenLint
