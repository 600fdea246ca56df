/-
# Forms in source order

A form can be written out in the order its source has: the blanks before it,
then an atom, or the opening of a list, the forms in it and its closing, each
with its column (`Form.pieces`). The root has no `(` of its own, so it is its
forms and its closing (`Form.rootPieces`).

A builder can be written out the same way while its lists are still open
(`Builder.pieces`). Ending the open lists changes nothing in it
(`rootPieces_finish`), and each token that the build goes on after adds its
own piece at the end, with the blanks that waited for it if it is an atom or
a `(` (`Step.pieces`).

Key definitions: `Piece`, `Form.pieces`, `Form.rootPieces`, `Builder.pieces`,
`Token.piece`.
Key theorems: `Builder.rootPieces_finish`, `Builder.Step.pieces`.
-/
import ParenLint.Proofs.Building

namespace ParenLint

/-- A piece of a form in source order. -/
inductive Piece
  | space (text : List Char)
  | atom (label : List Char) (column : Nat)
  | opening (column : Nat)
  | closing (column : Nat)
  deriving DecidableEq

namespace Piece

def isMark : Piece → Bool
  | space _ => false
  | atom _ _ => true
  | opening _ => true
  | closing _ => true

theorem eq_space_of_not_isMark {p : Piece} (h : ¬ p.isMark = true) : ∃ text, p = space text := by
  cases p with
  | space text => exact ⟨text, rfl⟩
  | _ => exact absurd rfl h

/-- The blanks before a form, if there are any. -/
def blanks (text : List Char) : List Piece := if text = [] then [] else [space text]

def closings : Option Nat → List Piece
  | none => []
  | some column => [closing column]

end Piece

def Token.pieceAt (t : Token) (column : Nat) : Piece :=
  match t.kind with
  | .space => .space t.text
  | .leftParen => .opening column
  | .rightParen => .closing column
  | .literal | .unterminated | .atom => .atom t.text column

def Token.piece (t : Token) : Piece := t.pieceAt t.column

theorem Token.piece_space {t : Token} (h : t.kind = .space) : t.piece = .space t.text := by
  simp [piece, pieceAt, h]

theorem Token.piece_leftParen {t : Token} (h : t.kind = .leftParen) :
    t.piece = .opening t.column := by
  simp [piece, pieceAt, h]

theorem Token.piece_rightParen {t : Token} (h : t.kind = .rightParen) :
    t.piece = .closing t.column := by
  simp [piece, pieceAt, h]

theorem Token.piece_of_isAtom {t : Token} (h : t.IsAtom) : t.piece = .atom t.text t.column := by
  obtain ⟨hs, hl, hr⟩ := h
  unfold Token.piece Token.pieceAt
  split <;> first | contradiction | rfl

theorem Token.isMark_piece (t : Token) : t.piece.isMark = decide (t.kind ≠ .space) := by
  unfold Token.piece Token.pieceAt
  split <;> simp [Piece.isMark, *]

namespace Form

mutual

def pieces : Form → List Piece
  | atom space column label => Piece.blanks space ++ [.atom label column]
  | list space column children closing =>
    Piece.blanks space ++ .opening column :: (piecesAll children ++ Piece.closings closing)

def piecesAll : List Form → List Piece
  | [] => []
  | f :: fs => pieces f ++ piecesAll fs

end

theorem piecesAll_append : ∀ fs gs : List Form, piecesAll (fs ++ gs) = piecesAll fs ++ piecesAll gs
  | [], _ => rfl
  | f :: fs, gs => by simp [piecesAll, piecesAll_append fs gs]

theorem piecesAll_singleton (f : Form) : piecesAll [f] = pieces f := by simp [piecesAll]

def rootPieces (f : Form) : List Piece := piecesAll f.children ++ Piece.closings f.closing

end Form

open Form

/-! ### Builders -/

def OpenList.pieces (l : OpenList) : List Piece :=
  Piece.blanks l.space ++ .opening l.column :: piecesAll l.children.reverse

theorem OpenList.pieces_add (l : OpenList) (f : Form) :
    (l.add f).pieces = l.pieces ++ f.pieces := by
  simp [OpenList.pieces, OpenList.add, piecesAll_append, piecesAll_singleton]

theorem OpenList.pieces_toForm (l : OpenList) (closing : Option Nat) :
    (l.toForm closing).pieces = l.pieces ++ Piece.closings closing := by
  simp [OpenList.pieces, OpenList.toForm, Form.pieces]

namespace Builder

/-- Open lists in source order, the outermost of which is the root. -/
def stackPieces (inner : OpenList) : List OpenList → List Piece
  | [] => piecesAll inner.children.reverse
  | around :: outer => stackPieces around outer ++ inner.pieces

/-- A builder in source order, without the blanks that wait for the next
form. -/
def pieces (b : Builder) : List Piece := stackPieces b.inner b.outer

theorem stackPieces_add (l : OpenList) (f : Form) (outer : List OpenList) :
    stackPieces (l.add f) outer = stackPieces l outer ++ f.pieces := by
  cases outer with
  | nil => simp [stackPieces, OpenList.add, piecesAll_append, piecesAll_singleton]
  | cons around outer => rw [stackPieces, stackPieces, OpenList.pieces_add, List.append_assoc]

/-- Ending the open lists without a closing column adds nothing. -/
theorem rootPieces_unwind : ∀ (outer : List OpenList) (inner : OpenList),
    (unwind inner outer).rootPieces = stackPieces inner outer
  | [], inner => List.append_nil _
  | around :: outer, inner => by
    rw [unwind, rootPieces_unwind outer, stackPieces_add, OpenList.pieces_toForm, stackPieces,
      Piece.closings, List.append_nil]

theorem rootPieces_finish (b : Builder) : b.finish.rootPieces = b.pieces :=
  rootPieces_unwind b.outer b.inner

/-- A root that is closed with no list open in it is what the builder has and
its closing. -/
theorem rootPieces_toForm {b : Builder} (h : b.outer = []) (closing : Option Nat) :
    (b.inner.toForm closing).rootPieces = b.pieces ++ Piece.closings closing := by
  rw [Builder.pieces, h]
  rfl

/-- What a token adds to a builder: its piece, after the blanks that waited
for it unless it is a `)`; blanks wait. -/
def added (b : Builder) (t : Token) : List Piece :=
  match t.kind with
  | .space => []
  | .rightParen => [t.piece]
  | .leftParen | .literal | .unterminated | .atom => Piece.blanks b.space.reverse ++ [t.piece]

theorem added_of_isAtom {t : Token} (h : t.IsAtom) (b : Builder) :
    b.added t = Piece.blanks b.space.reverse ++ [t.piece] := by
  obtain ⟨hs, hl, hr⟩ := h
  unfold added
  split <;> first | contradiction | rfl

theorem Step.pieces {b b' : Builder} {t : Token} (h : Step b t b') :
    b'.pieces = b.pieces ++ b.added t := by
  cases h with
  | space hk => simp [Builder.pieces, added, hk]
  | opens hk _ =>
    simp [Builder.pieces, added, hk, stackPieces, OpenList.pieces, piecesAll, Token.piece,
      Token.pieceAt]
  | closes hk ho =>
    rw [Builder.pieces, stackPieces_add, OpenList.pieces_toForm, Builder.pieces, ho, stackPieces]
    simp [added, hk, Piece.closings, Token.piece, Token.pieceAt]
  | atom ha =>
    rw [Builder.pieces, stackPieces_add, added_of_isAtom ha, Token.piece_of_isAtom ha]
    rfl

end Builder
end ParenLint
