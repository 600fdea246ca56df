/-
# Which tokens a root holds

A build uses the tokens up to the one that ends it: a `)` at depth 0 is still
used, since its column becomes the root's closing, a `(` at depth `maxDepth`
is not (`Nesting.used`). Written out in source order, the root is what the
used tokens are, read one by one, after two things are done to the blanks
(`Piece.tidy`): blanks side by side are put together, and those that stand
before a `)` or at the end are left out, since there is no form for them to
stand before. No other token is lost, moved or held twice.

The proof goes through the tokens with the builder's waiting blanks in front
of those not read yet (`Builder.ahead`): a token that the build goes on after
moves its piece from there to the builder (`Builder.Step.ahead`), and in the
end the builder has them all (`Builder.rootPieces_run`).

Key definitions: `Nesting.used`, `Piece.joined`, `Piece.trimmed`,
`Piece.tidy`, `Builder.ahead`.
Key theorems: `Piece.filter_tidy`, `Builder.rootPieces_run`,
`build_keeps_tokens`.
-/
import ParenLint.Proofs.Nesting
import ParenLint.Proofs.SourceOrder

namespace ParenLint

/-! ### The used tokens -/

namespace Nesting

/-- Of the tokens `ts`, met from the depth `start` on, those that a build
uses: all before the first that cannot stand where it is met, and that one if
it is a `)`. -/
def used (start : Nat) : List Token → List Token
  | [] => []
  | t :: ts =>
    if Stops (start, t) then if t.kind = .rightParen then [t] else []
    else t :: used (depthAfter start t) ts

theorem used_cons {start : Nat} {t : Token} (h : ¬ Stops (start, t)) (ts : List Token) :
    used start (t :: ts) = t :: used (depthAfter start t) ts := by
  rw [used, if_neg h]

theorem used_isPrefix : ∀ (ts : List Token) (start : Nat), used start ts <+: ts
  | [], _ => List.nil_prefix
  | t :: ts, start => by
    unfold used
    split
    · split
      · exact List.prefix_append [t] ts
      · exact List.nil_prefix
    · exact List.prefix_cons_iff.2 (Or.inr ⟨_, rfl, used_isPrefix ts _⟩)

end Nesting

open Nesting

/-! ### Blanks -/

namespace Piece

def consJoined : Piece → List Piece → List Piece
  | space a, space b :: ps => space (a ++ b) :: ps
  | p, ps => p :: ps

/-- Pieces with blanks side by side put together. -/
def joined (ps : List Piece) : List Piece := ps.foldr consJoined []

def beginsForm : List Piece → Bool
  | [] => false
  | closing _ :: _ => false
  | _ => true

/-- Pieces without the blanks that stand right before a closing or at the
end. -/
def trimmed : List Piece → List Piece
  | [] => []
  | space text :: ps => if beginsForm ps then space text :: trimmed ps else trimmed ps
  | p :: ps => p :: trimmed ps

/-- Pieces with their blanks as a root holds them: put together where they
are side by side, none that are empty, and none before a closing or at the
end. -/
def tidy (ps : List Piece) : List Piece := trimmed ((joined ps).filter (· ≠ space []))

theorem joined_cons (p : Piece) (ps : List Piece) : joined (p :: ps) = consJoined p (joined ps) :=
  rfl

theorem consJoined_of_isMark {p : Piece} (h : p.isMark = true) (ps : List Piece) :
    consJoined p ps = p :: ps := by
  cases p <;> first | rfl | simp [isMark] at h

theorem consJoined_space (a b : List Char) (ps : List Piece) :
    consJoined (space a) (consJoined (space b) ps) = consJoined (space (a ++ b)) ps := by
  cases ps with
  | nil => rfl
  | cons p ps => cases p <;> simp [consJoined]

theorem tidy_space_space (a b : List Char) (ps : List Piece) :
    tidy (space a :: space b :: ps) = tidy (space (a ++ b) :: ps) := by
  rw [tidy, joined_cons, joined_cons, consJoined_space, tidy, joined_cons]

theorem tidy_space_nil (ps : List Piece) : tidy (space [] :: ps) = tidy ps := by
  rw [tidy, joined_cons, tidy]
  cases joined ps with
  | nil => rfl
  | cons p ps => cases p <;> simp [consJoined]

theorem trimmed_of_isMark {p : Piece} (h : p.isMark = true) (ps : List Piece) :
    trimmed (p :: ps) = p :: trimmed ps := by
  cases p <;> first | rfl | cases h

theorem tidy_of_isMark {p : Piece} (h : p.isMark = true) (ps : List Piece) :
    tidy (p :: ps) = p :: tidy ps := by
  have hp : p ≠ space [] := by rintro rfl; cases h
  rw [tidy, joined_cons, consJoined_of_isMark h, List.filter_cons_of_pos (by simpa using hp),
    trimmed_of_isMark h, tidy]

theorem tidy_blanks_end (text : List Char) : tidy [space text] = [] := by
  by_cases h : text = [] <;> simp [tidy, joined, consJoined, trimmed, beginsForm, h]

/-- Blanks before anything else that is not blanks: whether they are kept is
told by what comes next. -/
theorem tidy_space_mark {p : Piece} (h : p.isMark = true) (text : List Char) (ps : List Piece) :
    tidy (space text :: p :: ps) =
      (if beginsForm [p] then blanks text else []) ++ p :: tidy ps := by
  have hj : joined (space text :: p :: ps) = space text :: p :: joined ps := by
    rw [joined_cons, joined_cons, consJoined_of_isMark h]
    cases p <;> first | rfl | cases h
  have hp : p ≠ space [] := by rintro rfl; cases h
  by_cases ht : text = []
  · rw [ht, tidy_space_nil, tidy_of_isMark h]
    simp [blanks]
  · rw [tidy, hj, List.filter_cons_of_pos (by simpa using ht),
      List.filter_cons_of_pos (by simpa using hp)]
    cases p <;> first | (simp [trimmed, beginsForm, blanks, ht, tidy]; done) | cases h

/-- Blanks before something that they can stand before are kept, unless they
are empty. -/
theorem tidy_blanks_mark {p : Piece} (h : p.isMark = true) (hb : beginsForm [p] = true)
    (text : List Char) (ps : List Piece) :
    tidy (blanks text ++ p :: ps) = blanks text ++ p :: tidy ps := by
  by_cases ht : text = []
  · simp [blanks, ht, tidy_of_isMark h]
  · have hspace := tidy_space_mark h text ps
    rw [if_pos hb] at hspace
    rw [← hspace]
    simp [blanks, ht]

/-! Tidying touches blanks only. -/

theorem filter_joined (ps : List Piece) : (joined ps).filter isMark = ps.filter isMark := by
  induction ps with
  | nil => rfl
  | cons p ps ih =>
    have hcons : ∀ qs, (consJoined p qs).filter isMark = (p :: qs).filter isMark := by
      intro qs
      unfold consJoined
      split <;> simp [isMark]
    rw [joined_cons, hcons, List.filter_cons, List.filter_cons, ih]

theorem filter_trimmed (ps : List Piece) : (trimmed ps).filter isMark = ps.filter isMark := by
  induction ps with
  | nil => rfl
  | cons p ps ih =>
    by_cases h : p.isMark = true
    · rw [trimmed_of_isMark h, List.filter_cons_of_pos h, List.filter_cons_of_pos h, ih]
    · obtain ⟨text, rfl⟩ := eq_space_of_not_isMark h
      rw [List.filter_cons_of_neg h, trimmed]
      split
      · rw [List.filter_cons_of_neg h, ih]
      · exact ih

theorem filter_tidy (ps : List Piece) : (tidy ps).filter isMark = ps.filter isMark := by
  have hempty : ∀ p : Piece, (p.isMark && decide (p ≠ space [])) = p.isMark := by
    intro p
    cases p <;> simp [isMark]
  rw [tidy, filter_trimmed, List.filter_filter, List.filter_congr fun p _ => hempty p,
    filter_joined]

end Piece

open Piece

/-! ### One token -/

namespace Builder

/-- What is to come once the tokens `ts` are read: the used ones among them,
with the waiting blanks before them. -/
def ahead (b : Builder) (ts : List Token) : List Piece :=
  Piece.tidy (.space b.space.reverse :: (used b.depth ts).map Token.piece)

theorem ahead_nil (b : Builder) : b.ahead [] = [] := tidy_blanks_end b.space.reverse

/-- A token that the build goes on after: its piece goes from the tokens not
read yet, in front of which the waiting blanks stand, to the builder. -/
theorem Step.tidy {b b' : Builder} {t : Token} (h : Step b t b') (ps : List Piece) :
    tidy (.space b.space.reverse :: t.piece :: ps) =
      b.added t ++ tidy (.space b'.space.reverse :: ps) := by
  cases h with
  | space hk =>
    rw [Token.piece_space hk, tidy_space_space]
    simp [added, hk]
  | opens hk _ =>
    have hp := Token.piece_leftParen hk
    rw [List.reverse_nil, tidy_space_nil, hp, tidy_space_mark rfl]
    simp [added, hk, hp, beginsForm]
  | closes hk _ =>
    have hp := Token.piece_rightParen hk
    rw [List.reverse_nil, tidy_space_nil, hp, tidy_space_mark rfl]
    simp [added, hk, hp, beginsForm]
  | atom ha =>
    have hp := Token.piece_of_isAtom ha
    rw [List.reverse_nil, tidy_space_nil, added_of_isAtom ha, hp, tidy_space_mark rfl]
    simp [beginsForm]

theorem Step.ahead {b b' : Builder} {t : Token} (h : Step b t b') (ts : List Token) :
    b.ahead (t :: ts) = b.added t ++ b'.ahead ts := by
  obtain ⟨hd, hn⟩ := h.depth
  rw [Builder.ahead, used_cons hn, List.map_cons, h.tidy, Builder.ahead, hd]

/-- A token that the build ends at: the root is the builder and what the token
adds as a used one. -/
theorem Stop.rootPieces {b : Builder} {t : Token} {root : Form} {ending : Ending}
    (h : Stop b t root ending) (ts : List Token) :
    root.rootPieces = b.pieces ++ b.ahead (t :: ts) := by
  have hstop : Stops (b.depth, t) := h.stops
  rw [ahead, used, if_pos hstop]
  cases h with
  | strayClose hk ho =>
    rw [if_pos hk, List.map_singleton, Token.piece_rightParen hk, tidy_space_mark rfl,
      rootPieces_toForm ho]
    rfl
  | tooDeep hk _ =>
    rw [if_neg (by simp [hk]), List.map_nil, tidy_blanks_end, List.append_nil, rootPieces_finish]

/-! ### Many tokens -/

/-- A run adds to the builder what is ahead of it. -/
theorem rootPieces_run : ∀ (ts : List Token) (b : Builder),
    (b.run ts).root.rootPieces = b.pieces ++ b.ahead ts
  | [], b => by
    show b.finish.rootPieces = _
    rw [rootPieces_finish, ahead_nil, List.append_nil]
  | t :: ts, b => by
    rcases feed_cases b t with ⟨b', hf, hs⟩ | ⟨root, ending, hf, hs⟩
    · calc (b.run (t :: ts)).root.rootPieces
          = (b'.run ts).root.rootPieces := by rw [run, hf]
        _ = b'.pieces ++ b'.ahead ts := rootPieces_run ts b'
        _ = b.pieces ++ (b.added t ++ b'.ahead ts) := by rw [hs.pieces, List.append_assoc]
        _ = b.pieces ++ b.ahead (t :: ts) := by rw [hs.ahead]
    · have hroot : (b.run (t :: ts)).root = root := by rw [run, hf]
      rw [hroot, hs.rootPieces ts]

theorem ahead_init (ts : List Token) :
    init.ahead ts = Piece.tidy ((used 0 ts).map Token.piece) :=
  tidy_space_nil _

theorem rootPieces_eq_ahead (ts : List Token) : (build ts).rootPieces = init.ahead ts :=
  rootPieces_run ts .init

end Builder

/-- Without the blanks, a root is the first tokens, up to where the build
ends. -/
theorem rootPieces_build (ts : List Token) :
    ∃ used, used <+: ts ∧
      (build ts).rootPieces.filter Piece.isMark = (used.map Token.piece).filter Piece.isMark := by
  refine ⟨used 0 ts, used_isPrefix ts 0, ?_⟩
  rw [Builder.rootPieces_eq_ahead, Builder.ahead_init, filter_tidy]

/-- **A root holds the tokens it uses, all of them, once and in order.** In
source order it is the used tokens, blanks side by side put together, and
none kept that are empty or stand before a `)` or at the end. -/
theorem build_keeps_tokens (ts : List Token) :
    (build ts).rootPieces = Piece.tidy ((used 0 ts).map Token.piece) := by
  calc (build ts).rootPieces
      = Builder.init.pieces ++ Builder.init.ahead ts := Builder.rootPieces_run ts .init
    _ = Builder.init.ahead ts := List.nil_append _
    _ = Piece.tidy ((used 0 ts).map Token.piece) := Builder.ahead_init ts

/-- Blanks in two tokens before an atom, blanks before a `)`, and a `)` that
closes the root: the tokens after it are not used. -/
example : (build [⟨.space, [' '], 0⟩, ⟨.space, ['\n'], 7⟩, ⟨.atom, ['a'], 3⟩, ⟨.space, [' '], 4⟩,
      ⟨.rightParen, [')'], 5⟩, ⟨.atom, ['b'], 6⟩]).rootPieces =
    [.space [' ', '\n'], .atom ['a'] 3, .closing 5] := by decide

end ParenLint
