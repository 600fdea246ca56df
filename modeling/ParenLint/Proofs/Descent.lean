/-
# Building by recursive descent

The forms of a list are read one after the other, and one that is a list is
read the same way (`readOne`, `readList`). The open lists are then the calls
under way, and beside the tokens the reader keeps only how many lists it is
in and whether one was nested too deep. Once one was, no call reads any more:
each ends its list with the forms it has and without a closing column.

The builder has the open lists in its state instead, and unwinds them at the
end. To compare the two, what a call has read is handed to a builder that
goes on from there with the lists of the calls around it (`resume`), whatever
these are. If the call ran into the end of the tokens, or into a list too
deep, there is nothing to go on with, and it comes out the same whether the
list ends on its own and is put into the one around it, or is unwound with
all others (`Forms.resume_inside`).

Key definitions: `Descent`, `Descent.readOne`, `Descent.readList`,
`Descent.built`.
Key theorems: `Descent.leaves_readList`, `Descent.resume_readList`,
`Descent.built_eq`, `Descent.fault_built`.
-/
import ParenLint.Proofs.Building
import ParenLint.Structure
import Mathlib.Tactic.SplitIfs

namespace ParenLint

def OpenList.addAll (l : OpenList) (fs : List Form) : OpenList :=
  { l with children := fs.reverse ++ l.children }

theorem OpenList.addAll_cons (l : OpenList) (f : Form) (fs : List Form) :
    l.addAll (f :: fs) = (l.add f).addAll fs := by
  simp [addAll, add]

theorem OpenList.toForm_addAll (space : List Char) (column : Nat) (fs : List Form)
    (closing : Option Nat) :
    (OpenList.addAll ⟨space, column, []⟩ fs).toForm closing = .list space column fs closing := by
  simp [addAll, toForm]

/-- A reader between two forms. -/
structure Descent where
  tokens : List Token
  /-- How many lists it is in, the root apart. -/
  depth : Nat
  /-- The column of the `(` that was nested too deep, once there was one. -/
  tooDeep : Option Nat

namespace Descent

/-! ### The reader -/

/-- The reader behind a `(`, in the list it opens. -/
def enter (p : Descent) (rest : List Token) : Descent :=
  { p with tokens := rest, depth := p.depth + 1 }

def leave (p : Descent) : Descent := { p with depth := p.depth - 1 }

@[simp] theorem tokens_enter (p : Descent) (rest : List Token) : (p.enter rest).tokens = rest := rfl

/-- What reading one form from `p` on gives, and the reader after it. -/
inductive Read (p : Descent)
  | form (f : Form) (q : Descent) (shorter : q.tokens.length < p.tokens.length)
  | close (column : Nat) (q : Descent) (shorter : q.tokens.length < p.tokens.length)
  | endOfTokens (q : Descent) (le : q.tokens.length ≤ p.tokens.length)

/-- What reading the forms of a list from `p` on gives. -/
structure Forms (p : Descent) where
  children : List Form
  closing : Option Nat
  after : Descent
  le : after.tokens.length ≤ p.tokens.length

def Forms.toForm {p : Descent} (l : p.Forms) (space : List Char) (column : Nat) : Form :=
  .list space column l.children l.closing

/-- The blanks that tokens begin with, and the tokens behind them. -/
def skipBlanks : (ts : List Token) → List Char × { us : List Token // us.length ≤ ts.length }
  | [] => ([], ⟨[], Nat.le_refl _⟩)
  | t :: ts =>
    if t.kind = .space then
      (t.text ++ (skipBlanks ts).1, ⟨(skipBlanks ts).2, Nat.le_succ_of_le (skipBlanks ts).2.2⟩)
    else ([], ⟨t :: ts, Nat.le_refl _⟩)

mutual

/-- Reads one form, with the blanks before it. -/
def readOne (p : Descent) : p.Read :=
  match p.tooDeep with
  | some _ => .endOfTokens p (Nat.le_refl _)
  | none =>
    match skipBlanks p.tokens with
    | (_, ⟨[], _⟩) => .endOfTokens { p with tokens := [] } (Nat.zero_le _)
    | (space, ⟨t :: rest, hlt⟩) =>
      match t.kind with
      | .rightParen => .close t.column { p with tokens := rest } hlt
      | .leftParen =>
        if p.depth = maxDepth then
          .endOfTokens { p with tokens := rest, tooDeep := some t.column } (Nat.le_of_lt hlt)
        else
          let l := readList (p.enter rest)
          .form (l.toForm space t.column) l.after.leave (Nat.lt_of_le_of_lt l.le hlt)
      | _ => .form (.atom space t.column t.text) { p with tokens := rest } hlt
-- a list is read on as many tokens as its first form
termination_by (p.tokens.length, 0)

/-- Reads the forms of a list, and its `)` if there is one. -/
def readList (p : Descent) : p.Forms :=
  match readOne p with
  | .form f q hlt =>
    let l := readList q
    ⟨f :: l.children, l.closing, l.after, Nat.le_trans l.le (Nat.le_of_lt hlt)⟩
  | .close column q hlt => ⟨[], some column, q, Nat.le_of_lt hlt⟩
  | .endOfTokens q hle => ⟨[], none, q, hle⟩
termination_by (p.tokens.length, 1)

end

/-- What holds of every way to read one form holds of `readOne`. -/
theorem readOne_ind {p : Descent} {P : p.Read → Prop}
    (tooDeep : p.tooDeep ≠ none → P (.endOfTokens p (Nat.le_refl _)))
    (nil : p.tooDeep = none → (skipBlanks p.tokens).2.1 = [] →
      P (.endOfTokens { p with tokens := [] } (Nat.zero_le _)))
    (close : ∀ t rest hlt, p.tooDeep = none → (skipBlanks p.tokens).2.1 = t :: rest →
      t.kind = .rightParen → P (.close t.column { p with tokens := rest } hlt))
    (deeper : ∀ t rest hle, p.tooDeep = none → (skipBlanks p.tokens).2.1 = t :: rest →
      t.kind = .leftParen → p.depth = maxDepth →
      P (.endOfTokens { p with tokens := rest, tooDeep := some t.column } hle))
    (list : ∀ t rest hlt, p.tooDeep = none → (skipBlanks p.tokens).2.1 = t :: rest →
      t.kind = .leftParen → p.depth ≠ maxDepth → rest.length < p.tokens.length →
      P (.form ((readList (p.enter rest)).toForm (skipBlanks p.tokens).1 t.column)
        (readList (p.enter rest)).after.leave hlt))
    (atom : ∀ t rest hlt, p.tooDeep = none → (skipBlanks p.tokens).2.1 = t :: rest →
      t.kind ≠ .rightParen → t.kind ≠ .leftParen →
      P (.form (.atom (skipBlanks p.tokens).1 t.column t.text) { p with tokens := rest } hlt)) :
    P (readOne p) := by
  unfold readOne
  split
  · rename_i column h
    exact tooDeep (by simp [h])
  · rename_i hnone
    split
    · rename_i h
      exact nil hnone (by rw [h])
    · rename_i space t rest hlt h
      obtain rfl : (skipBlanks p.tokens).1 = space := by rw [h]
      have hrest : (skipBlanks p.tokens).2.1 = t :: rest := by rw [h]
      split
      · rename_i hk
        exact close t rest hlt hnone hrest hk
      · rename_i hk
        split_ifs with hd
        · exact deeper t rest _ hnone hrest hk hd
        · exact list t rest _ hnone hrest hk hd hlt
      · rename_i hr hl
        exact atom t rest hlt hnone hrest hr hl

/-! ### What is left -/

def Ended (p : Descent) : Prop := p.tooDeep ≠ none ∨ p.tokens = []

/-- The reader is as deep as before, and if it found no more forms, nothing
more is read. -/
def Read.Leaves {p : Descent} : p.Read → Prop
  | .form _ q _ => q.depth = p.depth
  | .close _ q _ => q.depth = p.depth ∧ q.tooDeep = none
  | .endOfTokens q _ => q.depth = p.depth ∧ q.Ended

mutual

theorem leaves_readOne (p : Descent) : (readOne p).Leaves := by
  apply readOne_ind
  case tooDeep => exact fun h => ⟨rfl, Or.inl h⟩
  case nil => exact fun _ _ => ⟨rfl, Or.inr rfl⟩
  case close => exact fun t rest hlt h _ _ => ⟨rfl, h⟩
  case deeper => exact fun t rest hle _ _ _ _ => ⟨rfl, Or.inl (Option.some_ne_none _)⟩
  case list =>
    intro t rest _ _ _ _ _ hlt
    have hdepth := (leaves_readList (p.enter rest)).1
    show (readList (p.enter rest)).after.depth - 1 = p.depth
    rw [hdepth]
    rfl
  case atom => exact fun t rest hlt _ _ _ _ => rfl
termination_by (p.tokens.length, 0)

theorem leaves_readList (p : Descent) :
    (readList p).after.depth = p.depth ∧
      ((readList p).closing ≠ none → (readList p).after.tooDeep = none) ∧
      ((readList p).closing = none → (readList p).after.Ended) := by
  have hone := leaves_readOne p
  rw [readList]
  cases hr : readOne p with
  | form f q hlt =>
    rw [hr] at hone
    obtain ⟨hdepth, hclosed, hended⟩ := leaves_readList q
    exact ⟨hdepth.trans hone, hclosed, hended⟩
  | close column q hlt =>
    rw [hr] at hone
    exact ⟨hone.1, fun _ => hone.2, fun h => by cases h⟩
  | endOfTokens q hle =>
    rw [hr] at hone
    exact ⟨hone.1, fun h => absurd rfl h, fun _ => hone.2⟩
termination_by (p.tokens.length, 1)

end

/-! ### The builder that goes on -/

def ending (p : Descent) : Ending :=
  match p.tooDeep with
  | none => .endOfTokens
  | some column => .tooDeep column

/-- What a build gives that goes on with `b` where the reader is. -/
def resume (p : Descent) (b : Builder) : Built :=
  match p.tooDeep with
  | none => b.run p.tokens
  | some column => ⟨b.finish, .tooDeep column, p.tokens⟩

/-- The same, a `)` at `column` closing the list `inner` first. -/
def resumeClosed (p : Descent) (inner : OpenList) (outer : List OpenList) (column : Nat) : Built :=
  match outer with
  | [] => ⟨inner.toForm (some column), .strayClose column, p.tokens⟩
  | around :: outer => p.resume ⟨around.add (inner.toForm (some column)), outer, []⟩

theorem resume_of_ended {p : Descent} (h : p.Ended) (b : Builder) :
    p.resume b = ⟨b.finish, p.ending, p.tokens⟩ := by
  unfold resume ending
  cases hdeep : p.tooDeep with
  | none =>
    have hnil : p.tokens = [] := h.resolve_left (absurd hdeep)
    rw [hnil]
    rfl
  | some column => rfl

/-- Blanks wait in the builder. -/
theorem run_skipBlanks : ∀ (ts : List Token) (b : Builder), b.run ts =
    Builder.run { b with space := (skipBlanks ts).1.reverse ++ b.space } (skipBlanks ts).2
  | [], _ => rfl
  | t :: ts, b => by
    rw [skipBlanks]
    split_ifs with hk
    · rw [Builder.run, Builder.feed_space hk]
      show Builder.run _ ts = _
      rw [run_skipBlanks ts]
      simp
    · rfl

theorem kind_ne_space : ∀ {ts : List Token} {t : Token} {rest : List Token},
    (skipBlanks ts).2.1 = t :: rest → t.kind ≠ .space
  | [], _, _, h => by cases h
  | u :: ts, t, rest, h => by
    rw [skipBlanks] at h
    split_ifs at h with hk
    · exact kind_ne_space h
    · cases h
      exact hk

/-- What a build gives that goes on after a form is read into `inner`. -/
def Read.resume {p : Descent} (inner : OpenList) (outer : List OpenList) : p.Read → Built
  | .form f q _ => q.resume ⟨inner.add f, outer, []⟩
  | .close column q _ => q.resumeClosed inner outer column
  | .endOfTokens q _ => q.resume ⟨inner, outer, []⟩

/-- What a build gives that goes on after the rest of `inner` is read. -/
def Forms.resume {p : Descent} (inner : OpenList) (outer : List OpenList) (l : p.Forms) : Built :=
  match l.closing with
  | none => l.after.resume ⟨inner.addAll l.children, outer, []⟩
  | some column => l.after.resumeClosed (inner.addAll l.children) outer column

/-- A list that is read as a list of its own is one more form in the list
around it. -/
theorem Forms.resume_inside {p : Descent} {l : p.Forms} (h : l.closing = none → l.after.Ended)
    (space : List Char) (column : Nat) (around : OpenList) (outer : List OpenList) :
    l.resume ⟨space, column, []⟩ (around :: outer) =
      l.after.resume ⟨around.add (l.toForm space column), outer, []⟩ := by
  unfold Forms.resume Forms.toForm
  cases hc : l.closing with
  | none =>
    have hended := h hc
    have hfinish : Builder.finish ⟨OpenList.addAll ⟨space, column, []⟩ l.children,
        around :: outer, []⟩ =
          Builder.finish ⟨around.add (.list space column l.children none), outer, []⟩ := by
      unfold Builder.finish
      rw [Builder.unwind, OpenList.toForm_addAll]
    rw [resume_of_ended hended, resume_of_ended hended, hfinish]
  | some k => simp only [resumeClosed, OpenList.toForm_addAll]

mutual

/-- Reading one form and going on with the builder is what the builder
does. -/
theorem resume_readOne (p : Descent) (inner : OpenList) (outer : List OpenList)
    (hd : p.depth = outer.length) :
    (readOne p).resume inner outer = p.resume ⟨inner, outer, []⟩ := by
  have hstart (hnone : p.tooDeep = none) : p.resume ⟨inner, outer, []⟩ =
      Builder.run ⟨inner, outer, (skipBlanks p.tokens).1.reverse⟩ (skipBlanks p.tokens).2 := by
    unfold resume
    rw [hnone]
    show Builder.run _ p.tokens = _
    rw [run_skipBlanks, List.append_nil]
  have hdepth : Builder.depth ⟨inner, outer, (skipBlanks p.tokens).1.reverse⟩ = p.depth := hd.symm
  apply readOne_ind (P := fun r => r.resume inner outer = p.resume ⟨inner, outer, []⟩)
  case tooDeep => exact fun _ => rfl
  case nil =>
    intro hnone hrest
    rw [hstart hnone, hrest, Read.resume, resume, hnone]
    rfl
  case close =>
    intro t rest hlt hnone hrest hk
    rw [hstart hnone, hrest, Builder.run]
    cases outer with
    | nil =>
      rw [(Builder.Stop.strayClose hk rfl).feed]
      rfl
    | cons around outer =>
      rw [(Builder.Step.closes hk rfl).feed, Read.resume, resumeClosed, resume, hnone]
  case deeper =>
    intro t rest hle hnone hrest hk hdeep
    rw [hstart hnone, hrest, Builder.run, (Builder.Stop.tooDeep hk (hdepth.trans hdeep)).feed]
    rfl
  case list =>
    intro t rest hlt hnone hrest hk hdeep hless
    -- to the forms in the list, `inner` is one more list around them
    let list : OpenList := ⟨(skipBlanks p.tokens).1, t.column, []⟩
    have hinside : (readList (p.enter rest)).resume list (inner :: outer) =
        (p.enter rest).resume ⟨list, inner :: outer, []⟩ :=
      resume_readList (p.enter rest) list (inner :: outer) (congrArg (· + 1) hd)
    have hrun : p.resume ⟨inner, outer, []⟩ = (p.enter rest).resume ⟨list, inner :: outer, []⟩ := by
      have hroom : ¬ Builder.depth ⟨inner, outer, (skipBlanks p.tokens).1.reverse⟩ = maxDepth := by
        rwa [hdepth]
      rw [hstart hnone, hrest, Builder.run, (Builder.Step.opens hk hroom).feed, resume, enter]
      simp only [hnone, List.reverse_reverse]
      rfl
    rw [hrun, ← hinside, Forms.resume_inside (leaves_readList _).2.2]
    rfl
  case atom =>
    intro t rest hlt hnone hrest hr hl
    have hatom : t.IsAtom := ⟨kind_ne_space hrest, hl, hr⟩
    rw [hstart hnone, hrest, Builder.run, Builder.feed_atom hatom, Read.resume, resume, hnone]
    simp
termination_by (p.tokens.length, 0)

theorem resume_readList (p : Descent) (inner : OpenList) (outer : List OpenList)
    (hd : p.depth = outer.length) :
    (readList p).resume inner outer = p.resume ⟨inner, outer, []⟩ := by
  have hone := resume_readOne p inner outer hd
  have hleaves := leaves_readOne p
  rw [← hone, readList]
  cases hr : readOne p with
  | form f q hlt =>
    rw [hr] at hleaves
    have hrest := resume_readList q (inner.add f) outer (hleaves.trans hd)
    rw [Read.resume, ← hrest]
    simp only [Forms.resume, OpenList.addAll_cons]
  | close column q hlt => rfl
  | endOfTokens q hle => rfl
termination_by (p.tokens.length, 1)

end

/-! ### Builds -/

def start (ts : List Token) : Descent := ⟨ts, 0, none⟩

def readRoot (ts : List Token) : (start ts).Forms := readList (start ts)

def built (ts : List Token) : Built where
  root := (readRoot ts).toForm [] 0
  ending :=
    match (readRoot ts).closing with
    | none => (readRoot ts).after.ending
    | some column => .strayClose column
  unread := (readRoot ts).after.tokens

/-- **The builder does what recursive descent does**, whatever the tokens: it
builds the same root, ends for the same reason and leaves the same tokens. -/
theorem built_eq (ts : List Token) : built ts = Built.ofTokens ts := by
  have hrun : Built.ofTokens ts = (readRoot ts).resume .root [] :=
    (resume_readList (start ts) .root [] rfl).symm
  have hroot : ∀ closing, (OpenList.addAll .root (readRoot ts).children).toForm closing =
      .list [] 0 (readRoot ts).children closing := OpenList.toForm_addAll [] 0 _
  rw [hrun, built, Forms.toForm, Forms.resume]
  cases hc : (readRoot ts).closing with
  | none =>
    have hended : (readRoot ts).after.Ended := (leaves_readList (start ts)).2.2 hc
    rw [resume_of_ended hended, Builder.finish, Builder.unwind, hroot]
  | some column => simp only [resumeClosed, hroot]

/-- The faults of a build in the order in which they are looked for: a list
nested too deep, a closed root, an open list in the root. -/
theorem fault_built (ts : List Token) :
    (Built.ofTokens ts).fault? =
      ((readRoot ts).after.tooDeep.map .tooDeep).or
        (((build ts).closing.map .strayClose).or
          ((Form.firstOpenAmong? (build ts).children).map fun f => .unclosedList f.column)) := by
  rw [build, ← built_eq, Built.fault?, built]
  cases hc : (readRoot ts).closing with
  | none =>
    unfold ending Forms.toForm
    cases (readRoot ts).after.tooDeep with
    | none => simp [hc, Form.closing]
    | some column => rfl
  | some column =>
    have hclosed : (readRoot ts).closing ≠ none := by simp [hc]
    have hdeep : (readRoot ts).after.tooDeep = none :=
      (leaves_readList (start ts)).2.1 hclosed
    simp [hdeep, Forms.toForm, hc, Form.closing]

end Descent
end ParenLint
