/-
# All violations, and the one that is reported

The check stops at the first violation and logs it. What it stops at is told
by a list that no check stops: all violations in a form (`Form.violations`),
a form before the forms after it, the forms inside a form before the bounds
that the form itself breaks, and both of these if it breaks both. The check
passes exactly if the list is empty, and otherwise reports its head.

That it logs nothing else is a matter of how it runs. `Log.checkUnder` is the
check with its log: every part that is checked can leave entries, and a part
is checked only if those before it have passed. A run that goes through two
lists of violations is the run through the one and then the other
(`Log.Check.first_append`), so no entry comes from a part before the first
violation, and none from a part after it.

Key definitions: `Form.violations`, `Log.checkUnder`, `Log.Check.first`.
Key theorems: `Form.violation_eq_head`, `Log.checkUnder_eq_first`,
`check_reports_first`.
-/
import ParenLint.Log

namespace ParenLint

/-! ### All violations -/

/-- The bounds of its list that a form at `column` breaks: that of the first
form, then that of the closing parenthesis. -/
def boundViolations (first : Nat) (closing : Option Nat) (column : Nat) : List Violation :=
  (if column < first then [.leftOfFirst column first] else []) ++
    match closing with
    | some k => if k < column then [.rightOfClosing column k] else []
    | none => []

theorem boundViolation_eq_head (first : Nat) (closing : Option Nat) (column : Nat) :
    boundViolation? first closing column = (boundViolations first closing column).head? := by
  unfold boundViolation? boundViolations
  by_cases hf : column < first
  · simp [hf]
  · cases closing with
    | none => simp [hf]
    | some k => by_cases hk : k < column <;> simp [hf, hk]

namespace Form

mutual

def violations (parent : Nat) : Form → List Violation
  | atom _ column label =>
    if column ≤ parent then [.notRightOfParent label column parent] else []
  | list _ column children closing =>
    match children with
    | [] => []
    | f :: fs => childViolations column f.column closing (f :: fs)

def childViolations (parent first : Nat) (closing : Option Nat) : List Form → List Violation
  | [] => []
  | f :: fs =>
    violations parent f ++ boundViolations first closing f.column ++
      childViolations parent first closing fs

end

mutual

/-- The violation that the check finds is the first of all. -/
theorem violation_eq_head : ∀ (f : Form) (parent : Nat),
    f.violation? parent = (f.violations parent).head?
  | atom _ column _, parent => by
    by_cases h : column ≤ parent <;> simp [violation?, violations, h]
  | list _ _ [] _, _ => rfl
  | list _ column (f :: fs) closing, _ =>
    childViolation_eq_head (f :: fs) column f.column closing

theorem childViolation_eq_head : ∀ (fs : List Form) (parent first : Nat) (closing : Option Nat),
    childViolation? parent first closing fs = (childViolations parent first closing fs).head?
  | [], _, _, _ => rfl
  | f :: fs, parent, first, closing => by
    rw [childViolation?, childViolations, violation_eq_head f, boundViolation_eq_head,
      childViolation_eq_head fs, List.head?_append, List.head?_append]
    cases (f.violations parent).head? <;>
      cases (boundViolations first closing f.column).head? <;> rfl

end

end Form

/-! ### The check with its log -/

namespace Log

/-- How far a check has come: whether all has passed, and what it has left in
the log. -/
structure Check where
  passes : Bool
  entries : List Entry

namespace Check

def pass : Check := ⟨true, []⟩

def fail (v : Violation) : Check := ⟨false, [.violation v]⟩

def andThen (c next : Check) : Check :=
  if c.passes then ⟨next.passes, c.entries ++ next.entries⟩ else c

/-- The check of something in which all violations are `vs`, if it logs the
first and stops. -/
def first (vs : List Violation) : Check := ⟨vs.isEmpty, vs.head?.toList.map .violation⟩

theorem first_append (vs ws : List Violation) :
    first (vs ++ ws) = (first vs).andThen (first ws) := by
  cases vs <;> rfl

end Check

/-- Checks a form at `column` against the bounds of its list, that of the
closing parenthesis only if it keeps to that of the first form. -/
def checkBounds (first : Nat) (closing : Option Nat) (column : Nat) : Check :=
  if column < first then .fail (.leftOfFirst column first)
  else
    match closing with
    | some k => if k < column then .fail (.rightOfClosing column k) else .pass
    | none => .pass

mutual

def checkUnder (parent : Nat) : Form → Check
  | .atom _ column label =>
    if column ≤ parent then .fail (.notRightOfParent label column parent) else .pass
  | .list _ column children closing =>
    match children with
    | [] => .pass
    | f :: fs => checkChildren column f.column closing (f :: fs)

/-- Checks the forms of a list, one after the other: each by itself, then
against the bounds of the list. -/
def checkChildren (parent first : Nat) (closing : Option Nat) : List Form → Check
  | [] => .pass
  | f :: fs =>
    ((checkUnder parent f).andThen (checkBounds first closing f.column)).andThen
      (checkChildren parent first closing fs)

end

theorem checkBounds_eq_first (first : Nat) (closing : Option Nat) (column : Nat) :
    checkBounds first closing column = .first (boundViolations first closing column) := by
  unfold checkBounds boundViolations
  by_cases hf : column < first
  · simp [hf, Check.fail, Check.first]
  · cases closing with
    | none => simp [hf, Check.pass, Check.first]
    | some k => by_cases hk : k < column <;> simp [hf, hk, Check.fail, Check.pass, Check.first]

mutual

/-- The check logs the first of all violations and stops, at whatever depth
it is. -/
theorem checkUnder_eq_first : ∀ (f : Form) (parent : Nat),
    checkUnder parent f = .first (f.violations parent)
  | .atom _ column _, parent => by
    by_cases h : column ≤ parent <;>
      simp [checkUnder, Form.violations, h, Check.fail, Check.pass, Check.first]
  | .list _ _ [] _, _ => rfl
  | .list _ column (f :: fs) closing, _ =>
    checkChildren_eq_first (f :: fs) column f.column closing

theorem checkChildren_eq_first : ∀ (fs : List Form) (parent first : Nat) (closing : Option Nat),
    checkChildren parent first closing fs = .first (Form.childViolations parent first closing fs)
  | [], _, _, _ => rfl
  | f :: fs, parent, first, closing => by
    rw [checkChildren, Form.childViolations, checkUnder_eq_first f, checkBounds_eq_first,
      checkChildren_eq_first fs, Check.first_append, Check.first_append]

end

end Log

/-- **The check reports the first of all violations.** It passes exactly if
there are none, and then logs nothing; otherwise it logs one entry, at the
level of debugging, for the first of them. -/
theorem check_reports_first (f : Form) (parent : Nat) :
    (f.isIndentedUnder parent = true ↔ f.violations parent = []) ∧
      (Log.checkUnder parent f).passes = f.isIndentedUnder parent ∧
      (f.isIndentedUnder parent = true → (Log.checkUnder parent f).entries = []) ∧
      (f.isIndentedUnder parent = false →
        ∃ v vs, f.violations parent = v :: vs ∧
          (Log.checkUnder parent f).entries = [.violation v]) ∧
      (∀ e ∈ (Log.checkUnder parent f).entries, e.level = .debug ∧ e.stage = .indentation) ∧
      Log.ofCheck f = (Log.checkUnder 0 f).entries := by
  have hverdict : f.isIndentedUnder parent = (f.violations parent).isEmpty := by
    rw [Form.isIndentedUnder, Form.violation_eq_head]
    cases f.violations parent <;> rfl
  have hlog : Log.ofCheck f = (Log.checkUnder 0 f).entries := by
    rw [Log.ofCheck, Form.violation_eq_head, Log.checkUnder_eq_first, Log.Check.first]
  rw [hverdict, Log.checkUnder_eq_first]
  refine ⟨List.isEmpty_iff, rfl, ?_, ?_, ?_, hlog⟩
  · intro h
    rw [Log.Check.first, List.isEmpty_iff.1 h]
    rfl
  · intro h
    obtain ⟨v, vs, hvs⟩ := List.exists_cons_of_ne_nil (List.isEmpty_eq_false_iff.1 h)
    exact ⟨v, vs, hvs, by rw [hvs]; rfl⟩
  · intro e he
    obtain ⟨v, -, rfl⟩ := List.mem_map.1 he
    exact ⟨rfl, rfl⟩

/-- Five violations, three of them by the last atom: the one inside the inner
list comes first and is reported. -/
example :
    let f := Form.list [] 3
      [.list [] 9 [.atom [] 8 ['a']] none, .atom [] 3 ['b']] (some 2)
    f.violations 0 = [.notRightOfParent ['a'] 8 9, .rightOfClosing 9 2,
        .notRightOfParent ['b'] 3 3, .leftOfFirst 3 9, .rightOfClosing 3 2] ∧
      Log.ofCheck f = [.violation (.notRightOfParent ['a'] 8 9)] := by decide

end ParenLint
