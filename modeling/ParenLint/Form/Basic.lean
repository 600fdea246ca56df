/-
# Forms

The forms of a text are its atoms and its parenthesised lists. A form keeps
the blanks that stood before it and the column at which it opens; a list
also keeps the column of the `)` that closed it, if there was one.

`Form.outline` lists the forms inside a form in source order, each with its
depth, and is what everything that walks over all forms goes by.

Key definitions: `Form`, `Form.outline`.
Key theorems: `Form.ind`, `Form.same_iff`, `Form.outlineAt_list`.
-/

namespace ParenLint

inductive Form
  /-- An atom: the blanks before it, the column of its first character and
  its characters. String literals are atoms too. -/
  | atom (space : List Char) (column : Nat) (label : List Char)
  /-- A list: the blanks before it, the column of its `(`, the forms in it
  and the column of its `)`, if it was closed. -/
  | list (space : List Char) (column : Nat) (children : List Form) (closing : Option Nat)

namespace Form

def space : Form → List Char
  | atom space _ _ => space
  | list space _ _ _ => space

def column : Form → Nat
  | atom _ column _ => column
  | list _ column _ _ => column

def label : Form → List Char
  | atom _ _ label => label
  | list _ _ _ _ => []

def children : Form → List Form
  | atom _ _ _ => []
  | list _ _ children _ => children

def closing : Form → Option Nat
  | atom _ _ _ => none
  | list _ _ _ closing => closing

def isList : Form → Bool
  | atom _ _ _ => false
  | list _ _ _ _ => true

@[elab_as_elim, induction_eliminator]
theorem ind {P : Form → Prop} (atom : ∀ space column label, P (atom space column label))
    (list : ∀ space column children closing, (∀ f ∈ children, P f) →
      P (list space column children closing)) : ∀ f, P f
  | .atom space column label => atom space column label
  | .list space column children closing =>
    list space column children closing fun f _ => ind atom list f

/-! ### Equality -/

mutual

def same : Form → Form → Bool
  | atom s i l, atom s' i' l' => s == s' && i == i' && l == l'
  | list s i fs c, list s' i' fs' c' => s == s' && i == i' && c == c' && sameAll fs fs'
  | _, _ => false

def sameAll : List Form → List Form → Bool
  | [], [] => true
  | f :: fs, g :: gs => same f g && sameAll fs gs
  | _, _ => false

end

mutual

theorem same_iff : ∀ f g : Form, same f g = true ↔ f = g
  | atom _ _ _, atom _ _ _ => by simp [same, and_assoc]
  | list _ _ fs _, list _ _ gs _ => by
    simp only [same, Bool.and_eq_true, beq_iff_eq, sameAll_iff fs gs, list.injEq, and_assoc]
    rw [and_comm (b := fs = gs)]
  | atom _ _ _, list _ _ _ _ => by simp [same]
  | list _ _ _ _, atom _ _ _ => by simp [same]

theorem sameAll_iff : ∀ fs gs : List Form, sameAll fs gs = true ↔ fs = gs
  | [], [] => by simp [sameAll]
  | f :: fs, g :: gs => by simp [sameAll, same_iff f g, sameAll_iff fs gs]
  | [], _ :: _ => by simp [sameAll]
  | _ :: _, [] => by simp [sameAll]

end

instance : DecidableEq Form := fun f g => decidable_of_iff _ (same_iff f g)

/-! ### All forms inside a form -/

mutual

/-- The forms of `f`, which stands at depth `depth`, put in front of `seen`
in reverse. -/
def outlineOnto (seen : List (Nat × Form)) (depth : Nat) : Form → List (Nat × Form)
  | atom s i l => (depth, atom s i l) :: seen
  | list s i fs c => outlineAllOnto ((depth, list s i fs c) :: seen) (depth + 1) fs

def outlineAllOnto (seen : List (Nat × Form)) (depth : Nat) : List Form → List (Nat × Form)
  | [] => seen
  | f :: fs => outlineAllOnto (outlineOnto seen depth f) depth fs

end

/-- The form `f` at depth `depth` and all forms inside it, in source order,
with their depths. -/
def outlineAt (depth : Nat) (f : Form) : List (Nat × Form) := (outlineOnto [] depth f).reverse

/-- A form and all forms inside it, in source order, with their depths below
it: a list comes right before its children. -/
def outline (f : Form) : List (Nat × Form) := outlineAt 0 f

mutual

theorem outlineOnto_eq : ∀ (f : Form) (seen : List (Nat × Form)) (depth : Nat),
    outlineOnto seen depth f = outlineOnto [] depth f ++ seen
  | atom _ _ _, _, _ => rfl
  | list s i fs c, seen, depth => by
    rw [outlineOnto, outlineOnto, outlineAllOnto_eq fs (_ :: seen), outlineAllOnto_eq fs [_]]
    simp

theorem outlineAllOnto_eq : ∀ (fs : List Form) (seen : List (Nat × Form)) (depth : Nat),
    outlineAllOnto seen depth fs = outlineAllOnto [] depth fs ++ seen
  | [], _, _ => rfl
  | f :: fs, seen, depth => by
    rw [outlineAllOnto, outlineAllOnto, outlineOnto_eq f seen,
      outlineAllOnto_eq fs (_ ++ _), outlineAllOnto_eq fs (outlineOnto [] depth f)]
    simp

end

theorem outlineAllOnto_reverse : ∀ (fs : List Form) (depth : Nat),
    (outlineAllOnto [] depth fs).reverse = fs.flatMap (outlineAt depth)
  | [], _ => rfl
  | f :: fs, depth => by
    rw [outlineAllOnto, outlineAllOnto_eq]
    simp [outlineAllOnto_reverse fs depth, outlineAt]

@[simp] theorem outlineAt_atom (depth : Nat) (s : List Char) (i : Nat) (l : List Char) :
    outlineAt depth (atom s i l) = [(depth, atom s i l)] := rfl

/-- A list comes first, then the forms inside it, one deeper. -/
@[simp] theorem outlineAt_list (depth : Nat) (s : List Char) (i : Nat) (fs : List Form)
    (c : Option Nat) :
    outlineAt depth (list s i fs c) =
      (depth, list s i fs c) :: fs.flatMap (outlineAt (depth + 1)) := by
  rw [outlineAt, outlineOnto, outlineAllOnto_eq]
  simp [outlineAllOnto_reverse]

end Form
end ParenLint
