/-
# A dump can be read back

The dump of a form has one line for every form in its outline, that is for
itself and then for the forms inside it, a list right before those in it
(`Form.outlineAt_list`). A line is told from the others by its own text
(`Form.dumpLine_append_inj`): the spaces it begins with are its depth, a quote
tells an atom from a list, columns end at the next blank, and the two texts
are in quotes, so that nothing in them ends a part of the line or the line
itself.

So a dump tells for every form its depth and what it is without the forms in
it, in source order (`Form.rowsAt`). This tells the form: the forms in a list
are those that come next and are deeper, up to the first that is not
(`Form.rowsAt_append_inj`).

Key definitions: `Form.alone`, `Form.IsDumpLine`, `Form.rowsAt`.
Key theorems: `Form.dumpLine_append_inj`, `Form.rowsAt_append_inj`,
`Form.dump_lossless`.
-/
import ParenLint.Form.Dump
import ParenLint.Proofs.Writing
import Mathlib.Data.List.Forall2

namespace ParenLint
namespace Form

/-! ### One line -/

/-- A form without the forms in it. -/
def alone : Form → Form
  | atom space column label => atom space column label
  | list space column _ closing => list space column [] closing

theorem alone_eq {f g : Form} (hl : f.isList = g.isList) (ht : f.label = g.label)
    (hi : f.column = g.column) (hc : f.closing = g.closing) (hs : f.space = g.space) :
    f.alone = g.alone := by
  cases f with
  | atom _ _ _ =>
    cases g with
    | atom _ _ _ =>
      obtain rfl := ht
      obtain rfl := hi
      obtain rfl := hs
      rfl
    | list _ _ _ _ => cases hl
  | list _ _ _ _ =>
    cases g with
    | atom _ _ _ => cases hl
    | list _ _ _ _ =>
      obtain rfl := hi
      obtain rfl := hc
      obtain rfl := hs
      rfl

def dumpBody (f : Form) : List Char :=
  f.dumpHead ++ (" indent=".toList ++ (decimal f.column ++ ' ' :: ("close=".toList ++
    (dumpClosing f.closing ++ ' ' :: ("space=".toList ++ (quote f.space ++ ['\n']))))))

theorem dumpLine_eq (depth : Nat) (f : Form) :
    dumpLine depth f = List.replicate (2 * depth) ' ' ++ f.dumpBody := by
  simp [dumpLine, dumpBody]

/-- The word a line begins with is not a blank. -/
theorem dumpHead_eq_cons (f : Form) : ∃ c cs, f.dumpHead = c :: cs ∧ c ≠ ' ' := by
  cases f with
  | atom _ _ _ => exact ⟨_, _, rfl, by decide⟩
  | list _ _ _ _ => exact ⟨_, _, rfl, by decide⟩

theorem dumpHead_append_inj {f g : Form} {xs ys : List Char}
    (h : f.dumpHead ++ xs = g.dumpHead ++ ys) :
    f.isList = g.isList ∧ f.label = g.label ∧ xs = ys := by
  cases f with
  | atom _ _ l =>
    cases g with
    | atom _ _ l' =>
      obtain ⟨hl, hxs⟩ := quote_append_inj (a := l) (b := l') h
      exact ⟨rfl, hl, hxs⟩
    | list _ _ _ _ => exact absurd (List.cons.inj h).1 (by decide)
  | list _ _ _ _ =>
    cases g with
    | atom _ _ _ => exact absurd (List.cons.inj h).1 (by decide)
    | list _ _ _ _ => exact ⟨rfl, rfl, List.append_cancel_left h⟩

theorem not_mem_dumpClosing {c : Char} (hd : ∀ d, Nat.digitChar d ≠ c) (hc : c ≠ '-')
    (closing : Option Nat) : c ∉ dumpClosing closing := by
  cases closing with
  | none => simpa [dumpClosing] using hc
  | some k => exact not_mem_decimal hd k

theorem dumpClosing_inj {c d : Option Nat} (h : dumpClosing c = dumpClosing d) : c = d := by
  have hdash : ∀ k, '-' ∉ decimal k := not_mem_decimal fun _ => Nat.digitChar_ne '-' rfl
  cases c with
  | none =>
    cases d with
    | none => rfl
    | some k =>
      have h' : ['-'] = decimal k := h
      exact absurd (h' ▸ List.mem_cons_self) (hdash k)
  | some k =>
    cases d with
    | none =>
      have h' : decimal k = ['-'] := h
      exact absurd (h' ▸ List.mem_cons_self) (hdash k)
    | some k' => rw [decimal_inj h]

/-- The parts of a line can be told from each other. -/
theorem dumpBody_append_inj {f g : Form} {xs ys : List Char}
    (h : f.dumpBody ++ xs = g.dumpBody ++ ys) : f.alone = g.alone ∧ xs = ys := by
  have hblank : ∀ n, Nat.digitChar n ≠ ' ' := fun _ => Nat.digitChar_ne ' ' rfl
  have hclose := not_mem_dumpClosing hblank (by decide)
  unfold dumpBody at h
  simp only [List.append_assoc, List.cons_append] at h
  obtain ⟨hlist, hlabel, h⟩ := dumpHead_append_inj h
  obtain ⟨hcolumn, h⟩ := word_append_inj (not_mem_decimal hblank _) (not_mem_decimal hblank _)
    (List.append_cancel_left h)
  obtain ⟨hclosing, h⟩ := word_append_inj (hclose _) (hclose _) (List.append_cancel_left h)
  obtain ⟨hspace, h⟩ := quote_append_inj (List.append_cancel_left h)
  refine ⟨?_, (List.cons.inj h).2⟩
  exact alone_eq hlist hlabel (decimal_inj hcolumn) (dumpClosing_inj hclosing) hspace

/-- Behind its spaces a line begins with something else, and it breaks at its
end only. -/
theorem dumpBody_eq_cons (f : Form) :
    ∃ c cs, f.dumpBody = c :: (cs ++ ['\n']) ∧ c ≠ ' ' ∧ '\n' ∉ c :: cs := by
  obtain ⟨c, cs, hf, hc⟩ := f.dumpHead_eq_cons
  have hhead : '\n' ∉ f.dumpHead := by
    cases f with
    | atom _ _ label => exact lineFeed_not_mem_quote label
    | list _ _ _ _ =>
      show '\n' ∉ "list".toList
      decide
  have hdigit : ∀ n, Nat.digitChar n ≠ '\n' := fun _ => Nat.digitChar_ne '\n' rfl
  have hcolumn := not_mem_decimal hdigit f.column
  have hclosing := not_mem_dumpClosing hdigit (by decide) f.closing
  have hspace := lineFeed_not_mem_quote f.space
  refine ⟨c, cs ++ (" indent=".toList ++ (decimal f.column ++ ' ' :: ("close=".toList ++
    (dumpClosing f.closing ++ ' ' :: ("space=".toList ++ quote f.space))))), ?_, hc, ?_⟩
  · unfold dumpBody
    rw [hf]
    simp
  · rw [← List.cons_append, ← hf]
    simp [hhead, hcolumn, hclosing, hspace]

/-- A line tells its depth, its form without the forms in it, and where it
ends. -/
theorem dumpLine_append_inj {d e : Nat} {f g : Form} {xs ys : List Char}
    (h : dumpLine d f ++ xs = dumpLine e g ++ ys) : d = e ∧ f.alone = g.alone ∧ xs = ys := by
  obtain ⟨c, cs, hf, hc, -⟩ := f.dumpBody_eq_cons
  obtain ⟨c', cs', hg, hc', -⟩ := g.dumpBody_eq_cons
  rw [dumpLine_eq, dumpLine_eq, List.append_assoc, List.append_assoc, hf, hg] at h
  obtain ⟨hdepth, hbody⟩ := margin_append_inj hc hc' h
  obtain ⟨halone, hxs⟩ : f.alone = g.alone ∧ xs = ys := by
    apply dumpBody_append_inj
    rw [hf, hg]
    exact hbody
  exact ⟨by omega, halone, hxs⟩

/-- A line for a form at depth `depth`: two spaces for each list around it,
something that is not a space, and no line feed but at the end. -/
def IsDumpLine (depth : Nat) (line : List Char) : Prop :=
  ∃ c cs, line = List.replicate (2 * depth) ' ' ++ c :: (cs ++ ['\n']) ∧ c ≠ ' ' ∧ '\n' ∉ c :: cs

theorem isDumpLine_dumpLine (depth : Nat) (f : Form) : IsDumpLine depth (dumpLine depth f) := by
  obtain ⟨c, cs, hf, hc, hn⟩ := f.dumpBody_eq_cons
  exact ⟨c, cs, by rw [dumpLine_eq, hf], hc, hn⟩

theorem IsDumpLine.count {depth : Nat} {line : List Char} (h : IsDumpLine depth line) :
    line.count '\n' = 1 := by
  obtain ⟨c, cs, rfl, -, hn⟩ := h
  have hspaces : (List.replicate (2 * depth) ' ').count '\n' = 0 := by
    rw [List.count_eq_zero]
    exact fun h => absurd (List.eq_of_mem_replicate h) (by decide)
  have hrest : (c :: cs).count '\n' = 0 := List.count_eq_zero.2 hn
  calc (List.replicate (2 * depth) ' ' ++ c :: (cs ++ ['\n'])).count '\n'
      = (List.replicate (2 * depth) ' ').count '\n' + ((c :: cs) ++ ['\n']).count '\n' :=
        List.count_append
    _ = 0 + (0 + ['\n'].count '\n') := by rw [hspaces, List.count_append, hrest]
    _ = 1 := rfl

theorem dumpLine_ne_nil (depth : Nat) (f : Form) : dumpLine depth f ≠ [] := by
  intro h
  have hcount := (isDumpLine_dumpLine depth f).count
  rw [h] at hcount
  cases hcount

/-! ### All lines -/

theorem dumpLines_inj : ∀ ps qs : List (Nat × Form),
    (ps.flatMap fun p => dumpLine p.1 p.2) = (qs.flatMap fun q => dumpLine q.1 q.2) →
    ps.map (fun p => (p.1, p.2.alone)) = qs.map fun q => (q.1, q.2.alone)
  | [], [], _ => rfl
  | [], q :: qs, h =>
    absurd (List.append_eq_nil_iff.1 h.symm).1 (dumpLine_ne_nil q.1 q.2)
  | p :: ps, [], h =>
    absurd (List.append_eq_nil_iff.1 h).1 (dumpLine_ne_nil p.1 p.2)
  | p :: ps, q :: qs, h => by
    rw [List.flatMap_cons, List.flatMap_cons] at h
    obtain ⟨hdepth, halone, hrest⟩ := dumpLine_append_inj h
    rw [List.map_cons, List.map_cons, hdepth, halone, dumpLines_inj ps qs hrest]

/-- A form and all forms inside it, in source order, each with its depth and
without the forms in it. -/
def rowsAt (depth : Nat) (f : Form) : List (Nat × Form) :=
  (outlineAt depth f).map fun p => (p.1, p.2.alone)

theorem rowsAt_list (depth : Nat) (s : List Char) (i : Nat) (fs : List Form) (c : Option Nat) :
    rowsAt depth (list s i fs c) = (depth, list s i [] c) :: fs.flatMap (rowsAt (depth + 1)) := by
  rw [rowsAt, outlineAt_list, List.map_cons, List.map_flatMap]
  rfl

theorem rowsAt_eq_cons (depth : Nat) (f : Form) :
    ∃ rows, rowsAt depth f = (depth, f.alone) :: rows := by
  cases f with
  | atom _ _ _ => exact ⟨[], rfl⟩
  | list s i fs c => exact ⟨_, rowsAt_list depth s i fs c⟩

theorem head_rows_le {depth : Nat} {fs : List Form} {xs : List (Nat × Form)}
    (h : ∀ r ∈ xs.head?, r.1 < depth) :
    ∀ r ∈ (fs.flatMap (rowsAt depth) ++ xs).head?, r.1 ≤ depth := by
  cases fs with
  | nil => exact fun r hr => Nat.le_of_lt (h r hr)
  | cons f fs =>
    obtain ⟨rows, hf⟩ := rowsAt_eq_cons depth f
    rw [List.flatMap_cons, hf]
    rintro r hr
    obtain rfl : (depth, f.alone) = r := Option.some.inj hr
    exact Nat.le_refl _

/-- The rows of a form do not begin where rows end that are less deep. -/
theorem rowsAt_append_ne {depth : Nat} (f : Form) (xs : List (Nat × Form))
    {ys : List (Nat × Form)} (h : ∀ r ∈ ys.head?, r.1 < depth) : rowsAt depth f ++ xs ≠ ys := by
  rintro rfl
  obtain ⟨rows, hf⟩ := rowsAt_eq_cons depth f
  rw [hf] at h
  exact absurd (h _ rfl) (Nat.lt_irrefl _)

mutual

/-- The rows of a form, with rows behind them that are no deeper than it, tell
which form it is and where its rows end. -/
theorem rowsAt_append_inj : ∀ (f g : Form) {depth : Nat} {xs ys : List (Nat × Form)},
    (∀ r ∈ xs.head?, r.1 ≤ depth) → (∀ r ∈ ys.head?, r.1 ≤ depth) →
    rowsAt depth f ++ xs = rowsAt depth g ++ ys → f = g ∧ xs = ys
  | atom s i l, atom s' i' l', depth, xs, ys, _, _, h => by
    obtain ⟨hf, hxs⟩ := List.cons.inj h
    exact ⟨(Prod.mk.inj hf).2, hxs⟩
  | list s i fs c, list s' i' gs c', depth, xs, ys, hx, hy, h => by
    rw [rowsAt_list, rowsAt_list] at h
    obtain ⟨hf, hrest⟩ := List.cons.inj h
    obtain ⟨rfl, rfl, -, rfl⟩ := list.inj (Prod.mk.inj hf).2
    obtain ⟨rfl, hxs⟩ := rowsAll_append_inj fs gs (fun r hr => Nat.lt_succ_of_le (hx r hr))
      (fun r hr => Nat.lt_succ_of_le (hy r hr)) hrest
    exact ⟨rfl, hxs⟩
  | atom s i l, list s' i' gs c', depth, xs, ys, _, _, h => by
    rw [rowsAt_list] at h
    cases (Prod.mk.inj (List.cons.inj h).1).2
  | list s i fs c, atom s' i' l', depth, xs, ys, _, _, h => by
    rw [rowsAt_list] at h
    cases (Prod.mk.inj (List.cons.inj h).1).2

/-- So do the rows of forms at one depth, with rows behind them that are less
deep. -/
theorem rowsAll_append_inj : ∀ (fs gs : List Form) {depth : Nat} {xs ys : List (Nat × Form)},
    (∀ r ∈ xs.head?, r.1 < depth) → (∀ r ∈ ys.head?, r.1 < depth) →
    fs.flatMap (rowsAt depth) ++ xs = gs.flatMap (rowsAt depth) ++ ys → fs = gs ∧ xs = ys
  | [], [], _, _, _, _, _, h => ⟨rfl, h⟩
  | f :: fs, g :: gs, depth, xs, ys, hx, hy, h => by
    rw [List.flatMap_cons, List.flatMap_cons, List.append_assoc, List.append_assoc] at h
    obtain ⟨rfl, hrest⟩ := rowsAt_append_inj f g (head_rows_le hx) (head_rows_le hy) h
    obtain ⟨rfl, hxs⟩ := rowsAll_append_inj fs gs hx hy hrest
    exact ⟨rfl, hxs⟩
  | [], g :: gs, depth, xs, ys, hx, _, h => by
    rw [List.flatMap_cons, List.append_assoc] at h
    exact absurd h.symm (rowsAt_append_ne g _ hx)
  | f :: fs, [], depth, xs, ys, _, hy, h => by
    rw [List.flatMap_cons, List.append_assoc] at h
    exact absurd h (rowsAt_append_ne f _ hy)

end

theorem dump_injective : Function.Injective dump := by
  intro f g h
  have hrows : rowsAt 0 f ++ [] = rowsAt 0 g ++ [] := by
    rw [List.append_nil, List.append_nil]
    exact dumpLines_inj f.outline g.outline h
  exact (rowsAt_append_inj f g (by simp) (by simp) hrows).1

/-- **A dump is exact to the line and loses nothing.** It has one line feed for
each form, itself included, and its lines are those of the forms in source
order: each ends in its line feed and begins with twice as many spaces as the
form is deep, and no more. Different forms have different dumps. -/
theorem dump_lossless :
    (∀ f : Form, f.dump.count '\n' = f.outline.length ∧
      ∃ lines, f.dump = lines.flatten ∧
        List.Forall₂ (fun line p => IsDumpLine p.1 line) lines f.outline) ∧
      Function.Injective dump := by
  have hcount : ∀ ps : List (Nat × Form),
      (ps.flatMap fun p => dumpLine p.1 p.2).count '\n' = ps.length := by
    intro ps
    induction ps with
    | nil => rfl
    | cons p ps ih => rw [List.flatMap_cons, List.count_append,
        (isDumpLine_dumpLine p.1 p.2).count, ih, List.length_cons, Nat.add_comm]
  refine ⟨fun f => ⟨hcount f.outline, f.outline.map fun p => dumpLine p.1 p.2, ?_, ?_⟩,
    dump_injective⟩
  · rw [dump, List.flatMap_def]
  · rw [List.forall₂_map_left_iff, List.forall₂_same]
    exact fun p _ => isDumpLine_dumpLine p.1 p.2

/-- An atom that looks like the end of a line and the next line. -/
example :
    dump (.list [] 0 [.atom [] 1 ['"', '\n', 'l', 'i', 's', 't']] none) =
      ("list indent=0 close=- space=\"\"\n" ++
        "  \"\\\"\\nlist\" indent=1 close=- space=\"\"\n").toList := by decide

end Form
end ParenLint
