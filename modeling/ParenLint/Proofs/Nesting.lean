/-
# Structure by counting parentheses

Whether a text is well structured, and if not, what is wrong with it, can be
told by going once through its tokens with a counter: the depth, how many
lists are open. The first `)` at depth 0, or `(` at depth `maxDepth`, stops
the count; if nothing does, the text is well structured if the depth is 0 in
the end, and otherwise the list that the last `(` at depth 0 opened is never
closed.

The builder agrees with the counter because its depth is the count
(`Reads.depth_met`), every form in an open list has all its lists closed
(`Reads.closed`), and the outermost open list is that of the last `(` at
depth 0 (`Reads.outermost`). So a search of the finished root for an open
list finds the outermost one first (`firstOpen_finish`).

Key definitions: `Nesting.met`, `Nesting.depth`, `Nesting.stop?`.
Key theorems: `fault_of_stop`, `fault_of_unclosed`, `fault_of_balanced`,
`parse_by_depth`.
-/
import ParenLint.Proofs.Building
import ParenLint.Proofs.Scanning
import ParenLint.Verdict

namespace ParenLint

/-! ### The depth -/

namespace Nesting

def depthAfter (depth : Nat) (t : Token) : Nat :=
  match t.kind with
  | .leftParen => depth + 1
  | .rightParen => depth - 1
  | _ => depth

/-- How many lists are open after the tokens `ts`, if `start` were before. -/
def depth (start : Nat) (ts : List Token) : Nat := ts.foldl depthAfter start

def met (start : Nat) : List Token → List (Nat × Token)
  | [] => []
  | t :: ts => (start, t) :: met (depthAfter start t) ts

/-- A token met at a depth at which it cannot stand: a `)` with no list open,
or a `(` with `maxDepth` lists open. -/
def Stops (p : Nat × Token) : Prop :=
  p.2.kind = .rightParen ∧ p.1 = 0 ∨ p.2.kind = .leftParen ∧ p.1 = maxDepth

instance : DecidablePred Stops := fun p => by unfold Stops; infer_instance

def stop? (ts : List Token) : Option Token := ((met 0 ts).find? Stops).map Prod.snd

@[simp] theorem depth_nil (start : Nat) : depth start [] = start := rfl

@[simp] theorem depth_cons (start : Nat) (t : Token) (ts : List Token) :
    depth start (t :: ts) = depth (depthAfter start t) ts := rfl

theorem depth_append (start : Nat) (ts us : List Token) :
    depth start (ts ++ us) = depth (depth start ts) us := by
  simp [depth]

theorem met_append : ∀ (ts us : List Token) (start : Nat),
    met start (ts ++ us) = met start ts ++ met (depth start ts) us
  | [], _, _ => rfl
  | t :: ts, us, start => by simp [met, met_append ts us]

theorem depthAfter_left {t : Token} (h : t.kind = .leftParen) (d : Nat) :
    depthAfter d t = d + 1 := by
  simp [depthAfter, h]

theorem depthAfter_right {t : Token} (h : t.kind = .rightParen) (d : Nat) :
    depthAfter d t = d - 1 := by
  simp [depthAfter, h]

theorem depthAfter_other {t : Token} (hl : t.kind ≠ .leftParen) (hr : t.kind ≠ .rightParen)
    (d : Nat) : depthAfter d t = d := by
  unfold depthAfter
  split <;> first | contradiction | rfl

end Nesting

open Nesting

/-! ### The builder counts -/

namespace Builder

theorem Step.depth {b b' : Builder} {t : Token} (h : Step b t b') :
    b'.depth = depthAfter b.depth t ∧ ¬ Stops (b.depth, t) := by
  cases h with
  | space hk =>
    refine ⟨?_, by simp [Stops, hk]⟩
    rw [depthAfter_other (by simp [hk]) (by simp [hk])]
    rfl
  | opens hk hd =>
    refine ⟨?_, by simp [Stops, hk, hd]⟩
    rw [depthAfter_left hk]
    rfl
  | closes hk ho =>
    have hd : b.depth ≠ 0 := by simp [Builder.depth, ho]
    refine ⟨?_, by simp [Stops, hk, hd]⟩
    rw [depthAfter_right hk]
    simp [Builder.depth, ho]
  | atom ha =>
    refine ⟨?_, by simp [Stops, ha.2.1, ha.2.2]⟩
    rw [depthAfter_other ha.2.1 ha.2.2]
    rfl

/-- As long as a build goes on, its depth is the count, and no token stops
the count. -/
theorem Reads.depth_met {b b' : Builder} {ts : List Token} (h : Reads b ts b') :
    b'.depth = Nesting.depth b.depth ts ∧ ∀ p ∈ met b.depth ts, ¬ Stops p := by
  induction h with
  | nil => exact ⟨rfl, by simp [met]⟩
  | @snoc ts b' b'' t _ hs ih =>
    obtain ⟨hd, hm⟩ := ih
    obtain ⟨hd', hn⟩ := hs.depth
    rw [depth_append, met_append, hd', ← hd]
    refine ⟨rfl, fun p hp => ?_⟩
    rcases List.mem_append.1 hp with hp | hp
    · exact hm p hp
    · obtain rfl : p = (b'.depth, t) := by simpa [met] using hp
      exact hn

theorem Stop.stops {b : Builder} {t : Token} {root : Form} {ending : Ending}
    (h : Stop b t root ending) : Stops (b.depth, t) := by
  cases h with
  | strayClose hk ho => exact Or.inl ⟨hk, by simp [Builder.depth, ho]⟩
  | tooDeep hk hd => exact Or.inr ⟨hk, hd⟩

end Builder

/-! ### Open lists in the root -/

namespace Form

theorem firstOpenAmong_eq : ∀ fs : List Form, firstOpenAmong? fs = fs.findSome? firstOpen?
  | [] => rfl
  | f :: fs => by
    rw [firstOpenAmong?, List.findSome?_cons, firstOpenAmong_eq fs]
    cases f.firstOpen? <;> rfl

def AllClosed (fs : List Form) : Prop := ∀ f ∈ fs, f.firstOpen? = none

theorem firstOpenAmong_eq_none_iff {fs : List Form} :
    firstOpenAmong? fs = none ↔ AllClosed fs := by
  rw [firstOpenAmong_eq, List.findSome?_eq_none_iff]
  rfl

theorem firstOpenAmong_append_open {fs : List Form} (h : AllClosed fs) (space : List Char)
    (column : Nat) (gs : List Form) :
    firstOpenAmong? (fs ++ [list space column gs none]) = some (list space column gs none) := by
  rw [firstOpenAmong_eq, List.findSome?_append, List.findSome?_eq_none_iff.2 h]
  rfl

theorem firstOpen_closed {fs : List Form} (h : AllClosed fs) (space : List Char) (column k : Nat) :
    (list space column fs (some k)).firstOpen? = none :=
  firstOpenAmong_eq_none_iff.2 h

end Form

namespace Builder

/-- In every open list, all lists that have ended are closed. -/
def Closed (b : Builder) : Prop := ∀ l ∈ b.inner :: b.outer, Form.AllClosed l.children

theorem closed_init : Closed init := by
  intro l hl f hf
  obtain rfl : l = .root := by simpa [init] using hl
  simp [OpenList.root] at hf

theorem Closed.step {b b' : Builder} {t : Token} (h : Closed b) (hs : Step b t b') :
    Closed b' := by
  -- a form added to the innermost list is an atom or a list that has just been closed
  have add : ∀ (l : OpenList) (ls : List OpenList) (f : Form),
      (∀ m ∈ l :: ls, Form.AllClosed m.children) → f.firstOpen? = none →
      ∀ m ∈ l.add f :: ls, Form.AllClosed m.children := by
    intro l ls f hl hf m hm g hg
    rcases List.mem_cons.1 hm with rfl | hm
    · rcases List.mem_cons.1 hg with rfl | hg
      · exact hf
      · exact hl l List.mem_cons_self g hg
    · exact hl m (List.mem_cons_of_mem _ hm) g hg
  cases hs with
  | space _ => exact h
  | opens _ _ =>
    intro l hl
    rcases List.mem_cons.1 hl with rfl | hl
    · intro f hf; simp at hf
    · exact h l hl
  | closes _ ho =>
    refine add _ _ _ (fun m hm => h m (by rw [ho]; exact List.mem_cons_of_mem _ hm)) ?_
    exact Form.firstOpen_closed
      (fun f hf => h _ List.mem_cons_self f (List.mem_reverse.1 hf)) _ _ _
  | atom _ => exact add _ _ _ h rfl

theorem Reads.closed {b b' : Builder} {ts : List Token} (h : Reads b ts b') (hb : Closed b) :
    Closed b' := by
  induction h with
  | nil => exact hb
  | snoc _ hs ih => exact ih.step hs

/-- The columns of the open lists, from the inside out, without the root's. -/
def openColumns (b : Builder) : List Nat := ((b.inner :: b.outer).map (·.column)).dropLast

/-- The first open list in a finished root is the outermost one. -/
theorem firstOpen_finish {b : Builder} (h : Closed b) :
    (Form.firstOpenAmong? b.finish.children).map (·.column) = b.openColumns.getLast? := by
  unfold finish openColumns
  rcases List.eq_nil_or_concat b.outer with ho | ⟨outer, root, ho⟩
  · rw [ho, unwind]
    show (Form.firstOpenAmong? b.inner.children.reverse).map (·.column) = _
    rw [Form.firstOpenAmong_eq_none_iff.2 fun f hf => h _ List.mem_cons_self f (List.mem_reverse.1 hf)]
    rfl
  · rw [List.concat_eq_append] at ho
    obtain ⟨space, fs, hu⟩ := unwind_eq_list outer b.inner
    have hroot : Form.AllClosed root.children.reverse := fun f hf =>
      h root (by rw [ho]; simp) f (List.mem_reverse.1 hf)
    rw [ho, unwind_append, OpenList.toForm_add, hu]
    show (Form.firstOpenAmong? (_ ++ [_])).map (·.column) = _
    rw [Form.firstOpenAmong_append_open hroot, ← List.cons_append, List.map_append,
      List.map_singleton, List.dropLast_concat, List.getLast?_map,
      List.getLast?_eq_some_getLast (List.cons_ne_nil _ _)]
    rfl

/-! ### The outermost open list -/

/-- The last `(` that the tokens have at depth 0, between the others: none of
those after it is met at depth 0. -/
def LastOuter (ts : List Token) (t : Token) : Prop :=
  ∃ before after, ts = before ++ t :: after ∧ t.kind = .leftParen ∧ Nesting.depth 0 before = 0 ∧
    ∀ p ∈ met 1 after, p.1 ≠ 0

theorem LastOuter.snoc {ts : List Token} {t u : Token} (h : LastOuter ts t)
    (hd : Nesting.depth 0 ts ≠ 0) : LastOuter (ts ++ [u]) t := by
  obtain ⟨before, after, rfl, hk, hb, hm⟩ := h
  refine ⟨before, after ++ [u], by simp, hk, hb, fun p hp => ?_⟩
  rw [depth_append, hb, depth_cons, depthAfter_left hk] at hd
  rw [met_append] at hp
  rcases List.mem_append.1 hp with hp | hp
  · exact hm p hp
  · obtain rfl : p = (_, u) := by simpa [met] using hp
    exact hd

theorem length_openColumns (b : Builder) : b.openColumns.length = b.depth := by
  simp [openColumns, Builder.depth]

/-- A `(` puts its column in front of the open ones, a `)` takes the first
away, and no other token changes them. -/
theorem Step.openColumns {b b' : Builder} {t : Token} (h : Step b t b') :
    (t.kind = .leftParen ∧ b'.openColumns = t.column :: b.openColumns) ∨
      b'.openColumns = b.openColumns.tail ∨ b'.openColumns = b.openColumns := by
  cases h with
  | space _ => exact Or.inr (Or.inr rfl)
  | opens hk _ => exact Or.inl ⟨hk, rfl⟩
  | closes _ ho =>
    refine Or.inr (Or.inl ?_)
    unfold Builder.openColumns
    rw [ho]
    rfl
  | atom _ => exact Or.inr (Or.inr rfl)

/-- While a list is open, the outermost one is that of the last `(` at depth
0. -/
theorem Reads.outermost {b : Builder} {ts : List Token} (h : Reads init ts b) :
    b.openColumns ≠ [] → ∃ t, LastOuter ts t ∧ b.openColumns.getLast? = some t.column := by
  induction h with
  | nil => intro h; exact absurd rfl h
  | @snoc ts b' b'' t hr hs ih =>
    intro hne
    have hdepth : b'.openColumns.length = Nesting.depth 0 ts :=
      (length_openColumns b').trans hr.depth_met.1
    -- the list that was outermost before still is
    have keep : b'.openColumns ≠ [] → b''.openColumns.getLast? = b'.openColumns.getLast? →
        ∃ u, LastOuter (ts ++ [t]) u ∧ b''.openColumns.getLast? = some u.column := by
      intro hne' heq
      obtain ⟨u, hu, hc⟩ := ih hne'
      have hd : Nesting.depth 0 ts ≠ 0 := by
        rw [← hdepth]; exact fun h0 => hne' (List.eq_nil_of_length_eq_zero h0)
      exact ⟨u, hu.snoc hd, heq.trans hc⟩
    rcases hs.openColumns with ⟨hk, ho⟩ | ho | ho
    · by_cases h0 : b'.openColumns = []
      · refine ⟨t, ⟨ts, [], rfl, hk, ?_, by simp [met]⟩, by rw [ho, h0]; rfl⟩
        rw [← hdepth, h0]; rfl
      · exact keep h0 (by rw [ho, List.getLast?_cons_of_ne_nil h0])
    · have h1 : b'.openColumns ≠ [] := fun h0 => hne (by rw [ho, h0]; rfl)
      refine keep h1 ?_
      have hlen : b'.openColumns.length ≠ 1 := fun hl =>
        hne (by rw [ho]; exact List.eq_nil_of_length_eq_zero (by simp [hl]))
      rw [ho, List.getLast?_tail, if_neg hlen]
    · exact keep (ho ▸ hne) (by rw [ho])

end Builder

/-! ### What is wrong with a text -/

theorem stop_eq_none_iff {ts : List Token} : stop? ts = none ↔ ∀ p ∈ met 0 ts, ¬ Stops p := by
  simp [stop?]

/-- A token that cannot stand where it is met stops the count if none before
it does. -/
theorem stop_append {ts : List Token} {t : Token} (h : ∀ p ∈ met 0 ts, ¬ Stops p)
    (ht : Stops (Nesting.depth 0 ts, t)) (rest : List Token) :
    stop? (ts ++ t :: rest) = some t := by
  have hnone : (met 0 ts).find? Stops = none :=
    List.find?_eq_none.2 fun p hp => by simpa using h p hp
  rw [stop?, met_append, List.find?_append, hnone, met]
  simp [ht]

/-- A build from the start either reads all tokens, and no token stops the
count, or it reads the tokens before the one that does, and ends at that. -/
theorem ofTokens_reads (ts : List Token) :
    (stop? ts = none ∧ ∃ b, Builder.Reads .init ts b ∧
        Built.ofTokens ts = ⟨b.finish, .endOfTokens, []⟩) ∨
      ∃ before t rest b root ending, ts = before ++ t :: rest ∧ stop? ts = some t ∧
        Builder.Reads .init before b ∧ Builder.Stop b t root ending ∧
        Built.ofTokens ts = ⟨root, ending, rest⟩ := by
  rcases Builder.run_cases ts .init with
    ⟨b, hr, h⟩ | ⟨before, t, rest, b, root, ending, rfl, hr, hs, h⟩
  · exact Or.inl ⟨stop_eq_none_iff.2 hr.depth_met.2, b, hr, h⟩
  · obtain ⟨hd, hm⟩ := hr.depth_met
    have hstop : stop? (before ++ t :: rest) = some t := stop_append hm (hd ▸ hs.stops) rest
    exact Or.inr ⟨before, t, rest, b, root, ending, rfl, hstop, hr, hs, h⟩

theorem ofTokens_cases (ts : List Token) :
    (stop? ts = none ∧ ∃ b, Builder.Reads .init ts b ∧
        Built.ofTokens ts = ⟨b.finish, .endOfTokens, []⟩) ∨
      ∃ t, stop? ts = some t ∧
        ((t.kind = .rightParen ∧ (Built.ofTokens ts).ending = .strayClose t.column) ∨
          (t.kind = .leftParen ∧ (Built.ofTokens ts).ending = .tooDeep t.column)) := by
  rcases ofTokens_reads ts with h | ⟨before, t, rest, b, root, ending, -, hstop, -, hs, hbuilt⟩
  · exact Or.inl h
  · refine Or.inr ⟨t, hstop, ?_⟩
    rw [hbuilt]
    cases hs with
    | strayClose hk _ => exact Or.inl ⟨hk, rfl⟩
    | tooDeep hk _ => exact Or.inr ⟨hk, rfl⟩

/-- A build ends at a stray `)` if and only if its root is closed, by that
`)`. -/
theorem ending_strayClose_iff (ts : List Token) (column : Nat) :
    (Built.ofTokens ts).ending = .strayClose column ↔
      (Built.ofTokens ts).root.closing = some column := by
  rcases ofTokens_reads ts with ⟨-, b, -, hbuilt⟩ | ⟨_, t, _, b, _, _, -, -, -, hs, hbuilt⟩
  · rw [hbuilt, Builder.closing_finish]
    simp
  · rw [hbuilt]
    cases hs with
    | strayClose _ _ => simp
    | tooDeep _ _ => simp [Builder.closing_finish]

theorem fault_of_terminated {ts : List Token} (h : ∀ t ∈ ts, t.kind ≠ .unterminated) :
    fault? ts = (Built.ofTokens ts).fault? := by
  have hf : ts.find? (·.kind = .unterminated) = none :=
    List.find?_eq_none.2 fun t ht => by simpa using h t ht
  rw [fault?, hf]

theorem fault_of_unterminated {text : List Char} {t : Token} (ht : t ∈ tokenize text)
    (hk : t.kind = .unterminated) :
    fault? (tokenize text) = some (.unterminatedLiteral t.column) := by
  have hne : tokenize text ≠ [] := List.ne_nil_of_mem ht
  have hdrop := kind_ne_unterminated text
  have hlast : (tokenize text).getLast hne = t := by
    rw [← List.dropLast_concat_getLast hne, List.mem_append, List.mem_singleton] at ht
    rcases ht with ht | ht
    · exact absurd hk (hdrop t ht)
    · exact ht.symm
  have hnone : (tokenize text).dropLast.find? (·.kind = .unterminated) = none :=
    List.find?_eq_none.2 fun u hu => by simpa using hdrop u hu
  have hfind : (tokenize text).find? (·.kind = .unterminated) = some t := by
    rw [← List.dropLast_concat_getLast hne, List.find?_append, hnone, hlast]
    simp [hk]
  rw [fault?, hfind]

theorem fault_of_stop {ts : List Token} {t : Token} (h : stop? ts = some t) :
    (t.kind = .rightParen ∧ (Built.ofTokens ts).fault? = some (.strayClose t.column)) ∨
      (t.kind = .leftParen ∧ (Built.ofTokens ts).fault? = some (.tooDeep t.column)) := by
  rcases ofTokens_cases ts with ⟨hn, -⟩ | ⟨u, hu, he⟩
  · rw [hn] at h; cases h
  · obtain rfl : u = t := Option.some.inj (hu.symm.trans h)
    rcases he with ⟨hk, he⟩ | ⟨hk, he⟩
    · exact Or.inl ⟨hk, by rw [Built.fault?, he]⟩
    · exact Or.inr ⟨hk, by rw [Built.fault?, he]⟩

/-- With nothing to stop the count, what is wrong is the outermost list open
in the end, if there is one. -/
theorem fault_of_no_stop {ts : List Token} (h : stop? ts = none) :
    ∃ b, Builder.Reads .init ts b ∧ b.openColumns.length = depth 0 ts ∧
      (Built.ofTokens ts).fault? = b.openColumns.getLast?.map .unclosedList := by
  rcases ofTokens_cases ts with ⟨-, b, hr, hb⟩ | ⟨t, ht, -⟩
  · refine ⟨b, hr, (Builder.length_openColumns b).trans hr.depth_met.1, ?_⟩
    rw [← Builder.firstOpen_finish (hr.closed Builder.closed_init), hb, Built.fault?,
      Option.map_map]
    rfl
  · rw [h] at ht; cases ht

theorem fault_of_unclosed {ts : List Token} (h : stop? ts = none) (hd : 0 < depth 0 ts) :
    ∃ t, Builder.LastOuter ts t ∧ (Built.ofTokens ts).fault? = some (.unclosedList t.column) := by
  obtain ⟨b, hr, hlen, hf⟩ := fault_of_no_stop h
  have hne : b.openColumns ≠ [] := List.ne_nil_of_length_pos (hlen ▸ hd)
  obtain ⟨t, ht, hc⟩ := hr.outermost hne
  exact ⟨t, ht, by rw [hf, hc]; rfl⟩

theorem fault_of_balanced {ts : List Token} (h : stop? ts = none) (hd : depth 0 ts = 0) :
    (Built.ofTokens ts).fault? = none := by
  obtain ⟨b, -, hlen, hf⟩ := fault_of_no_stop h
  rw [hf, List.eq_nil_of_length_eq_zero (hlen.trans hd)]
  rfl

theorem parse_of_fault {text : List Char} {e : StructureError}
    (h : fault? (tokenize text) = some e) : parse text = .error e := by
  rw [parse, h]

theorem parse_of_no_fault {text : List Char} (h : fault? (tokenize text) = none) :
    parse text = .ok (build (tokenize text)) := by
  rw [parse, h]

theorem fault_of_parse {text : List Char} {e : StructureError} (h : parse text = .error e) :
    fault? (tokenize text) = some e := by
  cases hf : fault? (tokenize text) with
  | none => rw [parse_of_no_fault hf] at h; cases h
  | some e' => rw [parse_of_fault hf] at h; cases h; rfl

theorem no_fault_of_parse {text : List Char} {root : Form} (h : parse text = .ok root) :
    fault? (tokenize text) = none ∧ root = build (tokenize text) := by
  cases hf : fault? (tokenize text) with
  | none => rw [parse_of_no_fault hf] at h; cases h; exact ⟨rfl, rfl⟩
  | some e => rw [parse_of_fault hf] at h; cases h

/-- **The structure of a text is told by counting its parentheses.** A
literal left open is the fault, wherever it is. Without one, the fault is the
first parenthesis that cannot stand where it is met; if there is none, the
last `(` met at depth 0, provided the depth in the end is not 0; and a text
without a fault has the forms and the verdict that the lenient reading gives
it. -/
theorem parse_by_depth (text : List Char) :
    (∀ t ∈ tokenize text, t.kind = .unterminated →
        parse text = .error (.unterminatedLiteral t.column)) ∧
      ((∀ t ∈ tokenize text, t.kind ≠ .unterminated) →
        (∀ t, stop? (tokenize text) = some t →
          (t.kind = .rightParen ∧ parse text = .error (.strayClose t.column)) ∨
            (t.kind = .leftParen ∧ parse text = .error (.tooDeep t.column))) ∧
        (stop? (tokenize text) = none → 0 < depth 0 (tokenize text) →
          ∃ t, Builder.LastOuter (tokenize text) t ∧
            parse text = .error (.unclosedList t.column)) ∧
        (stop? (tokenize text) = none → depth 0 (tokenize text) = 0 →
          parse text = .ok (build (tokenize text)) ∧
            Verdict.strict text = .ok (Verdict.lenient text))) := by
  refine ⟨fun t ht hk => parse_of_fault (fault_of_unterminated ht hk), fun hterm => ?_⟩
  have hfault := fault_of_terminated hterm
  refine ⟨fun t ht => ?_, fun hn hd => ?_, fun hn hd => ?_⟩
  · rcases fault_of_stop ht with ⟨hk, hf⟩ | ⟨hk, hf⟩
    · exact Or.inl ⟨hk, parse_of_fault (hfault.trans hf)⟩
    · exact Or.inr ⟨hk, parse_of_fault (hfault.trans hf)⟩
  · obtain ⟨t, ht, hf⟩ := fault_of_unclosed hn hd
    exact ⟨t, ht, parse_of_fault (hfault.trans hf)⟩
  · have hp : parse text = .ok (build (tokenize text)) := by
      rw [parse, hfault, fault_of_balanced hn hd]
    exact ⟨hp, by rw [Verdict.strict, hp]; rfl⟩

end ParenLint
