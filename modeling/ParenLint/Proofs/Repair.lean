/-
# Faults that can be repaired and faults that cannot

A text that is not well structured may become so when it goes on: a list that
is open can be closed, and so can a literal. A parenthesis that cannot stand
where it is met stays where it is. So a text can be continued to a
well-structured one exactly if, counted over its tokens, no more lists are
ever closed than opened and no more than `maxDepth` are open at once.

Only parentheses matter to the count (`Nesting.parens`), and going on with a
text keeps those it has (`Extends.parens`). This gives the one direction: what
stops the count stops it in every longer text, so the fault stays, unless a
literal that is left open is reported in its place. For the other direction
`completion` is what to put behind a text: what ends the literal or comment
the text ends in, which adds no parenthesis, and as many `)` as lists are
open.

Key definitions: `Nesting.balance`, `Nesting.parens`, `Nesting.stopError`,
`Region.leave`, `completion`.
Key theorems: `Nesting.stop_eq_none_iff_balance`, `Extends.stop`,
`parse_completion`, `structure_faults_split`.
-/
import ParenLint.Proofs.Growth
import ParenLint.Proofs.Lexical
import ParenLint.Proofs.Nesting
import ParenLint.Proofs.Region

namespace ParenLint

/-! ### The running depth -/

namespace Nesting

def weight (t : Token) : Int :=
  match t.kind with
  | .leftParen => 1
  | .rightParen => -1
  | _ => 0

/-- How many `(` the tokens have, less the `)`. -/
def balance : List Token → Int
  | [] => 0
  | t :: ts => weight t + balance ts

@[simp] theorem balance_nil : balance [] = 0 := rfl

@[simp] theorem balance_cons (t : Token) (ts : List Token) :
    balance (t :: ts) = weight t + balance ts := rfl

/-- A token cannot stand where it is met if the depth would leave its bounds. -/
theorem not_stops_iff {d : Nat} (hd : d ≤ maxDepth) (t : Token) :
    ¬ Stops (d, t) ↔ 0 ≤ (d : Int) + weight t ∧ (d : Int) + weight t ≤ maxDepth := by
  unfold Stops weight
  cases t.kind <;> simp <;> omega

theorem cast_depthAfter {d : Nat} {t : Token} (h : ¬ Stops (d, t)) :
    (depthAfter d t : Int) = d + weight t := by
  unfold Stops at h
  unfold depthAfter weight
  cases hk : t.kind with
  | rightParen =>
    have hd : d ≠ 0 := fun h0 => h (Or.inl ⟨hk, h0⟩)
    show ((d - 1 : Nat) : Int) = d + -1
    omega
  | leftParen => simp
  | _ => simp

/-- No token stops the count from depth `d` exactly if the depth stays within
its bounds after every beginning of the tokens. -/
theorem forall_met_iff : ∀ (ts : List Token) {d : Nat}, d ≤ maxDepth →
    ((∀ p ∈ met d ts, ¬ Stops p) ↔
      ∀ us, us <+: ts → 0 ≤ (d : Int) + balance us ∧ (d : Int) + balance us ≤ maxDepth)
  | [], d, hd => by
    have hd' : (d : Int) ≤ maxDepth := by exact_mod_cast hd
    simp [met, hd']
  | t :: ts, d, hd => by
    have hnil : 0 ≤ (d : Int) + balance [] ∧ (d : Int) + balance [] ≤ maxDepth := by
      have hd' : (d : Int) ≤ maxDepth := by exact_mod_cast hd
      simpa using hd'
    constructor
    · intro h us hus
      have ht : ¬ Stops (d, t) := h _ List.mem_cons_self
      have hbound := (not_stops_iff hd t).1 ht
      have hcast := cast_depthAfter ht
      have hd' : depthAfter d t ≤ maxDepth := by omega
      have ih := (forall_met_iff ts hd').1 fun p hp => h p (List.mem_cons_of_mem _ hp)
      rcases List.prefix_cons_iff.1 hus with rfl | ⟨vs, rfl, hvs⟩
      · exact hnil
      · have hvs' := ih vs hvs
        rw [balance_cons]
        omega
    · intro h
      have hone := h [t] (List.prefix_append [t] ts)
      rw [balance_cons, balance_nil, Int.add_zero] at hone
      have ht : ¬ Stops (d, t) := (not_stops_iff hd t).2 hone
      have hcast := cast_depthAfter ht
      have hd' : depthAfter d t ≤ maxDepth := by omega
      have ih := (forall_met_iff ts hd').2 fun us hus => by
        have hcons := h (t :: us) (List.cons_prefix_cons.2 ⟨rfl, hus⟩)
        rw [balance_cons] at hcons
        omega
      exact List.forall_mem_cons.2 ⟨ht, ih⟩

/-- The count is not stopped exactly if the running depth is never below 0 and
never above `maxDepth`. -/
theorem stop_eq_none_iff_balance (ts : List Token) :
    stop? ts = none ↔ ∀ us, us <+: ts → 0 ≤ balance us ∧ balance us ≤ maxDepth := by
  rw [stop_eq_none_iff, forall_met_iff ts (Nat.zero_le _)]
  simp

/-! ### Parentheses alone -/

def isParen (t : Token) : Bool := t.kind = .leftParen ∨ t.kind = .rightParen

def parens (ts : List Token) : List Token := ts.filter isParen

theorem parens_append (ts us : List Token) : parens (ts ++ us) = parens ts ++ parens us :=
  List.filter_append ts us

theorem parens_cons (t : Token) (ts : List Token) :
    parens (t :: ts) = if isParen t then t :: parens ts else parens ts :=
  List.filter_cons

theorem parens_singleton {t : Token} (h : isParen t = false) : parens [t] = [] := by
  simp [parens, h]

theorem isParen_of_stops {d : Nat} {t : Token} (h : Stops (d, t)) : isParen t = true := by
  unfold isParen
  rcases h with ⟨hk, -⟩ | ⟨hk, -⟩
  · exact decide_eq_true (Or.inr hk)
  · exact decide_eq_true (Or.inl hk)

theorem depthAfter_of_not_isParen {t : Token} (h : ¬ isParen t = true) (d : Nat) :
    depthAfter d t = d := by
  unfold isParen at h
  rw [decide_eq_true_eq, not_or] at h
  exact depthAfter_other h.1 h.2 d

theorem met_parens : ∀ (ts : List Token) (d : Nat),
    met d (parens ts) = (met d ts).filter fun p => isParen p.2
  | [], _ => rfl
  | t :: ts, d => by
    rw [parens_cons, met, List.filter_cons]
    by_cases h : isParen t = true
    · rw [if_pos h, if_pos h, met, met_parens ts]
    · rw [if_neg h, if_neg h, depthAfter_of_not_isParen h, met_parens ts]

/-- Only parentheses can stop the count. -/
theorem stop_parens (ts : List Token) : stop? (parens ts) = stop? ts := by
  have hand : (fun p : Nat × Token => decide (isParen p.2 = true ∧ decide (Stops p) = true)) =
      fun p => decide (Stops p) := by
    funext p
    by_cases h : Stops p
    · simp [h, isParen_of_stops (d := p.1) (t := p.2) h]
    · simp [h]
  rw [stop?, met_parens, List.find?_filter, hand, stop?]

theorem depth_parens : ∀ (ts : List Token) (d : Nat), depth d (parens ts) = depth d ts
  | [], _ => rfl
  | t :: ts, d => by
    rw [parens_cons, depth_cons]
    by_cases h : isParen t = true
    · rw [if_pos h, depth_cons, depth_parens ts]
    · rw [if_neg h, depthAfter_of_not_isParen h, depth_parens ts]

theorem stop_of_isPrefix {ts us : List Token} (h : ts <+: us) {t : Token}
    (ht : stop? ts = some t) : stop? us = some t := by
  obtain ⟨more, rfl⟩ := h
  obtain ⟨p, hp, rfl⟩ := Option.map_eq_some_iff.1 ht
  rw [stop?, met_append, List.find?_append, hp]
  rfl

end Nesting

open Nesting Region

theorem Token.Grows.parens_isPrefix {t t' : Token} (h : t.Grows t') (us : List Token) :
    parens [t] <+: parens (t' :: us) := by
  rcases h.cases with rfl | ⟨hs, -⟩ | ⟨ha, -⟩
  · exact (List.prefix_append [t'] us).filter _
  · rw [parens_singleton (by simp [isParen, hs])]
    exact List.nil_prefix
  · rw [parens_singleton (by simp [isParen, ha.2.1, ha.2.2])]
    exact List.nil_prefix

/-- A text that goes on keeps its parentheses. -/
theorem Extends.parens {ts us : List Token} (h : Extends ts us) :
    Nesting.parens ts <+: Nesting.parens us := by
  induction h with
  | nil us => exact List.nil_prefix
  | last us hg => exact hg.parens_isPrefix us
  | cons t _ ih =>
    rw [parens_cons, parens_cons]
    by_cases hp : isParen t = true
    · rw [if_pos hp, if_pos hp]
      exact List.cons_prefix_cons.2 ⟨rfl, ih⟩
    · rw [if_neg hp, if_neg hp]
      exact ih

theorem Extends.stop {ts us : List Token} (h : Extends ts us) {t : Token}
    (ht : stop? ts = some t) : stop? us = some t := by
  rw [← stop_parens] at ht ⊢
  exact stop_of_isPrefix h.parens ht

/-! ### What is reported -/

/-- The fault that a token is at which the count stops. -/
def Nesting.stopError (t : Token) : StructureError :=
  if t.kind = .leftParen then .tooDeep t.column else .strayClose t.column

/-- A literal left open is reported before anything else. -/
theorem parse_of_unterminated {text : List Char}
    (h : ¬ ∀ t ∈ tokenize text, t.kind ≠ .unterminated) :
    ∃ j, parse text = .error (.unterminatedLiteral j) := by
  push Not at h
  obtain ⟨t, ht, hk⟩ := h
  exact ⟨t.column, parse_of_fault (fault_of_unterminated ht hk)⟩

/-- If the count stops, that is the fault, unless a literal is left open. -/
theorem parse_of_stop {text : List Char} {t : Token} (h : stop? (tokenize text) = some t) :
    (∃ j, parse text = .error (.unterminatedLiteral j)) ∨ parse text = .error (stopError t) := by
  by_cases hterm : ∀ t ∈ tokenize text, t.kind ≠ .unterminated
  · right
    apply parse_of_fault
    rw [fault_of_terminated hterm]
    rcases fault_of_stop h with ⟨hk, hf⟩ | ⟨hk, hf⟩
    · rw [hf, stopError, if_neg (by simp [hk])]
    · rw [hf, stopError, if_pos hk]
  · exact Or.inl (parse_of_unterminated hterm)

/-- No literal is left open among the tokens, nothing stops their count and no
list is open after them. -/
structure Balanced (ts : List Token) : Prop where
  terminated : ∀ t ∈ ts, t.kind ≠ .unterminated
  unstopped : stop? ts = none
  depth : depth 0 ts = 0

theorem parse_of_balanced {text : List Char} (h : Balanced (tokenize text)) :
    parse text = .ok (build (tokenize text)) := by
  rw [parse, fault_of_terminated h.terminated, fault_of_balanced h.unstopped h.depth]

theorem parse_of_no_stop {text : List Char} (h : stop? (tokenize text) = none) :
    (∃ j, parse text = .error (.unterminatedLiteral j)) ∨
      (∃ j, parse text = .error (.unclosedList j)) ∨ ∃ root, parse text = .ok root := by
  by_cases hterm : ∀ t ∈ tokenize text, t.kind ≠ .unterminated
  · right
    by_cases hd : depth 0 (tokenize text) = 0
    · exact Or.inr ⟨_, parse_of_balanced ⟨hterm, h, hd⟩⟩
    · obtain ⟨t, -, hf⟩ := fault_of_unclosed h (Nat.pos_of_ne_zero hd)
      exact Or.inl ⟨t.column, parse_of_fault ((fault_of_terminated hterm).trans hf)⟩
  · exact Or.inl (parse_of_unterminated hterm)

theorem stop_of_parse {text : List Char} {e : StructureError} (h : parse text = .error e)
    (hl : ∀ j, e ≠ .unterminatedLiteral j) (ho : ∀ j, e ≠ .unclosedList j) :
    ∃ t, stop? (tokenize text) = some t ∧ stopError t = e := by
  cases hs : stop? (tokenize text) with
  | none =>
    rcases parse_of_no_stop hs with ⟨j, hp⟩ | ⟨j, hp⟩ | ⟨root, hp⟩
    · rw [hp] at h
      exact absurd (Except.error.inj h).symm (hl j)
    · rw [hp] at h
      exact absurd (Except.error.inj h).symm (ho j)
    · rw [hp] at h
      cases h
  | some t =>
    refine ⟨t, rfl, ?_⟩
    rcases parse_of_stop hs with ⟨j, hp⟩ | hp
    · rw [hp] at h
      exact absurd (Except.error.inj h).symm (hl j)
    · rw [hp] at h
      exact Except.error.inj h

theorem no_stop_of_parse {text : List Char}
    (h : (∃ root, parse text = .ok root) ∨ ∃ j, parse text = .error (.unclosedList j)) :
    stop? (tokenize text) = none := by
  cases hs : stop? (tokenize text) with
  | none => rfl
  | some t =>
    have hne : ∀ j, stopError t ≠ .unclosedList j := by
      intro j
      unfold stopError
      split <;> simp
    obtain ⟨e, he, hopen⟩ : ∃ e, parse text = .error e ∧ ∀ j, e ≠ .unclosedList j := by
      rcases parse_of_stop hs with ⟨i, hp⟩ | hp
      · exact ⟨_, hp, by simp⟩
      · exact ⟨_, hp, hne⟩
    rcases h with ⟨root, h⟩ | ⟨j, h⟩
    · rw [h] at he
      cases he
    · rw [h] at he
      exact absurd (Except.error.inj he).symm (hopen j)

theorem balanced_of_parse {text : List Char} {root : Form} (h : parse text = .ok root) :
    Balanced (tokenize text) ∧ root = build (tokenize text) := by
  obtain ⟨hfault, hroot⟩ := no_fault_of_parse h
  have hstop : stop? (tokenize text) = none := no_stop_of_parse (Or.inl ⟨root, h⟩)
  have hterm : ∀ t ∈ tokenize text, t.kind ≠ .unterminated := by
    intro t ht hk
    rw [fault_of_unterminated ht hk] at hfault
    cases hfault
  refine ⟨⟨hterm, hstop, Nat.eq_zero_of_not_pos fun hd => ?_⟩, hroot⟩
  obtain ⟨t, -, hopen⟩ := fault_of_unclosed hstop hd
  rw [fault_of_terminated hterm, hopen] at hfault
  cases hfault

theorem parse_append_of_stop {text : List Char} {e : StructureError} (h : parse text = .error e)
    (hl : ∀ j, e ≠ .unterminatedLiteral j) (ho : ∀ j, e ≠ .unclosedList j) (more : List Char) :
    parse (text ++ more) = .error e ∨
      ∃ j, parse (text ++ more) = .error (.unterminatedLiteral j) := by
  obtain ⟨t, ht, rfl⟩ := stop_of_parse h hl ho
  exact (parse_of_stop ((tokenize_extends text more).stop ht)).symm

/-! ### Completing a text -/

namespace Region

/-- What leads out of a literal or a comment. -/
def leave : Region → List Char
  | code => []
  | literal => ['"']
  | escape => ['"', '"']
  | comment => ['\n']

theorem after_leave (r : Region) : r.after r.leave = .code := by
  cases r <;> rfl

theorem not_parenKind_of_mem_leave {r : Region} {c : Char} (h : c ∈ r.leave)
    (kind : Token.Kind) : ¬ ParenKind c kind := by
  rintro (_ | _) <;> cases r <;> simp [leave] at h

end Region

/-- What to put behind a text to make it well structured: what ends the
literal or comment it ends in, and a `)` for every list that is open. -/
def completion (text : List Char) : List Char :=
  (after .code text).leave ++ List.replicate (depth 0 (tokenize text)) ')'

namespace Scanner

theorem parens_close (s : Scanner) (kind : Token.Kind) :
    parens (inOrder (s.close kind).done) =
      parens (inOrder s.done) ++ parens [⟨kind, s.taken.reverse, s.mark⟩] := by
  rw [close_done, inOrder_cons, parens_append]

theorem parens_finish (s : Scanner) : parens (inOrder s.finish.done) = parens (inOrder s.done) := by
  rw [finish_eq]
  split
  · rfl
  · rw [parens_close, parens_singleton, List.append_nil]
    rcases s.mode.kind_open with h | h | h <;> simp [isParen, h]

theorem parens_turnTo (s : Scanner) (mode : Mode) :
    parens (inOrder (s.turnTo mode).done) = parens (inOrder s.done) :=
  turnTo_ind (P := fun u => parens (inOrder u.done) = parens (inOrder s.done)) mode rfl
    (parens_finish s)

theorem parens_tokens (s : Scanner) : parens s.tokens = parens (inOrder s.done) :=
  parens_finish s

theorem Move.parens {s s' : Scanner} {c : Char} (h : Move s c s')
    (hc : ∀ kind, ¬ ParenKind c kind) :
    Nesting.parens (inOrder s'.done) = Nesting.parens (inOrder s.done) := by
  cases h with
  | blank _ _ => exact parens_turnTo s .gap
  | semicolon _ _ => exact parens_turnTo s .gap
  | paren _ hk => exact absurd hk (hc _)
  | quote _ _ => exact parens_finish s
  | atom _ _ => exact parens_turnTo s .atom
  | unquote _ _ => rw [parens_close, parens_singleton rfl, List.append_nil]; rfl
  | lineEnd _ _ => rfl
  | skip _ _ => rfl
  | backslash _ _ => rfl
  | plain _ _ _ => rfl
  | escaped _ => rfl

theorem parens_run_of_none : ∀ (cs : List Char) (s : Scanner),
    (∀ c ∈ cs, ∀ kind, ¬ ParenKind c kind) →
    parens (inOrder (s.run cs).done) = parens (inOrder s.done)
  | [], _, _ => rfl
  | c :: cs, s, h => by
    have hstep := (move_step s c).parens (h c List.mem_cons_self)
    rw [run_cons, parens_run_of_none cs _ fun d hd => h d (List.mem_cons_of_mem _ hd), hstep]

/-- In code every `)` is a token by itself. -/
theorem parens_run_closes : ∀ (n : Nat) (s : Scanner), s.InCode →
    ∃ closes, closes.length = n ∧ (∀ t ∈ closes, t.kind = .rightParen) ∧
      parens (inOrder (s.run (List.replicate n ')')).done) = parens (inOrder s.done) ++ closes
  | 0, _, _ => ⟨[], rfl, by simp, by simp⟩
  | n + 1, s, h => by
    have hstep : s.step ')' = (s.finish.take .gap (Column.advance s.column ')') ')').close
        .rightParen := step_paren h .right
    have hcode : (s.step ')').InCode := by rw [hstep]; exact Or.inl rfl
    obtain ⟨closes, hlen, hk, hp⟩ := parens_run_closes n (s.step ')') hcode
    refine ⟨⟨.rightParen, [')'], s.finish.mark⟩ :: closes, by simp [hlen], by simpa using hk, ?_⟩
    have hone : parens (inOrder (s.step ')').done) =
        parens (inOrder s.done) ++ [⟨.rightParen, [')'], s.finish.mark⟩] := by
      rw [hstep, parens_close]
      show parens (inOrder s.finish.done) ++ parens [_] = _
      rw [parens_finish, take_taken, finish_taken]
      rfl
    rw [List.replicate_succ, run_cons, hp, hone, List.append_assoc]
    rfl

end Scanner

/-- As many `)` as lists are open close them all. -/
theorem Nesting.closes_depth : ∀ (closes : List Token) (d : Nat),
    (∀ t ∈ closes, t.kind = .rightParen) → closes.length ≤ d →
    (∀ p ∈ met d closes, ¬ Stops p) ∧ depth d closes = d - closes.length
  | [], _, _, _ => by simp [met]
  | t :: closes, d, hk, hlen => by
    have ht : t.kind = .rightParen := hk t List.mem_cons_self
    rw [List.length_cons] at hlen
    have hd : d ≠ 0 := by omega
    obtain ⟨hm, he⟩ := closes_depth closes (d - 1)
      (fun u hu => hk u (List.mem_cons_of_mem _ hu)) (by omega)
    rw [depth_cons, met, depthAfter_right ht]
    refine ⟨List.forall_mem_cons.2 ⟨by simp [Stops, ht, hd], hm⟩, ?_⟩
    rw [he, List.length_cons]
    omega

/-- The completed text has the parentheses it had and a `)` for every open
list. -/
theorem parens_completion (text : List Char) :
    ∃ closes, closes.length = depth 0 (tokenize text) ∧ (∀ t ∈ closes, t.kind = .rightParen) ∧
      parens (tokenize (text ++ completion text)) = parens (tokenize text) ++ closes := by
  set s := Scanner.init.run text with hs
  set leave := (after .code text).leave with hleave
  have hregion : (s.run leave).mode.region = .code := by
    rw [hs, ← Scanner.run_append, Scanner.region_run, after_append, hleave, after_leave]
  obtain ⟨closes, hlen, hk, hp⟩ := Scanner.parens_run_closes (depth 0 (tokenize text))
    (s.run leave) (Scanner.inCode_of_region hregion)
  refine ⟨closes, hlen, hk, ?_⟩
  have hnone := Scanner.parens_run_of_none leave s fun c hc => not_parenKind_of_mem_leave hc
  rw [← Scanner.tokens_run, ← Scanner.tokens_run, Scanner.parens_tokens, Scanner.parens_tokens,
    Scanner.run_append, completion, Scanner.run_append, ← hs, ← hleave, hp, hnone]

theorem after_completion (text : List Char) : after .code (text ++ completion text) = .code := by
  have hcloses : ∀ n, after .code (List.replicate n ')') = .code := by
    intro n
    induction n with
    | zero => rfl
    | succ n ih => exact ih
  rw [completion, after_append, after_append, after_leave, hcloses]

/-- A text in which nothing stops the count is well structured once it is
completed. -/
theorem parse_completion {text : List Char} (h : stop? (tokenize text) = none) :
    ∃ root, parse (text ++ completion text) = .ok root := by
  set whole := text ++ completion text with hwhole
  obtain ⟨closes, hlen, hk, hp⟩ := parens_completion text
  obtain ⟨hm, hd⟩ := closes_depth closes (depth 0 (tokenize text)) hk hlen.le
  have hstop : stop? (tokenize whole) = none := by
    rw [← stop_parens, stop_eq_none_iff] at h
    rw [← stop_parens, hp, stop_eq_none_iff, met_append, depth_parens]
    exact List.forall_mem_append.2 ⟨h, hm⟩
  have hdepth : depth 0 (tokenize whole) = 0 := by
    rw [← depth_parens, hp, depth_append, depth_parens, hd, hlen, Nat.sub_self]
  have hterm : ∀ t ∈ tokenize whole, t.kind ≠ .unterminated := by
    rw [terminated_iff, hwhole, after_completion]
    decide
  exact ⟨_, parse_of_balanced ⟨hterm, hstop, hdepth⟩⟩

/-- **Faults are final or can be repaired.** A text can be continued to a
well-structured one exactly if its running depth is never below 0 and never
above `maxDepth`. A `)` with no partner and a list nested too deep stay the
fault of every longer text, but for a literal left open; a list that is not
closed can be closed. -/
theorem structure_faults_split (text : List Char) :
    ((∃ more root, parse (text ++ more) = .ok root) ↔
        ∀ us, us <+: tokenize text → 0 ≤ balance us ∧ balance us ≤ maxDepth) ∧
      (∀ i more, parse text = .error (.strayClose i) →
        parse (text ++ more) = .error (.strayClose i) ∨
          ∃ j, parse (text ++ more) = .error (.unterminatedLiteral j)) ∧
      (∀ i more, parse text = .error (.tooDeep i) →
        parse (text ++ more) = .error (.tooDeep i) ∨
          ∃ j, parse (text ++ more) = .error (.unterminatedLiteral j)) ∧
      ∀ i, parse text = .error (.unclosedList i) →
        ∃ more root, parse (text ++ more) = .ok root := by
  refine ⟨⟨?_, fun h => ?_⟩, fun i more h => ?_, fun i more h => ?_, fun i h => ?_⟩
  · rintro ⟨more, root, h⟩
    rw [← stop_eq_none_iff_balance]
    have hwhole : stop? (tokenize (text ++ more)) = none := no_stop_of_parse (Or.inl ⟨root, h⟩)
    cases hs : stop? (tokenize text) with
    | none => rfl
    | some t =>
      rw [(tokenize_extends text more).stop hs] at hwhole
      cases hwhole
  · exact ⟨completion text, parse_completion ((stop_eq_none_iff_balance _).2 h)⟩
  · exact parse_append_of_stop h (by simp) (by simp) more
  · exact parse_append_of_stop h (by simp) (by simp) more
  · exact ⟨completion text, parse_completion (no_stop_of_parse (Or.inr ⟨i, h⟩))⟩

/-- A stray `)` stays the fault, or a literal left open after it is reported;
two open lists can be closed. -/
theorem structure_faults_split_both :
    parse ['a', ')'] = .error (.strayClose 1) ∧
      (parse (['a', ')'] ++ ['"']) = .error (.strayClose 1) ∨
        ∃ j, parse (['a', ')'] ++ ['"']) = .error (.unterminatedLiteral j)) ∧
      parse ['(', '(', 'a'] = .error (.unclosedList 0) ∧
      ∃ more root, parse (['(', '(', 'a'] ++ more) = .ok root := by
  have hstray : parse ['a', ')'] = .error (.strayClose 1) := rfl
  have hopen : parse ['(', '(', 'a'] = .error (.unclosedList 0) := rfl
  refine ⟨hstray, ?_, hopen, ?_⟩
  · exact (structure_faults_split ['a', ')']).2.1 1 ['"'] hstray
  · exact (structure_faults_split ['(', '(', 'a']).2.2.2 0 hopen

end ParenLint
