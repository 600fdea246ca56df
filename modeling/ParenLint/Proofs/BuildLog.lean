/-
# The log of a build

What a build leaves in the log can be read off its root. Every list in the
root has an entry with its size and its closing, and one more if it was left
open; a list comes after the lists in it, and the root comes last
(`Form.lists`, `Log.ofListEnd`). Only a `(` that would open a list too deep is
not in the root. Its entry stands behind those of all lists that a `)` closed,
and right before those of the lists that it leaves open.

While a build goes on, its log is that of the lists that have ended, which can
still be found in the open lists in the order in which they ended
(`Builder.Reads.lists`). In the end the open lists end as well, without a
closing and from the inside out (`Builder.innerLists_finish`,
`Log.ofFinish_eq`). The entries of reading the tokens come in between if the
build asks for one token at a time, and are of another stage
(`Log.filter_ofRunFrom`).

Key definitions: `Form.lists`, `Form.innerLists`, `Log.ofListEnd`,
`Builder.lists`, `Builder.leftOpen`.
Key theorems: `Builder.Step.lists`, `Builder.Reads.lists`,
`Builder.innerLists_finish`, `Log.ofFinish_eq`, `ofBuild_by_lists`.
-/
import ParenLint.Log
import ParenLint.Proofs.Nesting
import Mathlib.Data.List.Chain

namespace ParenLint

/-! ### Lists in the order of their ends -/

namespace Form

mutual

/-- The lists in a form, in the order of their ends: a list after the lists in
it. -/
def lists : Form → List Form
  | atom _ _ _ => []
  | list space column children closing => listsAll children ++ [list space column children closing]

def listsAll : List Form → List Form
  | [] => []
  | f :: fs => lists f ++ listsAll fs

end

/-- The lists in a root, without the root itself. -/
def innerLists (root : Form) : List Form := listsAll root.children

theorem listsAll_append : ∀ fs gs : List Form, listsAll (fs ++ gs) = listsAll fs ++ listsAll gs
  | [], _ => rfl
  | f :: fs, gs => by
    rw [List.cons_append, listsAll, listsAll, listsAll_append fs gs, List.append_assoc]

theorem listsAll_singleton (f : Form) : listsAll [f] = lists f := List.append_nil _

end Form

open Form Nesting

def OpenList.lists (l : OpenList) : List Form := listsAll l.children.reverse

theorem OpenList.lists_add (l : OpenList) (f : Form) : (l.add f).lists = l.lists ++ f.lists := by
  rw [OpenList.lists, OpenList.add, List.reverse_cons, listsAll_append, listsAll_singleton,
    OpenList.lists]

theorem OpenList.lists_toForm (l : OpenList) (closing : Option Nat) :
    (l.toForm closing).lists = l.lists ++ [l.toForm closing] := rfl

namespace Builder

/-- The lists that have ended, in order: those in the outer open lists ended
before any in the inner ones. -/
def endedLists (inner : OpenList) : List OpenList → List Form
  | [] => inner.lists
  | around :: outer => endedLists around outer ++ inner.lists

def lists (b : Builder) : List Form := endedLists b.inner b.outer

theorem endedLists_add (l : OpenList) (f : Form) (outer : List OpenList) :
    endedLists (l.add f) outer = endedLists l outer ++ f.lists := by
  cases outer with
  | nil => exact l.lists_add f
  | cons around outer => rw [endedLists, endedLists, OpenList.lists_add, List.append_assoc]

/-- The open lists but for the root as they are when they end without a
closing column, from the inside out. -/
def unwound (inner : OpenList) : List OpenList → List Form
  | [] => []
  | around :: outer => inner.toForm none :: unwound (around.add (inner.toForm none)) outer

theorem lists_unwind : ∀ (outer : List OpenList) (inner : OpenList),
    (unwind inner outer).innerLists = endedLists inner outer ++ unwound inner outer
  | [], inner => (List.append_nil _).symm
  | around :: outer, inner => by
    rw [unwind, lists_unwind outer, endedLists_add, OpenList.lists_toForm, endedLists, unwound]
    simp

theorem length_unwound : ∀ (outer : List OpenList) (inner : OpenList),
    (unwound inner outer).length = outer.length
  | [], _ => rfl
  | around :: outer, inner => by
    rw [unwound, List.length_cons, length_unwound outer, List.length_cons]

theorem closing_of_mem_unwound : ∀ (outer : List OpenList) (inner : OpenList),
    ∀ f ∈ unwound inner outer, f.closing = none
  | [], _, _, hf => absurd hf List.not_mem_nil
  | around :: outer, inner, f, hf => by
    rcases List.mem_cons.1 hf with rfl | hf
    · rfl
    · exact closing_of_mem_unwound outer _ f hf

theorem head_unwound (outer : List OpenList) (inner : OpenList) :
    (unwound inner outer ++ [unwind inner outer]).head? = some (inner.toForm none) := by
  cases outer <;> rfl

/-- Each open list is the last form in the one around it. -/
theorem isChain_unwound : ∀ (outer : List OpenList) (inner : OpenList),
    (unwound inner outer ++ [unwind inner outer]).IsChain fun f g => g.children.getLast? = some f
  | [], inner => .singleton _
  | around :: outer, inner => by
    rw [unwound, unwind, List.cons_append, List.isChain_cons]
    refine ⟨fun g hg => ?_, isChain_unwound outer _⟩
    rw [head_unwound] at hg
    obtain rfl := Option.some.inj hg
    simp [OpenList.add]

/-- The lists that are left open if no more is read. -/
def leftOpen (b : Builder) : List Form := unwound b.inner b.outer

theorem innerLists_finish (b : Builder) : b.finish.innerLists = b.lists ++ b.leftOpen :=
  lists_unwind b.outer b.inner

end Builder

/-! ### Entries -/

namespace Log

def ofListEnd (f : Form) : List Entry :=
  .listEnded f.children.length f.closing ::
    if f.closing = none then [.listLeftOpen f.column] else []

/-- What the end of the root leaves in the log: it has no `(`, so nothing is
said of its being left open. -/
def ofRootEnd (root : Form) : Entry := .listEnded root.children.length root.closing

theorem ofUnwind_eq : ∀ (outer : List OpenList) (inner : OpenList),
    ofUnwind inner outer =
      (Builder.unwound inner outer).flatMap ofListEnd ++ [ofRootEnd (Builder.unwind inner outer)]
  | [], inner => by simp [ofUnwind, Builder.unwound, Builder.unwind, ofRootEnd]
  | around :: outer, inner => by
    rw [ofUnwind, ofUnwind_eq outer, Builder.unwound, Builder.unwind, List.flatMap_cons]
    simp [ofListEnd]

theorem ofFinish_eq (b : Builder) :
    ofFinish b = b.leftOpen.flatMap ofListEnd ++ [ofRootEnd b.finish] :=
  ofUnwind_eq b.outer b.inner

def ofRunFrom (b : Builder) (tokens : List (List Entry × Token)) : List Entry :=
  (ofRunOnto [] b tokens).reverse

theorem ofRunOnto_eq : ∀ (tokens : List (List Entry × Token)) (log : List Entry) (b : Builder),
    ofRunOnto log b tokens = ofRunOnto [] b tokens ++ log
  | [], _, _ => by simp [ofRunOnto]
  | (reading, t) :: rest, log, b => by
    rw [ofRunOnto, ofRunOnto]
    cases b.feed t with
    | more b' =>
      show ofRunOnto _ b' rest = ofRunOnto _ b' rest ++ log
      rw [ofRunOnto_eq rest _ b', ofRunOnto_eq rest (_ ++ (_ ++ [])) b']
      simp
    | done root ending => simp

theorem ofRunFrom_nil (b : Builder) : ofRunFrom b [] = ofFinish b := by
  simp [ofRunFrom, ofRunOnto]

theorem ofRunFrom_more {b b' : Builder} {t : Token} (h : b.feed t = .more b')
    (reading : List Entry) (rest : List (List Entry × Token)) :
    ofRunFrom b ((reading, t) :: rest) = reading ++ (ofFeed b t ++ ofRunFrom b' rest) := by
  rw [ofRunFrom, ofRunOnto, h]
  show (ofRunOnto _ b' rest).reverse = _
  rw [ofRunOnto_eq, ofRunFrom]
  simp

theorem ofRunFrom_done {b : Builder} {t : Token} {root : Form} {ending : Ending}
    (h : b.feed t = .done root ending) (reading : List Entry)
    (rest : List (List Entry × Token)) :
    ofRunFrom b ((reading, t) :: rest) = reading ++ ofFeed b t := by
  rw [ofRunFrom, ofRunOnto, h]
  simp

/-! ### Entries of reading tokens -/

theorem filter_stage_self {log : List Entry} {stage : Stage} (h : ∀ e ∈ log, e.stage = stage) :
    log.filter (·.stage = stage) = log :=
  List.filter_eq_self.2 fun e he => decide_eq_true (h e he)

theorem filter_stage_nil {log : List Entry} {stage stage' : Stage}
    (h : ∀ e ∈ log, e.stage = stage') (hne : stage' ≠ stage) :
    log.filter (·.stage = stage) = [] :=
  List.filter_eq_nil_iff.2 fun e he => by simpa [h e he] using hne

theorem stage_ofUnwind : ∀ (outer : List OpenList) (inner : OpenList),
    ∀ e ∈ ofUnwind inner outer, e.stage = .forms
  | [], _, e, he => by
    obtain rfl := List.mem_singleton.1 he
    rfl
  | around :: outer, inner, e, he => by
    simp only [ofUnwind, List.mem_cons] at he
    rcases he with rfl | rfl | he
    · rfl
    · rfl
    · exact stage_ofUnwind outer _ e he

theorem stage_ofFeed (b : Builder) (t : Token) : ∀ e ∈ ofFeed b t, e.stage = .forms := by
  intro e he
  unfold ofFeed at he
  split at he
  · split at he
    · rcases List.mem_cons.1 he with rfl | he
      · rfl
      · exact stage_ofUnwind b.outer b.inner e he
    · cases he
  · obtain rfl := List.mem_singleton.1 he
    rfl
  all_goals cases he

theorem stage_ofLexeme (x : Lexeme) : ∀ e ∈ ofLexeme x, e.stage = .tokens := by
  intro e he
  unfold ofLexeme at he
  split at he
  · rcases List.mem_pair.1 he with rfl | rfl <;> rfl
  · obtain rfl := List.mem_singleton.1 he
    rfl

/-- Of tokens none of which is a literal left open nothing else is logged. -/
theorem flatMap_ofLexeme {xs : List Lexeme} (h : ∀ x ∈ xs, x.token.kind ≠ .unterminated) :
    xs.flatMap ofLexeme = (xs.map Lexeme.token).map .token := by
  rw [List.map_map, List.map_eq_flatMap]
  exact List.flatMap_congr fun x hx => if_neg (h x hx)

/-- What is logged while tokens are read does not change what is logged of the
forms. -/
theorem filter_ofRunFrom : ∀ (tokens : List (List Entry × Token)) (b : Builder),
    (∀ x ∈ tokens, ∀ e ∈ x.1, e.stage = .tokens) →
      (ofRunFrom b tokens).filter (·.stage = .forms) =
        ofRunFrom b (tokens.map fun x => ([], x.2))
  | [], b, _ => by
    rw [List.map_nil, ofRunFrom_nil]
    exact filter_stage_self (stage_ofUnwind b.outer b.inner)
  | (reading, t) :: rest, b, h => by
    have hreading : reading.filter (·.stage = .forms) = [] :=
      filter_stage_nil (h _ List.mem_cons_self) (by decide)
    have hfeed : (ofFeed b t).filter (·.stage = .forms) = ofFeed b t :=
      filter_stage_self (stage_ofFeed b t)
    rw [List.map_cons]
    cases hf : b.feed t with
    | more b' =>
      rw [ofRunFrom_more hf, ofRunFrom_more hf, List.filter_append, List.filter_append, hreading,
        hfeed, filter_ofRunFrom rest b' fun x hx => h x (List.mem_cons_of_mem _ hx)]
    | done root ending =>
      rw [ofRunFrom_done hf, ofRunFrom_done hf, List.filter_append, hreading, hfeed]

/-! ### Building step by step -/

def ofBuildFrom (b : Builder) (ts : List Token) : List Entry :=
  ofRunFrom b (ts.map fun t => ([], t))

theorem ofBuildFrom_nil (b : Builder) : ofBuildFrom b [] = ofFinish b := ofRunFrom_nil b

theorem ofBuildFrom_more {b b' : Builder} {t : Token} (h : b.feed t = .more b')
    (rest : List Token) : ofBuildFrom b (t :: rest) = ofFeed b t ++ ofBuildFrom b' rest :=
  ofRunFrom_more h [] _

theorem ofBuildFrom_done {b : Builder} {t : Token} {root : Form} {ending : Ending}
    (h : b.feed t = .done root ending) (rest : List Token) :
    ofBuildFrom b (t :: rest) = ofFeed b t :=
  ofRunFrom_done h [] _

end Log

open Log

namespace Builder

/-- A token that a build goes on after logs the lists that it ends: a `)` the
innermost one, any other token none. -/
theorem Step.lists {b b' : Builder} {t : Token} (h : Step b t b') :
    ∃ ended : List Form, b'.lists = b.lists ++ ended ∧ (∀ f ∈ ended, f.closing ≠ none) ∧
      ofFeed b t = ended.flatMap ofListEnd := by
  cases h with
  | space hk => exact ⟨[], by simp [Builder.lists], by simp, by simp [ofFeed, hk]⟩
  | opens hk hd =>
    refine ⟨[], ?_, by simp, by simp [ofFeed, hk, hd]⟩
    simp [Builder.lists, endedLists, OpenList.lists, listsAll]
  | @closes around outer hk ho =>
    refine ⟨[b.inner.toForm (some t.column)], ?_, ?_, ?_⟩
    · rw [Builder.lists, endedLists_add, OpenList.lists_toForm, Builder.lists, ho, endedLists,
        List.append_assoc]
    · simp
    · simp [ofFeed, hk, ofListEnd]
  | atom ha =>
    refine ⟨[], ?_, by simp, ?_⟩
    · rw [Builder.lists, endedLists_add]
      rfl
    · obtain ⟨hs, hl, hr⟩ := ha
      unfold ofFeed
      split <;> first | contradiction | rfl

/-- As long as a build goes on, its log is that of the lists that have ended,
all of them closed. -/
theorem Reads.lists {b : Builder} {ts : List Token} (h : Reads .init ts b) :
    (∀ f ∈ b.lists, f.closing ≠ none) ∧
      ∀ rest, ofBuildFrom .init (ts ++ rest) = b.lists.flatMap ofListEnd ++ ofBuildFrom b rest := by
  induction h with
  | nil => exact ⟨fun f hf => absurd hf List.not_mem_nil, fun rest => rfl⟩
  | @snoc ts b' b'' t _ hs ih =>
    obtain ⟨hclosed, hlog⟩ := ih
    obtain ⟨ended, hlists, hended, hfeed⟩ := hs.lists
    rw [hlists]
    refine ⟨fun f hf => ?_, fun rest => ?_⟩
    · rcases List.mem_append.1 hf with hf | hf
      · exact hclosed f hf
      · exact hended f hf
    · calc ofBuildFrom .init (ts ++ [t] ++ rest)
          = b'.lists.flatMap ofListEnd ++ ofBuildFrom b' (t :: rest) := by
            rw [List.append_assoc, List.singleton_append, hlog]
        _ = b'.lists.flatMap ofListEnd ++ (ofFeed b' t ++ ofBuildFrom b'' rest) := by
            rw [ofBuildFrom_more hs.feed]
        _ = (b'.lists ++ ended).flatMap ofListEnd ++ ofBuildFrom b'' rest := by
            rw [hfeed, List.flatMap_append, List.append_assoc]

end Builder

/-! ### Whole builds -/

namespace Log

/-- A build that reads all its tokens leaves in the log the lists that were
closed and then those it ends. -/
theorem ofBuild_of_reads {ts : List Token} {b : Builder} (h : Builder.Reads .init ts b) :
    ofBuild ts = b.finish.innerLists.flatMap ofListEnd ++ [ofRootEnd b.finish] := by
  calc ofBuild ts
      = ofBuildFrom .init (ts ++ []) := by rw [List.append_nil]; rfl
    _ = b.lists.flatMap ofListEnd ++ ofFinish b := by rw [h.lists.2, ofBuildFrom_nil]
    _ = b.finish.innerLists.flatMap ofListEnd ++ [ofRootEnd b.finish] := by
      rw [ofFinish_eq, b.innerLists_finish, List.flatMap_append, List.append_assoc]

section Stop

variable {before : List Token} {t : Token} {b : Builder}

/-- A build that ends at a token leaves in the log the lists that were closed
and then what it logs at that token. -/
theorem ofBuild_of_stop {root : Form} {ending : Ending} (h : Builder.Reads .init before b)
    (hs : Builder.Stop b t root ending) (rest : List Token) :
    ofBuild (before ++ t :: rest) = b.lists.flatMap ofListEnd ++ ofFeed b t := by
  rw [← ofBuildFrom_done hs.feed rest]
  exact h.lists.2 (t :: rest)

/-- A `)` that closes the root finds no other list open. -/
theorem ofFeed_strayClose (hk : t.kind = .rightParen) (ho : b.outer = []) :
    b.lists.flatMap ofListEnd ++ ofFeed b t =
      (b.inner.toForm (some t.column)).innerLists.flatMap ofListEnd ++
        [ofRootEnd (b.inner.toForm (some t.column))] := by
  have hlists : b.lists = (b.inner.toForm (some t.column)).innerLists := by
    rw [Builder.lists, ho]
    rfl
  rw [hlists]
  simp [ofFeed, hk, ofRootEnd]

/-- A `(` that would be nested too deep ends all open lists. -/
theorem ofFeed_tooDeep (hk : t.kind = .leftParen) (hd : b.depth = maxDepth) :
    ofFeed b t =
      .tooDeep t.column :: (b.leftOpen.flatMap ofListEnd ++ [ofRootEnd b.finish]) := by
  rw [← ofFinish_eq]
  simp [ofFeed, hk, hd]

end Stop

end Log

/-- **The log of a build is told by its root.** What is logged while the tokens
are read is of another stage and makes no difference. If no `(` would have been
nested too deep, the log of the build is the ends of the lists in the root, each
after those of the lists in it, and the end of the root. If one would, its only
entry stands between the ends of the lists that were closed and those of the
`maxDepth` lists that it leaves open, each the last form in the next, and the
last of them in the root. -/
theorem ofBuild_by_lists (ts : List Token) :
    (∀ tokens : List (List Entry × Token), tokens.map Prod.snd = ts →
        (∀ x ∈ tokens, ∀ e ∈ x.1, e.stage = .tokens) →
          (ofRun tokens).filter (·.stage = .forms) = ofBuild ts) ∧
      ((∀ t, stop? ts = some t → t.kind ≠ .leftParen) →
        ofBuild ts = (build ts).innerLists.flatMap ofListEnd ++ [ofRootEnd (build ts)]) ∧
      ∀ t, stop? ts = some t → t.kind = .leftParen →
        ∃ closed opens, (build ts).innerLists = closed ++ opens ∧
          (∀ f ∈ closed, f.closing ≠ none) ∧ (∀ f ∈ opens, f.closing = none) ∧
          opens.length = maxDepth ∧
          (opens ++ [build ts]).IsChain (fun f g => g.children.getLast? = some f) ∧
          ofBuild ts = closed.flatMap ofListEnd ++
            .tooDeep t.column :: (opens.flatMap ofListEnd ++ [ofRootEnd (build ts)]) := by
  refine ⟨fun tokens htokens hstage => ?_, fun hno => ?_, fun t ht hk => ?_⟩
  · subst htokens
    rw [ofBuild, List.map_map]
    exact filter_ofRunFrom tokens .init hstage
  · rcases ofTokens_reads ts with
      ⟨-, b, hr, hbuilt⟩ | ⟨before, t, rest, b, root, ending, rfl, ht, hr, hs, hbuilt⟩
    · rw [ofBuild_of_reads hr, build, hbuilt]
    · rw [ofBuild_of_stop hr hs, build, hbuilt]
      cases hs with
      | strayClose hk ho => exact ofFeed_strayClose hk ho
      | tooDeep hk _ => exact absurd hk (hno t ht)
  · rcases ofTokens_reads ts with
      ⟨hn, -⟩ | ⟨before, u, rest, b, root, ending, rfl, hu, hr, hs, hbuilt⟩
    · rw [hn] at ht
      cases ht
    · obtain rfl : u = t := Option.some.inj (hu.symm.trans ht)
      rw [ofBuild_of_stop hr hs, build, hbuilt]
      cases hs with
      | strayClose hk' _ => rw [hk] at hk'; cases hk'
      | tooDeep _ hd =>
        refine ⟨b.lists, b.leftOpen, b.innerLists_finish, hr.lists.1, ?_, ?_, ?_, ?_⟩
        · exact Builder.closing_of_mem_unwound b.outer b.inner
        · exact (Builder.length_unwound b.outer b.inner).trans hd
        · exact Builder.isChain_unwound b.outer b.inner
        · rw [ofFeed_tooDeep hk hd]

/-- A closed list in the outermost of 512 open ones, and a `(` too many: what is
logged of the closed list, of the `(` and of the innermost of the others. -/
example :
    let ts : List Token := ⟨.leftParen, ['('], 0⟩ :: ⟨.leftParen, ['('], 1⟩ ::
      ⟨.rightParen, [')'], 2⟩ :: (List.range' 3 512).map fun i => ⟨.leftParen, ['('], i⟩
    (ofBuild ts).take 4 =
      [.listEnded 0 (some 2), .tooDeep 514, .listEnded 0 none, .listLeftOpen 513] := by
  decide +kernel

end ParenLint
