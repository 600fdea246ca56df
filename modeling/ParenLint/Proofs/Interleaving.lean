/-
# The two logs tell the same

A lenient run reads a token when the builder asks for it, a strict run reads
all of them and then builds. Of the forms both log the same. Of the tokens
the strict run logs all, and the lenient run those that the build takes, up
to the stop; the entries of a list that a `)` closes come right behind that
token.

What a build logs from a builder on is followed token by token: the entry of
a token that the build goes on after stands before what it logs from the next
builder on, so the log splits wherever the tokens that are read do
(`Log.ofRunFrom_reads`). A list that a `)` closes is among the lists of the
root in the end, since a list that has ended stays (`Builder.lists_run`).

Key definitions: `Log.logged`.
Key theorems: `Log.filter_tokens_ofRunFrom`, `Log.ofRunFrom_reads`,
`Log.building_closes`, `runs_log_alike`.
-/
import ParenLint.Proofs.BuildLog
import ParenLint.Proofs.Consumption

namespace ParenLint

open Form Nesting

namespace Builder

/-! ### Lists that have ended stay -/

theorem lists_finish (b : Builder) : b.finish.lists = b.lists ++ (b.leftOpen ++ [b.finish]) := by
  obtain ⟨space, fs, h⟩ := unwind_eq_list b.outer b.inner
  have hinner := b.innerLists_finish
  rw [finish, h] at hinner ⊢
  rw [Form.lists, ← List.append_assoc, ← hinner]
  rfl

/-- The lists that have ended are lists of the root, whatever is read next. -/
theorem lists_run : ∀ (ts : List Token) (b : Builder), b.lists <+: (b.run ts).root.lists
  | [], b => ⟨_, b.lists_finish.symm⟩
  | t :: ts, b => by
    rcases feed_cases b t with ⟨b', hf, hs⟩ | ⟨root, ending, hf, hs⟩
    · obtain ⟨ended, hlists, -⟩ := hs.lists
      rw [run, hf]
      exact (hlists ▸ List.prefix_append _ _).trans (lists_run ts b')
    · rw [run, hf]
      cases hs with
      | strayClose _ ho =>
        refine ⟨[b.inner.toForm (some t.column)], ?_⟩
        rw [lists, ho, OpenList.lists_toForm]
        rfl
      | tooDeep _ _ => exact ⟨_, b.lists_finish.symm⟩

theorem Reads.run {b b' : Builder} {ts : List Token} (h : Reads b ts b') (us : List Token) :
    b.run (ts ++ us) = b'.run us := by
  induction h generalizing us with
  | nil => rfl
  | snoc _ hs ih => rw [List.append_assoc, ih, List.singleton_append, Builder.run, hs.feed]

theorem mem_lists_run {b : Builder} {t : Token} (hk : t.kind = .rightParen) (ts : List Token) :
    b.inner.toForm (some t.column) ∈ (b.run (t :: ts)).root.lists := by
  cases ho : b.outer with
  | nil =>
    rw [run, (Stop.strayClose hk ho).feed]
    exact List.mem_append_right _ List.mem_cons_self
  | cons around outer =>
    have hs := Step.closes hk ho
    rw [run, hs.feed]
    refine (lists_run ts _).subset ?_
    rw [lists, endedLists_add]
    exact List.mem_append_right _ (List.mem_append_right _ List.mem_cons_self)

/-- The tokens before one that the build takes are tokens it goes on after. -/
theorem reads_of_upToStop : ∀ (before : List Token) {t : Token} {ts : List Token} (b : Builder),
    before ++ [t] <+: upToStop b.depth ts → ∃ b', Reads b before b'
  | [], _, _, b, _ => ⟨b, .nil⟩
  | u :: before, t, ts, b, h => by
    cases ts with
    | nil => simp [upToStop] at h
    | cons v ts =>
      rcases feed_cases b v with ⟨b', -, hs⟩ | ⟨root, ending, -, hs⟩
      · obtain ⟨hd, hn⟩ := hs.depth
        rw [upToStop_cons hn, ← hd, List.cons_append, List.cons_prefix_cons] at h
        obtain ⟨rfl, h⟩ := h
        obtain ⟨b'', hr⟩ := reads_of_upToStop before b' h
        exact ⟨b'', hr.cons hs⟩
      · rw [upToStop_of_stops hs.stops] at h
        have hlen := h.length_le
        simp at hlen

end Builder

theorem upToStop_isPrefix (ts : List Token) : upToStop 0 ts <+: ts := ⟨_, upToStop_unread ts⟩

namespace Log

/-! ### Entries by stage -/

theorem stage_ofRunFrom : ∀ (tokens : List (List Entry × Token)) (b : Builder),
    (∀ x ∈ tokens, ∀ e ∈ x.1, e.stage = .tokens) →
      ∀ e ∈ ofRunFrom b tokens, e.stage = .tokens ∨ e.stage = .forms
  | [], b, _, e, he => by
    rw [ofRunFrom_nil] at he
    exact Or.inr (stage_ofUnwind b.outer b.inner e he)
  | (reading, t) :: rest, b, h, e, he => by
    have hreading : ∀ e ∈ reading, e.stage = .tokens := h _ List.mem_cons_self
    cases hf : b.feed t with
    | more b' =>
      rw [ofRunFrom_more hf, List.mem_append, List.mem_append] at he
      rcases he with he | he | he
      · exact Or.inl (hreading e he)
      · exact Or.inr (stage_ofFeed b t e he)
      · exact stage_ofRunFrom rest b' (fun x hx => h x (List.mem_cons_of_mem _ hx)) e he
    | done root ending =>
      rw [ofRunFrom_done hf, List.mem_append] at he
      rcases he with he | he
      · exact Or.inl (hreading e he)
      · exact Or.inr (stage_ofFeed b t e he)

theorem stage_ofBuild (ts : List Token) : ∀ e ∈ ofBuild ts, e.stage = .forms := by
  have h := filter_ofRunFrom (ts.map fun t => (([] : List Entry), t)) .init (by simp)
  rw [List.map_map] at h
  have hself : (ofBuild ts).filter (·.stage = .forms) = ofBuild ts := h
  exact fun e he => by simpa using List.filter_eq_self.1 hself e he

theorem stage_reading (text : List Char) : ∀ e ∈ reading text, e.stage = .tokens := by
  intro e he
  obtain ⟨x, -, he⟩ := List.mem_flatMap.1 he
  exact stage_ofLexeme x e he

theorem stage_building (text : List Char) :
    ∀ e ∈ building text, e.stage = .tokens ∨ e.stage = .forms := by
  refine stage_ofRunFrom _ .init fun p hp => ?_
  obtain ⟨x, -, rfl⟩ := List.mem_map.1 hp
  exact stage_ofLexeme x

theorem stage_parsing (text : List Char) :
    ∀ e ∈ parsing text, e.stage = .tokens ∨ e.stage = .forms := by
  intro e he
  rw [parsing, List.mem_append] at he
  rcases he with he | he
  · exact Or.inl (stage_reading text e he)
  · split at he
    · cases he
    · exact Or.inr (stage_ofBuild _ e he)

theorem stage_ofCheck (f : Form) : ∀ e ∈ ofCheck f, e.stage = .indentation := by
  intro e he
  obtain ⟨v, -, rfl⟩ := List.mem_map.1 he
  rfl

theorem trace_reading (text : List Char) :
    (reading text).filter (·.level = .trace) = (tokenize text).map .token := by
  rw [reading, List.filter_flatMap, tokenize, List.map_map, List.map_eq_flatMap]
  refine List.flatMap_congr fun x _ => ?_
  unfold ofLexeme
  split <;> rfl

/-! ### One entry a token -/

def logged (ts : List Token) : List (List Entry × Token) := ts.map fun t => ([.token t], t)

section Terminated

variable {text : List Char} (h : ∀ t ∈ tokenize text, t.kind ≠ .unterminated)
include h

theorem reading_terminated : reading text = (tokenize text).map .token :=
  flatMap_ofLexeme fun x hx => h x.token (List.mem_map_of_mem hx)

theorem building_terminated : building text = ofRunFrom .init (logged (tokenize text)) := by
  have hmap : (scan text).map (fun x => (ofLexeme x, x.token)) = logged (tokenize text) := by
    rw [logged, tokenize, List.map_map]
    refine List.map_congr_left fun x hx => ?_
    rw [ofLexeme, if_neg (h x.token (List.mem_map_of_mem hx))]
    rfl
  rw [building, hmap]
  rfl

theorem parsing_terminated : parsing text = reading text ++ ofBuild (tokenize text) := by
  rw [parsing, if_neg]
  simpa using h

end Terminated

/-- Of its tokens a build logs those it takes. -/
theorem filter_tokens_ofRunFrom : ∀ (ts : List Token) (b : Builder),
    (ofRunFrom b (logged ts)).filter (·.stage = .tokens) = (upToStop b.depth ts).map .token
  | [], b => by
    show (ofRunFrom b []).filter _ = []
    rw [ofRunFrom_nil]
    exact filter_stage_nil (stage_ofUnwind b.outer b.inner) (by decide)
  | t :: ts, b => by
    have hfeed : (ofFeed b t).filter (·.stage = .tokens) = [] :=
      filter_stage_nil (stage_ofFeed b t) (by decide)
    show (ofRunFrom b (([.token t], t) :: logged ts)).filter _ = _
    rcases Builder.feed_cases b t with ⟨b', hf, hs⟩ | ⟨root, ending, hf, hs⟩
    · obtain ⟨hd, hn⟩ := hs.depth
      rw [ofRunFrom_more hf, upToStop_cons hn, ← hd, List.filter_append, List.filter_append, hfeed,
        filter_tokens_ofRunFrom ts b']
      rfl
    · rw [ofRunFrom_done hf, upToStop_of_stops hs.stops, List.filter_append, hfeed]
      rfl

/-- What is logged splits where the tokens that are read do: what stands
before is of those, whatever comes next. -/
theorem ofRunFrom_reads {b b' : Builder} {before : List Token} (h : Builder.Reads b before b') :
    ∃ log, log.filter (·.stage = .tokens) = before.map .token ∧
      ∀ rest, ofRunFrom b (logged (before ++ rest)) = log ++ ofRunFrom b' (logged rest) := by
  induction h with
  | nil => exact ⟨[], rfl, fun rest => rfl⟩
  | @snoc ts b' b'' t _ hs ih =>
    obtain ⟨log, htokens, hlog⟩ := ih
    refine ⟨log ++ .token t :: ofFeed b' t, ?_, fun rest => ?_⟩
    · have hfeed : (ofFeed b' t).filter (·.stage = .tokens) = [] :=
        filter_stage_nil (stage_ofFeed b' t) (by decide)
      rw [List.filter_append, htokens, List.map_append, List.filter_cons_of_pos (by rfl), hfeed]
      rfl
    · rw [List.append_assoc, hlog, List.singleton_append]
      show log ++ ofRunFrom b' (([.token t], t) :: logged rest) = _
      rw [ofRunFrom_more hs.feed]
      simp

/-- The entry of a `)` is followed by that of the list it closes. -/
theorem ofRunFrom_closes {b : Builder} {t : Token} (hk : t.kind = .rightParen) (ts : List Token) :
    ∃ log, ofRunFrom b (logged (t :: ts)) =
      .token t :: .listEnded (b.inner.toForm (some t.column)).children.length (some t.column) ::
        log := by
  have hfeed : ofFeed b t = [.listEnded b.inner.children.length (some t.column)] := by
    simp [ofFeed, hk]
  have hlength : (b.inner.toForm (some t.column)).children.length = b.inner.children.length :=
    List.length_reverse
  show ∃ log, ofRunFrom b (([.token t], t) :: logged ts) = _
  rw [hlength]
  rcases Builder.feed_cases b t with ⟨b', hf, -⟩ | ⟨root, ending, hf, -⟩
  · exact ⟨ofRunFrom b' (logged ts), by rw [ofRunFrom_more hf, hfeed]; rfl⟩
  · exact ⟨[], by rw [ofRunFrom_done hf, hfeed]; rfl⟩

/-- In a lenient run the entry of each `)` that the build takes stands behind
those of the tokens before, and right before that of the list it closes. -/
theorem building_closes {text : List Char} (h : ∀ t ∈ tokenize text, t.kind ≠ .unterminated)
    {before : List Token} {t : Token} (ht : before ++ [t] <+: upToStop 0 (tokenize text))
    (hk : t.kind = .rightParen) :
    ∃ b l log log', Builder.Reads .init before b ∧ l = b.inner.toForm (some t.column) ∧
      l ∈ (build (tokenize text)).lists ∧
      building text = log ++ .token t :: .listEnded l.children.length l.closing :: log' ∧
      log.filter (·.stage = .tokens) = before.map .token := by
  obtain ⟨rest, hrest⟩ := ht.trans (upToStop_isPrefix (tokenize text))
  rw [List.append_assoc, List.singleton_append] at hrest
  obtain ⟨b, hr⟩ := Builder.reads_of_upToStop before .init ht
  obtain ⟨log, htokens, hlog⟩ := ofRunFrom_reads hr
  obtain ⟨log', hlog'⟩ := ofRunFrom_closes (b := b) hk rest
  refine ⟨b, _, log, log', hr, rfl, ?_, ?_, htokens⟩
  · rw [← hrest, build, Built.ofTokens, hr.run]
    exact Builder.mem_lists_run hk rest
  · rw [building_terminated h, ← hrest, hlog, hlog']
    rfl

/-! ### The two runs -/

/-- What is logged of the forms does not depend on when the tokens are
read. -/
theorem forms_building (text : List Char) :
    (building text).filter (·.stage = .forms) = ofBuild (tokenize text) := by
  have htokens : ((scan text).map fun x => (ofLexeme x, x.token)).map (fun p => (([] : List Entry),
      p.2)) = (tokenize text).map fun t => ([], t) := by
    rw [tokenize, List.map_map, List.map_map]
    rfl
  rw [ofBuild, ← htokens]
  refine filter_ofRunFrom _ .init fun p hp => ?_
  obtain ⟨x, -, rfl⟩ := List.mem_map.1 hp
  exact stage_ofLexeme x

theorem filter_indentation {log : List Entry}
    (h : ∀ e ∈ log, e.stage = .tokens ∨ e.stage = .forms) (f : Form) :
    (log ++ ofCheck f).filter (·.stage = .indentation) = ofCheck f := by
  have hlog : log.filter (·.stage = .indentation) = [] := by
    rw [List.filter_eq_nil_iff]
    intro e he
    rcases h e he with hs | hs <;> simp [hs]
  rw [List.filter_append, hlog, List.nil_append, filter_stage_self (stage_ofCheck f)]

end Log

open Log

/-- **Lenient and strict runs log the same.** If no literal is left open, they
log the same of the forms; the strict run logs all tokens, the lenient run
those up to the stop, each in order, and each `)` of these right before the
list that it closes. If a literal is left open, the strict run logs all tokens
and nothing of the forms. If the text is well structured, they log the same of
its indentation. -/
theorem runs_log_alike (text : List Char) :
    ((∀ t ∈ tokenize text, t.kind ≠ .unterminated) →
        (building text).filter (·.stage = .forms) = (parsing text).filter (·.stage = .forms) ∧
        (parsing text).filter (·.stage = .tokens) = (tokenize text).map .token ∧
        (building text).filter (·.stage = .tokens) = (upToStop 0 (tokenize text)).map .token ∧
        (building text).filter (·.stage = .tokens) <+: (parsing text).filter (·.stage = .tokens) ∧
        ∀ before t, before ++ [t] <+: upToStop 0 (tokenize text) → t.kind = .rightParen →
          ∃ b l log log', Builder.Reads .init before b ∧ l = b.inner.toForm (some t.column) ∧
            l ∈ (build (tokenize text)).lists ∧
            building text = log ++ .token t :: .listEnded l.children.length l.closing :: log' ∧
            log.filter (·.stage = .tokens) = before.map .token) ∧
      ((∃ t ∈ tokenize text, t.kind = .unterminated) →
        parsing text = reading text ∧ (∀ e ∈ parsing text, e.stage = .tokens) ∧
        (parsing text).filter (·.level = .trace) = (tokenize text).map .token) ∧
      ∀ root, parse text = .ok root →
        (strict text).filter (·.stage = .indentation) =
          (lenient text).filter (·.stage = .indentation) := by
  refine ⟨fun h => ?_, fun hopen => ?_, fun root hr => ?_⟩
  · have hforms : (parsing text).filter (·.stage = .forms) = ofBuild (tokenize text) := by
      rw [parsing_terminated h, List.filter_append,
        filter_stage_nil (stage_reading text) (by decide), filter_stage_self (stage_ofBuild _),
        List.nil_append]
    have hstrict : (parsing text).filter (·.stage = .tokens) = (tokenize text).map .token := by
      rw [parsing_terminated h, List.filter_append, filter_stage_self (stage_reading text),
        filter_stage_nil (stage_ofBuild _) (by decide), List.append_nil, reading_terminated h]
    have hlenient : (building text).filter (·.stage = .tokens) =
        (upToStop 0 (tokenize text)).map .token := by
      rw [building_terminated h]
      exact filter_tokens_ofRunFrom (tokenize text) .init
    refine ⟨by rw [forms_building, hforms], hstrict, hlenient, ?_, fun _ _ => building_closes h⟩
    rw [hstrict, hlenient]
    exact (upToStop_isPrefix _).map _
  · have hparsing : parsing text = reading text := by
      rw [parsing, if_pos (by simpa using hopen), List.append_nil]
    rw [hparsing]
    exact ⟨rfl, stage_reading text, trace_reading text⟩
  · obtain ⟨-, rfl⟩ := no_fault_of_parse hr
    rw [strict, hr, lenient, filter_indentation (stage_parsing text),
      filter_indentation (stage_building text)]

/-- A `)` that closes the root stops a lenient run; a strict run reads on, and
logs the same two lists after all tokens. -/
example :
    let text := ['(', ')', ')', 'a']
    building text =
        [.token ⟨.leftParen, ['('], 0⟩, .token ⟨.rightParen, [')'], 1⟩, .listEnded 0 (some 1),
          .token ⟨.rightParen, [')'], 2⟩, .listEnded 1 (some 2)] ∧
      parsing text =
        [.token ⟨.leftParen, ['('], 0⟩, .token ⟨.rightParen, [')'], 1⟩,
          .token ⟨.rightParen, [')'], 2⟩, .token ⟨.atom, ['a'], 3⟩,
          .listEnded 0 (some 1), .listEnded 1 (some 2)] := by decide

end ParenLint
