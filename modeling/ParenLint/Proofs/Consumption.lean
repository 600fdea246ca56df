/-
# Which tokens a build takes

A build takes the tokens up to the first that cannot stand where it is met,
that one included, and no token after it (`Nesting.upToStop`); if all can
stand where they are met, it takes them all. What it builds is told by the
tokens it takes, so those it leaves cannot matter, and a `(` that would be
nested too deep adds nothing to what the tokens before it build.

A session can therefore be cut into segments. Each step takes a segment of
the tokens that are left, for a build those up to the stop, and its answer is
told by that segment alone; the segments in order, and then what the session
leaves, are the tokens of the text, none lost and none taken twice.

Key definitions: `Nesting.upToStop`, `Session.Step.segment`,
`Session.segments`.
Key theorems: `Builder.run_upToStop`, `Session.Step.run_segment`,
`Session.flatten_segments`, `takes_upToStop`.
-/
import ParenLint.Proofs.Nesting
import ParenLint.Session

namespace ParenLint

/-! ### Up to the stop -/

namespace Nesting

/-- Of the tokens `ts`, met from the depth `start` on, those up to the first
that cannot stand where it is met, that one included. -/
def upToStop (start : Nat) : List Token → List Token
  | [] => []
  | t :: ts => if Stops (start, t) then [t] else t :: upToStop (depthAfter start t) ts

theorem upToStop_of_stops {start : Nat} {t : Token} (h : Stops (start, t)) (ts : List Token) :
    upToStop start (t :: ts) = [t] := by
  rw [upToStop, if_pos h]

theorem upToStop_cons {start : Nat} {t : Token} (h : ¬ Stops (start, t)) (ts : List Token) :
    upToStop start (t :: ts) = t :: upToStop (depthAfter start t) ts := by
  rw [upToStop, if_neg h]

theorem upToStop_append : ∀ (ts us : List Token) {start : Nat}, (∀ p ∈ met start ts, ¬ Stops p) →
    upToStop start (ts ++ us) = ts ++ upToStop (depth start ts) us
  | [], _, _, _ => rfl
  | t :: ts, us, start, h => by
    have ht : ¬ Stops (start, t) := h _ List.mem_cons_self
    rw [List.cons_append, upToStop_cons ht,
      upToStop_append ts us fun p hp => h p (List.mem_cons_of_mem _ hp)]
    rfl

theorem upToStop_eq_self {ts : List Token} {start : Nat} (h : ∀ p ∈ met start ts, ¬ Stops p) :
    upToStop start ts = ts := by
  have happ := upToStop_append ts [] h
  rwa [List.append_nil, upToStop, List.append_nil] at happ

end Nesting

open Nesting

/-! ### Builds -/

namespace Builder

/-- A run takes the tokens up to the stop, leaves the others, and needs no
more than those it takes. -/
theorem run_upToStop : ∀ (ts : List Token) (b : Builder),
    upToStop b.depth ts ++ (b.run ts).unread = ts ∧
      (b.run (upToStop b.depth ts)).root = (b.run ts).root
  | [], _ => ⟨rfl, rfl⟩
  | t :: ts, b => by
    rcases feed_cases b t with ⟨b', hf, hs⟩ | ⟨root, ending, hf, hs⟩
    · obtain ⟨hd, hn⟩ := hs.depth
      obtain ⟨hsplit, hroot⟩ := run_upToStop ts b'
      rw [upToStop_cons hn, ← hd, run, run, hf]
      exact ⟨congrArg (t :: ·) hsplit, hroot⟩
    · rw [upToStop_of_stops hs.stops, run, run, hf]
      exact ⟨rfl, rfl⟩

/-- So does a run that passes over blanks: it takes the blanks on the way, and
blanks cannot stop it. -/
theorem runUnspaced_upToStop : ∀ (ts : List Token) (b : Builder),
    upToStop b.depth ts ++ (b.runUnspaced ts).unread = ts ∧
      (b.runUnspaced (upToStop b.depth ts)).root = (b.runUnspaced ts).root
  | [], _ => ⟨rfl, rfl⟩
  | t :: ts, b => by
    by_cases hk : t.kind = .space
    · have hn : ¬ Stops (b.depth, t) := by simp [Stops, hk]
      have hd : depthAfter b.depth t = b.depth :=
        depthAfter_other (by simp [hk]) (by simp [hk]) b.depth
      obtain ⟨hsplit, hroot⟩ := runUnspaced_upToStop ts b
      rw [upToStop_cons hn, hd, runUnspaced, runUnspaced, if_pos hk, if_pos hk]
      exact ⟨congrArg (t :: ·) hsplit, hroot⟩
    rcases feed_cases b t with ⟨b', hf, hs⟩ | ⟨root, ending, hf, hs⟩
    · obtain ⟨hd, hn⟩ := hs.depth
      obtain ⟨hsplit, hroot⟩ := runUnspaced_upToStop ts b'
      rw [upToStop_cons hn, ← hd, runUnspaced, runUnspaced, if_neg hk, if_neg hk, hf]
      exact ⟨congrArg (t :: ·) hsplit, hroot⟩
    · rw [upToStop_of_stops hs.stops, runUnspaced, runUnspaced, if_neg hk, if_neg hk, hf]
      exact ⟨rfl, rfl⟩

/-- A `(` that would be nested too deep leaves what the tokens before it
build. -/
theorem root_run_tooDeep {t : Token} (hk : t.kind = .leftParen) (rest : List Token) :
    ∀ (ts : List Token) (b : Builder), (∀ p ∈ met b.depth ts, ¬ Stops p) →
      Nesting.depth b.depth ts = maxDepth → (b.run (ts ++ t :: rest)).root = (b.run ts).root
  | [], b, _, hd => by
    have hf : b.feed t = .done b.finish (.tooDeep t.column) := by
      simp only [feed, hk]
      exact if_pos hd
    show (b.run (t :: rest)).root = b.finish
    rw [run, hf]
  | u :: ts, b, hm, hd => by
    rcases feed_cases b u with ⟨b', hf, hs⟩ | ⟨root, ending, -, hs⟩
    · have hdepth := hs.depth.1
      rw [List.cons_append, run, run, hf]
      refine root_run_tooDeep hk rest ts b' (fun p hp => ?_) ?_
      · exact hm p (List.mem_cons_of_mem _ (hdepth ▸ hp))
      · rwa [hdepth]
    · exact absurd hs.stops (hm _ List.mem_cons_self)

end Builder

theorem upToStop_unread (ts : List Token) : upToStop 0 ts ++ (Built.ofTokens ts).unread = ts :=
  (Builder.run_upToStop ts .init).1

theorem build_upToStop (ts : List Token) : build (upToStop 0 ts) = build ts :=
  (Builder.run_upToStop ts .init).2

theorem unread_of_stop {ts : List Token} {t : Token} (h : stop? ts = some t) :
    ∃ before rest, ts = before ++ t :: rest ∧ (∀ p ∈ met 0 before, ¬ Stops p) ∧
      Stops (Nesting.depth 0 before, t) ∧ (Built.ofTokens ts).unread = rest := by
  rcases ofTokens_reads ts with ⟨hn, -⟩ | ⟨before, u, rest, b, root, ending, hts, hu, hr, hs, hbuilt⟩
  · rw [hn] at h
    cases h
  · obtain rfl : u = t := Option.some.inj (hu.symm.trans h)
    obtain ⟨hd, hm⟩ := hr.depth_met
    exact ⟨before, rest, hts, hm, hd ▸ hs.stops, by rw [hbuilt]⟩

/-! ### Sessions -/

namespace Session

/-- The tokens that a step takes of those that are left: a build takes those
up to the stop, and no more than it may. -/
def Step.segment (ts : List Token) : Step → List Token
  | next => ts.take 1
  | take count => ts.take count
  | rest => ts
  | buildFirst count => upToStop 0 (ts.take count)
  | build | buildUnspaced | check | checkUnder _ | dump => upToStop 0 ts

/-- A step leaves the tokens that it does not take, and answers from those it
takes. -/
theorem Step.run_segment (ts : List Token) (step : Step) :
    step.segment ts ++ (step.run ts).2 = ts ∧ (step.run (step.segment ts)).1 = (step.run ts).1 := by
  have hsplit := upToStop_unread ts
  have hroot := build_upToStop ts
  cases step with
  | next => cases ts <;> exact ⟨rfl, rfl⟩
  | take count => exact ⟨List.take_append_drop count ts, by simp [run, segment, List.take_take]⟩
  | rest => exact ⟨List.append_nil ts, rfl⟩
  | build => exact ⟨hsplit, congrArg Answer.form hroot⟩
  | buildFirst count =>
    have hsplit := upToStop_unread (ts.take count)
    have hlen : (upToStop 0 (ts.take count)).length ≤ count := by
      have hle := congrArg List.length hsplit
      rw [List.length_append, List.length_take] at hle
      omega
    refine ⟨?_, ?_⟩
    · rw [segment, run, ← List.append_assoc, hsplit, List.take_append_drop]
    · rw [segment, run, run, List.take_of_length_le hlen]
      exact congrArg Answer.form (build_upToStop (ts.take count))
  | buildUnspaced =>
    obtain ⟨hsplit, hroot⟩ := Builder.runUnspaced_upToStop ts .init
    exact ⟨hsplit, congrArg Answer.form hroot⟩
  | check => exact ⟨hsplit, congrArg (fun root : Form => Answer.verdict root.isIndented) hroot⟩
  | checkUnder parent =>
    exact ⟨hsplit, congrArg (fun root : Form => Answer.verdict (root.isIndentedUnder parent)) hroot⟩
  | dump => exact ⟨hsplit, congrArg (fun root : Form => Answer.text root.dump) hroot⟩

def segments (ts : List Token) : List Step → List (List Token)
  | [] => []
  | step :: steps => step.segment ts :: segments (step.run ts).2 steps

def left (ts : List Token) : List Step → List Token
  | [] => ts
  | step :: steps => left (step.run ts).2 steps

theorem flatten_segments : ∀ (steps : List Step) (ts : List Token),
    (segments ts steps).flatten ++ left ts steps = ts
  | [], _ => rfl
  | step :: steps, ts => by
    rw [segments, left, List.flatten_cons, List.append_assoc, flatten_segments steps]
    exact (step.run_segment ts).1

theorem answersFrom_eq_zipWith : ∀ (steps : List Step) (ts : List Token),
    answersFrom ts steps =
      List.zipWith (fun step segment => (step.run segment).1) steps (segments ts steps)
  | [], _ => rfl
  | step :: steps, ts => by
    rw [answersFrom, segments, List.zipWith_cons_cons, answersFrom_eq_zipWith steps,
      (step.run_segment ts).2]

end Session

/-- **A build takes the tokens it needs and no more.** If no token stops the
count, it takes all; otherwise it takes those up to the one that does, builds
the same whatever comes after, and if that one is a `(`, the same as without
it. The steps of a session take the tokens of the text segment by segment, in
order, each once, and each answers from its own segment. -/
theorem takes_upToStop (ts : List Token) (text : List Char) (steps : List Session.Step) :
    (stop? ts = none → (Built.ofTokens ts).unread = []) ∧
      (∀ t, stop? ts = some t →
        ∃ before rest, ts = before ++ t :: rest ∧ (∀ p ∈ met 0 before, ¬ Stops p) ∧
          Stops (Nesting.depth 0 before, t) ∧ (Built.ofTokens ts).unread = rest ∧
          (∀ rest', build (before ++ t :: rest') = build ts) ∧
          (t.kind = .leftParen → build ts = build before)) ∧
      (Session.segments (tokenize text) steps).flatten ++ Session.left (tokenize text) steps =
        tokenize text ∧
      Session.answers text steps =
        List.zipWith (fun step segment => (step.run segment).1) steps
          (Session.segments (tokenize text) steps) := by
  refine ⟨fun hn => ?_, fun t ht => ?_, Session.flatten_segments steps _,
    Session.answersFrom_eq_zipWith steps _⟩
  · have hsplit := upToStop_unread ts
    rwa [upToStop_eq_self (stop_eq_none_iff.1 hn), List.append_right_eq_self] at hsplit
  · obtain ⟨before, rest, rfl, hm, hstop, hunread⟩ := unread_of_stop ht
    have hupTo : ∀ rest', upToStop 0 (before ++ t :: rest') = before ++ [t] := by
      intro rest'
      rw [upToStop_append before _ hm, upToStop_of_stops hstop]
    refine ⟨before, rest, rfl, hm, hstop, hunread, fun rest' => ?_, fun hk => ?_⟩
    · rw [← build_upToStop, hupTo, ← build_upToStop (before ++ t :: rest), hupTo]
    · have hdepth : Nesting.depth 0 before = maxDepth := by
        rcases hstop with ⟨hr, -⟩ | ⟨-, hd⟩
        · rw [hk] at hr; cases hr
        · exact hd
      exact Builder.root_run_tooDeep hk rest before .init hm hdepth

/-- A session over one text: a build up to a `)` that closes its root, one of
two tokens at most, and one that passes over blanks. -/
example : (Session.segments (tokenize ['a', ')', ' ', 'b', ' ', ')', '('])
      [.build, .buildFirst 2, .buildUnspaced, .next]).map (·.map Token.text) =
    [[['a'], [')']], [[' '], ['b']], [[' '], [')']], [['(']]] := by decide

end ParenLint
