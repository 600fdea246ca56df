/-
# Sessions

A session goes through the tokens of one text in steps. Each step takes some
of the tokens that the steps before it left, answers, and leaves the rest to
the steps after it. A step that builds forms starts with a builder of its
own and takes no token that the build does not read: after a `)` that closes
its root, or a `(` that would open a list too deep, the tokens that follow
are left.

Key definitions: `Session.Step`, `Session.Step.run`, `Session.answers`.
-/
import ParenLint.Token.Scanner
import ParenLint.Form.Builder
import ParenLint.Form.Dump
import ParenLint.Indentation

namespace ParenLint

/-- Reads tokens, passing over blanks, until they or the build end. -/
def Builder.runUnspaced (b : Builder) : List Token → Built
  | [] => ⟨b.finish, .endOfTokens, []⟩
  | t :: ts =>
    if t.kind = .space then b.runUnspaced ts
    else
      match b.feed t with
      | .more b => b.runUnspaced ts
      | .done root ending => ⟨root, ending, ts⟩

/-- Passing over blanks builds the same root as taking them out before. -/
theorem Builder.runUnspaced_root : ∀ (ts : List Token) (b : Builder),
    (b.runUnspaced ts).root = (b.run (ts.filter (·.kind ≠ .space))).root
  | [], _ => rfl
  | t :: ts, b => by
    by_cases h : t.kind = .space
    · simp [runUnspaced, h, runUnspaced_root ts b]
    · simp only [runUnspaced, h, ne_eq, not_false_eq_true, decide_true, List.filter_cons_of_pos,
        if_false, run]
      cases b.feed t with
      | more b' => exact runUnspaced_root ts b'
      | done root ending => rfl

namespace Session

inductive Step
  | next
  /-- Take the next tokens, at most so many. -/
  | take (count : Nat)
  | rest
  | build
  /-- Build forms from the next tokens, at most so many. -/
  | buildFirst (count : Nat)
  /-- Build forms as if there were no blanks. -/
  | buildUnspaced
  | check
  /-- Build forms and check their indentation in a form at this column. -/
  | checkUnder (parent : Nat)
  | dump

inductive Answer
  | token (t : Option Token)
  | tokens (ts : List Token)
  | form (root : Form)
  | verdict (passes : Bool)
  | text (cs : List Char)

def Step.run (ts : List Token) : Step → Answer × List Token
  | next => (.token ts.head?, ts.tail)
  | take count => (.tokens (ts.take count), ts.drop count)
  | rest => (.tokens ts, [])
  | build => (.form (Built.ofTokens ts).root, (Built.ofTokens ts).unread)
  | buildFirst count =>
    (.form (Built.ofTokens (ts.take count)).root,
      (Built.ofTokens (ts.take count)).unread ++ ts.drop count)
  | buildUnspaced =>
    (.form (Builder.init.runUnspaced ts).root, (Builder.init.runUnspaced ts).unread)
  | check => (.verdict (Built.ofTokens ts).root.isIndented, (Built.ofTokens ts).unread)
  | checkUnder parent =>
    (.verdict ((Built.ofTokens ts).root.isIndentedUnder parent), (Built.ofTokens ts).unread)
  | dump => (.text (Built.ofTokens ts).root.dump, (Built.ofTokens ts).unread)

def answersFrom (ts : List Token) : List Step → List Answer
  | [] => []
  | step :: steps => (step.run ts).1 :: answersFrom (step.run ts).2 steps

def answers (text : List Char) (steps : List Step) : List Answer :=
  answersFrom (tokenize text) steps

end Session
end ParenLint
