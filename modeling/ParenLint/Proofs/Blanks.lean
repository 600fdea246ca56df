/-
# Blanks among tokens

Blanks go no further than the blanks before forms. Without them tokens build
the same root, only that it has no blanks in it, and the rules, which compare
columns, do not notice. And a run of blanks may come in pieces: a builder only
waits for the next form and puts together what comes meanwhile
(`Builder.run_blanks`), so neither where a run is cut nor the columns of its
pieces leave a trace in the root.

The second fact is about a place in the middle of the tokens. What is read
before it is the same on both sides, and from there on it is a fact about all
builders (`Builder.root_run_append`).

Key theorems: `Builder.run_blanks`, `Builder.root_run_append`,
`run_buildUnspaced`, `blanks_only_lead`.
-/
import ParenLint.Proofs.Changes
import ParenLint.Proofs.Consumption

namespace ParenLint

namespace Builder

/-- Blanks in a row wait as one run of blanks, whatever their columns. -/
theorem run_blanks : ∀ (ws us : List Token) (b : Builder), (∀ w ∈ ws, w.kind = .space) →
    b.run (ws ++ us) =
      Builder.run { b with space := (ws.flatMap Token.text).reverse ++ b.space } us
  | [], _, _, _ => rfl
  | w :: ws, us, b, h => by
    rw [List.cons_append, run, feed_space (h w List.mem_cons_self)]
    show Builder.run { b with space := w.text.reverse ++ b.space } (ws ++ us) = _
    rw [run_blanks ws us _ fun v hv => h v (List.mem_cons_of_mem _ hv), List.flatMap_cons,
      List.reverse_append, List.append_assoc]

/-- Tokens that build the same from everywhere build the same behind other
tokens. -/
theorem root_run_append {us vs : List Token}
    (h : ∀ b : Builder, (b.run us).root = (b.run vs).root) : ∀ (ts : List Token) (b : Builder),
    (b.run (ts ++ us)).root = (b.run (ts ++ vs)).root
  | [], b => h b
  | t :: ts, b => by
    rw [List.cons_append, List.cons_append, run, run]
    cases b.feed t with
    | more b' => exact root_run_append h ts b'
    | done root ending => rfl

end Builder

theorem build_blanks {t : Token} {ws : List Token} (ht : t.kind = .space)
    (hws : ∀ w ∈ ws, w.kind = .space) (htext : ws.flatMap Token.text = t.text)
    (before after : List Token) :
    build (before ++ (ws ++ after)) = build (before ++ t :: after) := by
  refine Builder.root_run_append (fun b => ?_) before .init
  calc (b.run (ws ++ after)).root
      = (Builder.run { b with space := t.text.reverse ++ b.space } after).root := by
        rw [Builder.run_blanks ws after b hws, htext]
    _ = (b.run (t :: after)).root := by rw [Builder.run, Builder.feed_space ht]

/-- A session step that passes over blanks takes the tokens that a build
takes, and answers with its root without blanks. -/
theorem run_buildUnspaced (ts : List Token) :
    Session.Step.buildUnspaced.run ts = (.form (build ts).bare, (Built.ofTokens ts).unread) := by
  have hroot : (Builder.init.runUnspaced ts).root = (build ts).bare := by
    rw [Builder.runUnspaced_root]
    exact build_unspaced ts
  have hunread : (Builder.init.runUnspaced ts).unread = (Built.ofTokens ts).unread :=
    List.append_cancel_left <|
      (Builder.runUnspaced_upToStop ts .init).1.trans (upToStop_unread ts).symm
  rw [Session.Step.run, hroot, hunread]

/-- **Blanks among tokens are nothing but the blanks before forms.** Without
them the tokens build the same root with no blanks in it, which is indented
like the other, whatever form it is meant to stand in; and in place of blanks
there may stand several, with any columns, that put together have their
text. -/
theorem blanks_only_lead (ts : List Token) :
    build (unspaced ts) = (build ts).bare ∧
      (build (unspaced ts)).isIndented = (build ts).isIndented ∧
      (∀ parent, (build (unspaced ts)).isIndentedUnder parent =
        (build ts).isIndentedUnder parent) ∧
      ∀ before t after ws, ts = before ++ t :: after → t.kind = .space →
        (∀ w ∈ ws, w.kind = .space) → ws.flatMap Token.text = t.text →
          build (before ++ (ws ++ after)) = build ts := by
  have hbuild := build_unspaced ts
  refine ⟨hbuild, ?_, fun parent => ?_, ?_⟩
  · rw [hbuild, Form.isIndented_bare]
  · rw [hbuild, Form.isIndentedUnder_bare]
  · rintro before t after ws rfl ht hws htext
    exact build_blanks ht hws htext before after

/-- Blanks before an atom, in two pieces and at other columns; those before
the `)` are dropped either way. -/
example :
    let one := [⟨.leftParen, ['('], 0⟩, ⟨.space, [' ', '\n'], 1⟩, ⟨.atom, ['a'], 0⟩,
      ⟨.space, [' '], 1⟩, ⟨.rightParen, [')'], 2⟩]
    let two := [⟨.leftParen, ['('], 0⟩, ⟨.space, [' '], 7⟩, ⟨.space, ['\n'], 9⟩,
      ⟨.atom, ['a'], 0⟩, ⟨.rightParen, [')'], 2⟩]
    build two = build one ∧ (build one).children = [.list [] 0 [.atom [' ', '\n'] 0 ['a']] (some 2)] ∧
      (build (unspaced one)).children = [.list [] 0 [.atom [] 0 ['a']] (some 2)] := by decide

end ParenLint
