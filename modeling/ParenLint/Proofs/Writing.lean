/-
# Written numbers and texts are told apart

A number in digits and a text in quotes can be read back, and it can be seen
where they end when something follows them. The digits of a number are taken
off from the last one (`toDigits_inj`); they end at the first character that
is no digit (`word_append_inj`).

Between quotes a character is written in one of three ways (`Quoted.Code`): as
itself, as a backslash and a letter that tells the character, or as a
backslash and the hexadecimal digits of its code point between braces. So what
follows a backslash tells which it is, a quote that stands by itself ends the
text (`quote_append_inj`), and nothing that is written breaks a line.

Key definitions: `Quoted.Code`.
Key theorems: `toDigits_inj`, `Quoted.Code.append_inj`, `quote_append_inj`.
-/
import ParenLint.Text.Decimal
import ParenLint.Text.Quoted
import Mathlib.Tactic.SplitIfs

namespace ParenLint

/-! ### Words and margins -/

theorem word_append_inj {c : Char} : ∀ {a b : List Char}, c ∉ a → c ∉ b →
    ∀ {xs ys : List Char}, a ++ c :: xs = b ++ c :: ys → a = b ∧ xs = ys
  | [], [], _, _, _, _, h => ⟨rfl, (List.cons.inj h).2⟩
  | [], d :: b, _, hb, _, _, h => by
    obtain ⟨rfl, -⟩ := List.cons.inj h
    exact absurd List.mem_cons_self hb
  | d :: a, [], ha, _, _, _, h => by
    obtain ⟨rfl, -⟩ := List.cons.inj h
    exact absurd List.mem_cons_self ha
  | d :: a, e :: b, ha, hb, xs, ys, h => by
    obtain ⟨rfl, hrest⟩ := List.cons.inj h
    obtain ⟨rfl, hxs⟩ := word_append_inj (fun hc => ha (List.mem_cons_of_mem _ hc))
      (fun hc => hb (List.mem_cons_of_mem _ hc)) hrest
    exact ⟨rfl, hxs⟩

/-- The spaces a line begins with can be counted. -/
theorem margin_append_inj {c d : Char} (hc : c ≠ ' ') (hd : d ≠ ' ') :
    ∀ {m n : Nat} {xs ys : List Char},
      List.replicate m ' ' ++ c :: xs = List.replicate n ' ' ++ d :: ys →
      m = n ∧ c :: xs = d :: ys
  | 0, 0, _, _, h => ⟨rfl, h⟩
  | 0, n + 1, _, _, h => absurd (List.cons.inj h).1 hc
  | m + 1, 0, _, _, h => absurd (List.cons.inj h).1.symm hd
  | m + 1, n + 1, xs, ys, h => by
    obtain ⟨rfl, hrest⟩ := margin_append_inj hc hd (m := m) (n := n) (List.cons.inj h).2
    exact ⟨rfl, hrest⟩

/-! ### Digits -/

theorem toDigits_eq_append {b : Nat} (hb : 1 < b) (n : Nat) :
    b.toDigits n = (if n < b then [] else b.toDigits (n / b)) ++ [(n % b).digitChar] := by
  rw [Nat.toDigits_eq_if hb]
  split
  · rename_i hlt
    rw [Nat.mod_eq_of_lt hlt, List.nil_append]
  · rfl

theorem digitChar_inj : ∀ d < 16, ∀ e < 16, Nat.digitChar d = Nat.digitChar e → d = e := by
  decide

/-- Digits tell the number, in any base for which there are enough of them. -/
theorem toDigits_inj {b : Nat} (hb : 1 < b) (hb' : b ≤ 16) {m n : Nat}
    (h : b.toDigits m = b.toDigits n) : m = n := by
  induction m using Nat.strongRecOn generalizing n with
  | ind m ih =>
    rw [toDigits_eq_append hb m, toDigits_eq_append hb n] at h
    obtain ⟨hinit, hlast⟩ := List.append_inj' h rfl
    have hm := Nat.mod_lt m (Nat.zero_lt_of_lt hb)
    have hn := Nat.mod_lt n (Nat.zero_lt_of_lt hb)
    have hdigit : m % b = n % b := by
      apply digitChar_inj _ (by omega) _ (by omega)
      exact (List.cons.inj hlast).1
    have hrest : m / b = n / b := by
      split_ifs at hinit with hmb hnb hnb
      · rw [Nat.div_eq_of_lt hmb, Nat.div_eq_of_lt hnb]
      · exact absurd hinit.symm Nat.toDigits_ne_nil
      · exact absurd hinit Nat.toDigits_ne_nil
      · apply ih _ (Nat.div_lt_self _ hb) hinit
        omega
    calc m = b * (m / b) + m % b := (Nat.div_add_mod m b).symm
      _ = b * (n / b) + n % b := by rw [hrest, hdigit]
      _ = n := Nat.div_add_mod n b

theorem not_mem_toDigits {b : Nat} (hb : 1 < b) {c : Char} (hc : ∀ d, Nat.digitChar d ≠ c)
    (n : Nat) : c ∉ b.toDigits n := by
  induction n using Nat.strongRecOn with
  | ind n ih =>
    rw [toDigits_eq_append hb, List.mem_append, List.mem_singleton]
    rintro (hmem | rfl)
    · split_ifs at hmem with hlt
      · cases hmem
      · apply ih (n / b) (Nat.div_lt_self (by omega) hb) hmem
    · exact hc _ rfl

theorem decimal_inj {m n : Nat} (h : decimal m = decimal n) : m = n :=
  toDigits_inj (by decide) (by decide) h

theorem not_mem_decimal {c : Char} (hc : ∀ d, Nat.digitChar d ≠ c) (n : Nat) : c ∉ decimal n :=
  not_mem_toDigits (by decide) hc n

/-! ### Quoted texts -/

namespace Quoted

/-- The character that a letter behind a backslash stands for. -/
def meaning : Char → Char
  | '0' => '\x00'
  | 't' => '\t'
  | 'n' => '\n'
  | 'r' => '\r'
  | k => k

/-- How a character may be written between quotes. -/
inductive Code : Char → List Char → Prop
  | plain {c : Char} : c ≠ '"' → c ≠ '\\' → c ≠ '\n' → Code c [c]
  | letter (k : Char) : k ≠ 'u' → k ≠ '\n' → Code (meaning k) ['\\', k]
  | digits (c : Char) : Code c ('\\' :: 'u' :: '\x7b' :: (Nat.toDigits 16 c.toNat ++ ['\x7d']))

theorem code_encode (c : Char) : Code c (encode c) := by
  unfold encode
  split_ifs with hnul htab hline hreturn hspecial hprint
  · rw [hnul]
    exact .letter '0' (by decide) (by decide)
  · rw [htab]
    exact .letter 't' (by decide) (by decide)
  · rw [hline]
    exact .letter 'n' (by decide) (by decide)
  · rw [hreturn]
    exact .letter 'r' (by decide) (by decide)
  · rcases hspecial with rfl | rfl
    · exact .letter '"' (by decide) (by decide)
    · exact .letter '\\' (by decide) (by decide)
  · rw [not_or] at hspecial
    exact .plain hspecial.1 hspecial.2 hline
  · exact .digits c

/-- What is written for a character does not begin with a quote. -/
theorem Code.ne_quote {c : Char} {code : List Char} (h : Code c code) (xs ys : List Char) :
    code ++ xs ≠ '"' :: ys := by
  intro heq
  cases h with
  | plain hq _ _ => exact hq (List.cons.inj heq).1
  | letter k _ _ => cases (List.cons.inj heq).1
  | digits _ => cases (List.cons.inj heq).1

/-- What is written tells the character and where it ends. -/
theorem Code.append_inj {c d : Char} {code code' xs ys : List Char} (hc : Code c code)
    (hd : Code d code') (h : code ++ xs = code' ++ ys) : c = d ∧ xs = ys := by
  cases hc with
  | plain _ hb _ =>
    cases hd with
    | plain _ _ _ => exact List.cons.inj h
    | letter _ _ _ => exact absurd (List.cons.inj h).1 hb
    | digits _ => exact absurd (List.cons.inj h).1 hb
  | letter k hu _ =>
    cases hd with
    | plain _ hb _ => exact absurd (List.cons.inj h).1.symm hb
    | letter k' _ _ =>
      obtain ⟨rfl, hxs⟩ := List.cons.inj (List.cons.inj h).2
      exact ⟨rfl, hxs⟩
    | digits _ => exact absurd (List.cons.inj (List.cons.inj h).2).1 hu
  | digits _ =>
    cases hd with
    | plain _ hb _ => exact absurd (List.cons.inj h).1.symm hb
    | letter k' hu _ => exact absurd (List.cons.inj (List.cons.inj h).2).1.symm hu
    | digits _ =>
      have hbrace : ∀ n, '\x7d' ∉ Nat.toDigits 16 n :=
        not_mem_toDigits (by decide) (fun _ => Nat.digitChar_ne '\x7d' rfl)
      simp only [List.cons_append, List.append_assoc, List.nil_append, List.cons.injEq,
        true_and] at h
      obtain ⟨hdigits, hxs⟩ := word_append_inj (hbrace _) (hbrace _) h
      exact ⟨Char.toNat_inj.1 (toDigits_inj (by decide) (by decide) hdigits), hxs⟩

theorem Code.no_lineFeed {c : Char} {code : List Char} (h : Code c code) : '\n' ∉ code := by
  cases h with
  | plain _ _ hn => simpa using hn.symm
  | letter k _ hn => simpa using hn.symm
  | digits _ =>
    have hdigits := not_mem_toDigits (b := 16) (by decide)
      (fun _ => Nat.digitChar_ne '\n' rfl) c.toNat
    simpa using hdigits

end Quoted

open Quoted

theorem codes_append_inj : ∀ (a b : List Char) {xs ys : List Char},
    a.flatMap encode ++ '"' :: xs = b.flatMap encode ++ '"' :: ys → a = b ∧ xs = ys
  | [], [], _, _, h => ⟨rfl, (List.cons.inj h).2⟩
  | [], d :: b, xs, ys, h => by
    rw [List.flatMap_cons, List.append_assoc] at h
    exact absurd h.symm ((code_encode d).ne_quote _ xs)
  | c :: a, [], xs, ys, h => by
    rw [List.flatMap_cons, List.append_assoc] at h
    exact absurd h ((code_encode c).ne_quote _ ys)
  | c :: a, d :: b, xs, ys, h => by
    rw [List.flatMap_cons, List.flatMap_cons, List.append_assoc, List.append_assoc] at h
    obtain ⟨rfl, hrest⟩ := (code_encode c).append_inj (code_encode d) h
    obtain ⟨rfl, hxs⟩ := codes_append_inj a b hrest
    exact ⟨rfl, hxs⟩

/-- A text in quotes tells the text and where it ends. -/
theorem quote_append_inj {a b xs ys : List Char} (h : quote a ++ xs = quote b ++ ys) :
    a = b ∧ xs = ys := by
  unfold quote at h
  simp only [List.cons_append, List.append_assoc, List.nil_append, List.cons.injEq, true_and] at h
  exact codes_append_inj a b h

/-- A text in quotes stays on one line. -/
theorem lineFeed_not_mem_quote (text : List Char) : '\n' ∉ quote text := by
  have hcodes : '\n' ∉ text.flatMap encode := by
    rw [List.mem_flatMap]
    rintro ⟨c, -, hn⟩
    exact (code_encode c).no_lineFeed hn
  simpa [quote] using hcodes

end ParenLint
