/-
**Values are passed over up to their end.**

A value that nobody wants is passed over by a reader that keeps the brackets around it on a stack.  By
induction on the derivation of the value, the reader leaves exactly what follows it, and takes less
than two steps for each character.

Main definitions:

* `Json.Phrase.skip` — the reader for each sort of phrase;
* `Json.Phrase.Skips` — it takes a phrase off the front of any text.

Main results:

* `Json.Derives.skips` — **every phrase is passed over up to its end**;
* `Json.Derives.skipValue_eq` — every value is.
-/

import StripeBrush.Proofs.Json.Number
import StripeBrush.Proofs.Json.Text

set_option relaxedAutoImplicit false
set_option autoImplicit false

namespace StripeBrush.Json

/-! ### Blanks -/

theorem skipBlanks_append (b : Blanks) (cs : List Char) :
    skipBlanks (b.1 ++ cs) = skipBlanks cs :=
  List.dropWhile_append_of_pos b.2

theorem skipBlanks_skipBlanks (cs : List Char) : skipBlanks (skipBlanks cs) = skipBlanks cs := by
  induction cs with
  | nil => rfl
  | cons c cs ih =>
      cases hc : isBlank c with
      | true => rw [skipBlanks_cons_of_blank hc, ih]
      | false => rw [skipBlanks_cons hc, skipBlanks_cons hc]

theorem readColon_append (b : Blanks) (cs : List Char) : readColon (b.1 ++ ':' :: cs) = .ok cs := by
  rw [readColon, skipBlanks_append, skipBlanks_cons rfl]
  rfl

/-! ### The first character of a phrase -/

/-- The first character of a text, after blanks, closes no bracket. -/
def Opens (cs : List Char) : Prop :=
  ∃ c ds, skipBlanks cs = c :: ds ∧ ∀ b : Bracket, c ≠ b.close

theorem opens_cons {c : Char} (cs : List Char) (hc : isBlank c = false)
    (hclose : ∀ b : Bracket, c ≠ b.close) : Opens (c :: cs) :=
  ⟨c, cs, skipBlanks_cons hc cs, hclose⟩

theorem eq_of_wordAfter {c : Char} {cs : List Char} (h : wordAfter c = some cs) :
    c = 'n' ∨ c = 't' ∨ c = 'f' := by
  unfold wordAfter at h
  split at h <;> simp_all

theorem Derives.opens {p : Phrase} {cs : List Char} (h : Derives p cs)
    (hp : p = .value ∨ ∃ b, p = .item b) (rest : List Char) : Opens (cs ++ rest) := by
  induction h with
  | blank hc _ ih =>
      obtain ⟨c, ds, htext, hclose⟩ := ih hp
      exact ⟨c, ds, (skipBlanks_cons_of_blank hc _).trans htext, hclose⟩
  | word hc =>
      rcases eq_of_wordAfter hc with rfl | rfl | rfl <;>
        exact opens_cons _ rfl (by rintro (_ | _) <;> decide)
  | number n =>
      obtain ⟨c, ds, htext, hc⟩ := n.exists_cons
      rw [NumberForm.letters, htext]
      split
      · exact opens_cons _ rfl (by rintro (_ | _) <;> decide)
      · refine opens_cons _ (isBlank_of_isDigit hc) ?_
        rintro (_ | _) rfl <;> cases hc
  | text => exact opens_cons _ rfl (by rintro (_ | _) <;> decide)
  | @group b => cases b <;> exact opens_cons _ rfl (by rintro (_ | _) <;> decide)
  | item _ ih => exact ih (Or.inl rfl)
  | member => exact opens_cons _ rfl (by rintro (_ | _) <;> decide)
  | empty | first | close | next => simp at hp

/-! ### Passing over a phrase -/

/-- An item of a list, or a member of an object, in a bracket that is open. -/
def skipItem (fuel : ℕ) (stack : List Bracket) (b : Bracket) (cs : List Char) :
    Except ReadError (List Char) :=
  skipLabel b cs >>= skipAux fuel .value (b :: stack)

namespace Phrase

/-- The reader for each sort of phrase. -/
def skip : Phrase → ℕ → List Bracket → List Char → Except ReadError (List Char)
  | value, fuel, stack, cs => skipAux fuel .value stack cs
  | item b, fuel, stack, cs => skipItem fuel stack b cs
  | entries b, fuel, stack, cs => skipAux fuel .first (b :: stack) cs
  | more b, fuel, stack, cs => skipAux fuel .next (b :: stack) cs

/-- The brackets that are open after a phrase. -/
def around : Phrase → List Bracket → List Bracket
  | item b, stack => b :: stack
  | _, stack => stack

theorem skip_skipBlanks (p : Phrase) (fuel : ℕ) (stack : List Bracket) (cs : List Char) :
    p.skip fuel stack (skipBlanks cs) = p.skip fuel stack cs := by
  have hvalue : ∀ stack,
      skipAux fuel .value stack (skipBlanks cs) = skipAux fuel .value stack cs := by
    intro stack
    cases fuel with
    | zero => rfl
    | succ fuel => simp only [skipAux, skipBlanks_skipBlanks]
  cases p with
  | value => exact hvalue stack
  | item b =>
      cases b with
      | list => exact hvalue _
      | object =>
          simp only [skip, skipItem, skipLabel, skipKey, skipBlanks_skipBlanks]
  | entries b =>
      cases fuel with
      | zero => rfl
      | succ fuel =>
          rw [skip, skip, skipAux_bracket (by decide), skipAux_bracket (by decide),
            skipBlanks_skipBlanks]
  | more b =>
      cases fuel with
      | zero => rfl
      | succ fuel =>
          rw [skip, skip, skipAux_bracket (by decide), skipAux_bracket (by decide),
            skipBlanks_skipBlanks]

end Phrase

/-- A phrase is passed over up to its end, in less than two steps for each character. -/
def Phrase.Skips (p : Phrase) (cs : List Char) : Prop :=
  ∃ k < 2 * cs.length, ∀ fuel stack rest, EndsNumber rest →
    p.skip (fuel + k) stack (cs ++ rest) = skipAux fuel .next (p.around stack) rest

/-- A value that is neither a list nor an object takes one step. -/
theorem skips_scalar {c : Char} {cs : List Char} (hc : isBlank c = false)
    (hopen : ∀ b : Bracket, c ≠ b.opening)
    (hscalar : ∀ rest, EndsNumber rest → skipScalar c (cs ++ rest) = .ok rest) :
    Phrase.value.Skips (c :: cs) := by
  have hlist : c ≠ '[' := hopen .list
  have hobject : c ≠ '{' := hopen .object
  refine ⟨1, by rw [List.length_cons]; omega, fun fuel stack rest hrest => ?_⟩
  have hnext := hscalar rest hrest
  rw [Phrase.skip, skipAux, List.cons_append, skipBlanks_cons hc]
  split
  · simp_all
  · simp_all
  · simp_all
  · next heq =>
      obtain ⟨rfl, rfl⟩ := List.cons.inj heq
      simp only [hnext, bind, Except.bind, Phrase.around]

theorem skips_number (n : NumberForm) : Phrase.value.Skips n.letters := by
  rw [NumberForm.letters]
  split
  · exact skips_scalar rfl (by rintro (_ | _) <;> decide) fun rest hrest =>
      skipNumber_unsigned n hrest
  · obtain ⟨c, cs, htext, hc⟩ := n.exists_cons
    have hskip : ∀ rest, EndsNumber rest → skipNumber (c :: (cs ++ rest)) = .ok rest := by
      intro rest hrest
      rw [← List.cons_append, ← htext]
      exact skipNumber_unsigned n hrest
    rw [htext]
    refine skips_scalar (isBlank_of_isDigit hc) ?_ fun rest hrest => ?_
    · rintro (_ | _) rfl <;> cases hc
    · have hword : wordAfter c = none := by
        unfold wordAfter
        split <;> first | rfl | cases hc
      have hminus : c ≠ '-' := by
        rintro rfl
        cases hc
      simp only [skipScalar, hword, hminus, hc, if_false, if_true, hskip rest hrest]

theorem skipKey_append (parts : List TextPart) (b : Blanks) (cs : List Char) :
    skipKey ('"' :: (letters parts ++ '"' :: (b.1 ++ ':' :: cs))) = .ok cs := by
  obtain ⟨key, hkey⟩ := exists_readText_letters parts (b.1 ++ ':' :: cs)
  rw [skipKey, skipBlanks_cons rfl]
  simp only [hkey, bind, Except.bind, readColon_append]

/-- **Every phrase is passed over up to its end.** -/
theorem Derives.skips {p : Phrase} {cs : List Char} (h : Derives p cs) : p.Skips cs := by
  -- by induction on the derivation: each rule is one step of the reader, or none
  induction h with
  | @blank p c cs hc _ ih =>
      obtain ⟨k, hk, hskip⟩ := ih
      refine ⟨k, by rw [List.length_cons]; omega, fun fuel stack rest hrest => ?_⟩
      rw [← hskip fuel stack rest hrest, List.cons_append, ← Phrase.skip_skipBlanks,
        skipBlanks_cons_of_blank hc, Phrase.skip_skipBlanks]
  | @word c cs hc =>
      have hscalar : ∀ rest, EndsNumber rest → skipScalar c (cs ++ rest) = .ok rest := by
        intro rest _
        rw [skipScalar, hc]
        exact readWord_append cs rest
      rcases eq_of_wordAfter hc with rfl | rfl | rfl <;>
        exact skips_scalar rfl (by rintro (_ | _) <;> decide) hscalar
  | number n => exact skips_number n
  | text parts =>
      refine skips_scalar rfl (by rintro (_ | _) <;> decide) fun rest _ => ?_
      obtain ⟨cs, hcs⟩ := exists_readText_letters parts rest
      rw [List.append_assoc]
      exact congrArg (Except.map Prod.snd) hcs
  | @group b cs _ ih =>
      obtain ⟨k, hk, hskip⟩ := ih
      refine ⟨k + 1, by rw [List.length_cons]; omega, fun fuel stack rest hrest => ?_⟩
      refine Eq.trans ?_ (hskip fuel stack rest hrest)
      cases b <;> rfl
  | item _ ih =>
      obtain ⟨k, hk, hskip⟩ := ih
      exact ⟨k, hk, fun fuel stack rest hrest => hskip fuel (.list :: stack) rest hrest⟩
  | @member parts b cs _ ih =>
      obtain ⟨k, hk, hskip⟩ := ih
      refine ⟨k, by simp only [List.length_cons, List.length_append]; omega, ?_⟩
      intro fuel stack rest hrest
      refine Eq.trans ?_ (hskip fuel (.object :: stack) rest hrest)
      have hkey := skipKey_append parts b (cs ++ rest)
      simp only [Phrase.skip, skipItem, skipLabel, List.cons_append, List.append_assoc, hkey, bind,
        Except.bind]
  | empty b =>
      refine ⟨1, Nat.one_lt_two, fun fuel stack rest _ => ?_⟩
      cases b <;> rfl
  | @first b cs ds hitem hmore ihitem ihmore =>
      obtain ⟨k, hk, hskip⟩ := ihitem
      obtain ⟨l, hl, hskip'⟩ := ihmore
      refine ⟨k + l + 1, by rw [List.length_append]; omega, fun fuel stack rest hrest => ?_⟩
      obtain ⟨c, cs', htext, hclose⟩ := hitem.opens (Or.inr ⟨b, rfl⟩) (ds ++ rest)
      have hfuel : fuel + (k + l + 1) = fuel + l + k + 1 := by omega
      rw [Phrase.skip, hfuel, List.append_assoc, skipAux_bracket (by decide), htext]
      simp only [hclose b, if_false, if_true]
      rw [← htext]
      refine (Phrase.skip_skipBlanks (.item b) _ _ _).trans ?_
      exact (hskip (fuel + l) stack _ (hmore.endsNumber rest)).trans (hskip' fuel stack rest hrest)
  | close b =>
      refine ⟨1, Nat.one_lt_two, fun fuel stack rest _ => ?_⟩
      cases b <;> rfl
  | @next b cs ds hitem hmore ihitem ihmore =>
      obtain ⟨k, hk, hskip⟩ := ihitem
      obtain ⟨l, hl, hskip'⟩ := ihmore
      refine ⟨k + l + 1, by rw [List.length_cons, List.length_append]; omega, ?_⟩
      intro fuel stack rest hrest
      have hfuel : fuel + (k + l + 1) = fuel + l + k + 1 := by omega
      have hclose : ',' ≠ b.close := by cases b <;> decide
      rw [Phrase.skip, hfuel, List.cons_append, List.append_assoc, skipAux_bracket (by decide),
        skipBlanks_cons rfl]
      simp only [hclose, reduceCtorEq, if_false, if_true]
      exact (hskip (fuel + l) stack _ (hmore.endsNumber rest)).trans (hskip' fuel stack rest hrest)

/-- **Every value is passed over.** -/
theorem Derives.skipValue_eq {cs rest : List Char} (h : Derives .value cs)
    (hrest : EndsNumber rest) : skipValue (cs ++ rest) = .ok rest := by
  obtain ⟨k, hk, hskip⟩ := h.skips
  obtain ⟨n, hn⟩ : ∃ n, skipFuel (cs ++ rest).length = n + 1 + k := by
    refine ⟨skipFuel (cs ++ rest).length - k - 1, ?_⟩
    rw [skipFuel, List.length_append]
    omega
  rw [skipValue, hn]
  exact hskip (n + 1) [] rest hrest

end StripeBrush.Json
