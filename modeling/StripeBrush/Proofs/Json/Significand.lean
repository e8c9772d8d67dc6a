/-
**The digits that are gathered from a number.**

The significand of a number takes its digits up to the first one that would bring it to its bound.
That digit and those after it are left over, before the point and after it.  What is left over makes
the number no smaller, and larger by less than one part in `2 ^ 60`.

Main results:

* `Json.absorb_eq` — digits that stay below the bound are gathered completely;
* `Json.absorb_spec` — what is gathered, and what is left over;
* `Json.NumberForm.significand_mul_le`, `Json.NumberForm.magnitude_le` — **the significand, scaled, is
  the number that is written, but for the digits that are left over**.
-/

import Mathlib.Tactic.Linarith
import Mathlib.Tactic.Ring
import StripeBrush.Proofs.Decimal.Digits
import StripeBrush.Proofs.Json.Forms

set_option relaxedAutoImplicit false
set_option autoImplicit false

namespace StripeBrush.Json

/-! ### Digits -/

theorem le_ofDigitChars (cs : List Char) (n : ℕ) : n ≤ Nat.ofDigitChars 10 cs n := by
  induction cs generalizing n with
  | nil => exact Nat.le_refl n
  | cons c cs ih =>
      rw [Nat.ofDigitChars_cons]
      exact Nat.le_trans (by omega) (ih _)

/-- Digits that stay below the bound are absorbed completely. -/
theorem absorb_eq (cs : List Char) {n : ℕ} (h : Nat.ofDigitChars 10 cs n < significandBound) :
    absorb n cs = (Nat.ofDigitChars 10 cs n, []) := by
  induction cs generalizing n with
  | nil => rfl
  | cons c cs ih =>
      rw [Nat.ofDigitChars_cons] at h ⊢
      have hnext : n * 10 + digitValue c = 10 * n + (c.toNat - '0'.toNat) := by
        rw [digitValue, Nat.mul_comm]
      -- the next significand is below the bound because the last one is
      have hlt := Nat.lt_of_le_of_lt (le_ofDigitChars cs _) h
      rw [← hnext] at hlt h ⊢
      simp only [absorb, if_pos hlt]
      exact ih h

theorem mul_pow_le_ofDigitChars (n : ℕ) (cs : List Char) :
    n * 10 ^ cs.length ≤ Nat.ofDigitChars 10 cs n := by
  rw [Nat.ofDigitChars_eq_ofDigitChars_zero, Nat.mul_comm]
  exact Nat.le_add_right _ _

theorem absorb_lt {n : ℕ} (hn : n < significandBound) (cs : List Char) :
    (absorb n cs).1 < significandBound := by
  induction cs generalizing n with
  | nil => exact hn
  | cons c cs ih =>
      simp only [absorb]
      split
      · next hnext => exact ih hnext
      · exact hn

/-- The digits that are gathered come first; with the first one that is left over, they would reach
the bound. -/
theorem absorb_spec (n : ℕ) (cs : List Char) :
    ∃ taken, cs = taken ++ (absorb n cs).2 ∧ (absorb n cs).1 = Nat.ofDigitChars 10 taken n ∧
      ∀ c ∈ (absorb n cs).2.head?, significandBound ≤ Nat.ofDigitChars 10 (taken ++ [c]) n := by
  induction cs generalizing n with
  | nil => exact ⟨[], rfl, rfl, by simp [absorb]⟩
  | cons c cs ih =>
      have hnext : n * 10 + digitValue c = 10 * n + (c.toNat - '0'.toNat) := by
        rw [digitValue, Nat.mul_comm]
      simp only [absorb]
      split
      · obtain ⟨taken, htext, hvalue, hbound⟩ := ih (n * 10 + digitValue c)
        refine ⟨c :: taken, congrArg (c :: ·) htext, ?_, ?_⟩
        · rw [hvalue, Nat.ofDigitChars_cons, hnext]
        · intro d hd
          rw [List.cons_append, Nat.ofDigitChars_cons, ← hnext]
          exact hbound d hd
      · next hfull =>
          refine ⟨[], rfl, rfl, ?_⟩
          intro d hd
          obtain rfl : c = d := by simpa using hd
          rw [List.nil_append, Nat.ofDigitChars_cons, Nat.ofDigitChars_nil, ← hnext]
          exact Nat.le_of_not_lt hfull

theorem ofDigitChars_mul_le {m : ℕ} (hm : 2 ^ 60 ≤ m) {cs : List Char}
    (hcs : ∀ c ∈ cs, c.isDigit = true) :
    Nat.ofDigitChars 10 cs m * 2 ^ 60 ≤ m * 10 ^ cs.length * (2 ^ 60 + 1) := by
  calc Nat.ofDigitChars 10 cs m * 2 ^ 60 ≤ (m + 1) * 10 ^ cs.length * 2 ^ 60 :=
        Nat.mul_le_mul_right _ (ofDigitChars_lt hcs m).le
    _ = (m * 2 ^ 60 + 2 ^ 60) * 10 ^ cs.length := by ring
    _ ≤ (m * 2 ^ 60 + m) * 10 ^ cs.length := Nat.mul_le_mul_right _ (by omega)
    _ = m * 10 ^ cs.length * (2 ^ 60 + 1) := by ring

/-- A significand with a digit left over is long. -/
theorem two_pow_le_of_significandBound_le {m : ℕ} {c : Char} {taken : List Char} {n : ℕ}
    (hm : m = Nat.ofDigitChars 10 taken n) (hc : c.isDigit = true)
    (h : significandBound ≤ Nat.ofDigitChars 10 (taken ++ [c]) n) : 2 ^ 60 ≤ m := by
  have hdigit := toNat_lt_of_isDigit hc
  rw [Nat.ofDigitChars_append, ← hm, Nat.ofDigitChars_cons, Nat.ofDigitChars_nil,
    significandBound] at h
  omega

/-! ### Significands -/

namespace NumberForm

variable (n : NumberForm)

theorem significand_lt : n.significand < significandBound :=
  absorb_lt (absorb_lt (Nat.two_pow_pos 64) _) _

/-- With zeros for the digits that are left over, the significand is at most all digits. -/
theorem significand_mul_pow_le :
    n.significand * 10 ^ ((absorb 0 n.whole).2.length +
      (absorb (absorb 0 n.whole).1 n.fraction).2.length) ≤ n.digitsValue := by
  obtain ⟨taken, htext, hvalue, hbound⟩ := absorb_spec 0 n.whole
  obtain ⟨taken', htext', hvalue', -⟩ := absorb_spec (absorb 0 n.whole).1 n.fraction
  have hlt := n.significand_lt
  rw [significand] at hlt ⊢
  generalize (absorb 0 n.whole).2 = left at htext hbound ⊢
  generalize (absorb (absorb 0 n.whole).1 n.fraction).2 = left' at htext' ⊢
  rw [hvalue', hvalue, ← Nat.ofDigitChars_append] at hlt ⊢
  rw [digitsValue, htext, htext']
  cases left with
  | nil =>
      have hall := mul_pow_le_ofDigitChars (Nat.ofDigitChars 10 (taken ++ taken') 0) left'
      rw [← Nat.ofDigitChars_append] at hall
      simpa using hall
  | cons c left =>
      cases taken' with
      | nil =>
          have hall := mul_pow_le_ofDigitChars (Nat.ofDigitChars 10 taken 0) ((c :: left) ++ left')
          rw [← Nat.ofDigitChars_append, List.length_append] at hall
          simpa using hall
      | cons d taken' =>
          -- the digit that does not fit weighs more than one that does
          have hall := mul_pow_le_ofDigitChars (Nat.ofDigitChars 10 (taken ++ [c]) 0)
            (left ++ (d :: taken' ++ left'))
          rw [← Nat.ofDigitChars_append] at hall
          have hweight := (hlt.trans_le (hbound c rfl)).le
          have hlen : (c :: left).length + left'.length ≤ (left ++ (d :: taken' ++ left')).length := by
            simp only [List.length_cons, List.length_append]
            omega
          calc _ ≤ Nat.ofDigitChars 10 (taken ++ [c]) 0 *
                10 ^ (left ++ (d :: taken' ++ left')).length :=
                Nat.mul_le_mul hweight (Nat.pow_le_pow_right (by omega) hlen)
            _ ≤ _ := hall
            _ = _ := by simp

theorem power_add_exponentValue :
    n.power + n.exponentValue = ((absorb 0 n.whole).2.length +
      (absorb (absorb 0 n.whole).1 n.fraction).2.length : ℕ) +
        (n.exponentValue - n.fraction.length) := by
  obtain ⟨taken, htext, -, -⟩ := absorb_spec (absorb 0 n.whole).1 n.fraction
  have hlen := congrArg List.length htext
  rw [List.length_append] at hlen
  rw [power]
  push_cast
  omega

/-- **The scaled significand is at most the number that is written.** -/
theorem significand_mul_le :
    (n.significand : ℚ) * 10 ^ (n.power + n.exponentValue) ≤ n.magnitude := by
  have hdigits := n.significand_mul_pow_le
  rw [n.power_add_exponentValue, zpow_add₀ (by norm_num), zpow_natCast, ← mul_assoc, magnitude]
  refine mul_le_mul_of_nonneg_right ?_ (by positivity)
  exact_mod_cast hdigits

theorem isDigit_whole : ∀ c ∈ n.whole, c.isDigit = true := by
  rcases n.isWhole with h | ⟨-, h⟩
  · intro c hc
    rw [h] at hc
    obtain rfl := List.mem_singleton.1 hc
    rfl
  · exact h

theorem digitsValue_mul_le :
    n.digitsValue * 2 ^ 60 ≤ n.significand * 10 ^ ((absorb 0 n.whole).2.length +
      (absorb (absorb 0 n.whole).1 n.fraction).2.length) * (2 ^ 60 + 1) := by
  obtain ⟨taken, htext, hvalue, hbound⟩ := absorb_spec 0 n.whole
  obtain ⟨taken', htext', hvalue', hbound'⟩ := absorb_spec (absorb 0 n.whole).1 n.fraction
  have hwhole := n.isDigit_whole
  have hfraction := n.isDigit
  rw [digitsValue, Nat.ofDigitChars_append, significand]
  generalize (absorb 0 n.whole).2 = left at htext hbound ⊢
  generalize (absorb 0 n.whole).1 = m at hvalue hvalue' htext' hbound' ⊢
  generalize (absorb m n.fraction).2 = left' at htext' hbound' ⊢
  generalize (absorb m n.fraction).1 = m' at hvalue' ⊢
  rw [htext] at hwhole ⊢
  rw [htext'] at hfraction ⊢
  rw [Nat.ofDigitChars_append (l := taken), ← hvalue]
  cases left with
  | nil =>
      rw [Nat.ofDigitChars_nil, Nat.ofDigitChars_append, ← hvalue', List.length_nil, Nat.zero_add]
      cases left' with
      | nil =>
          rw [Nat.ofDigitChars_nil, List.length_nil, Nat.pow_zero, Nat.mul_one]
          exact Nat.mul_le_mul_left _ (Nat.le_succ _)
      | cons c left' =>
          have hlong := two_pow_le_of_significandBound_le hvalue' (hfraction c (by simp))
            (hbound' c rfl)
          exact ofDigitChars_mul_le hlong fun d hd => hfraction d (List.mem_append_right _ hd)
  | cons c left =>
      have hlong := two_pow_le_of_significandBound_le hvalue (hwhole c (by simp)) (hbound c rfl)
      have hrest : ∀ d ∈ (c :: left) ++ (taken' ++ left'), d.isDigit = true := by
        intro d hd
        rcases List.mem_append.1 hd with hd | hd
        · exact hwhole d (List.mem_append_right _ hd)
        · exact hfraction d hd
      -- the digits that are taken after the point make the significand at least as much longer
      have htaken := mul_pow_le_ofDigitChars m taken'
      rw [← hvalue'] at htaken
      rw [← Nat.ofDigitChars_append]
      calc _ ≤ m * 10 ^ ((c :: left) ++ (taken' ++ left')).length * (2 ^ 60 + 1) :=
            ofDigitChars_mul_le hlong hrest
        _ = m * 10 ^ taken'.length * 10 ^ ((c :: left).length + left'.length) * (2 ^ 60 + 1) := by
            rw [List.length_append, List.length_append]
            ring
        _ ≤ _ := Nat.mul_le_mul_right _ (Nat.mul_le_mul_right _ htaken)

/-- **The number that is written is little more than the scaled significand.** -/
theorem magnitude_le :
    n.magnitude ≤ n.significand * 10 ^ (n.power + n.exponentValue) * (1 + 1 / 2 ^ 60) := by
  have hdigits := n.digitsValue_mul_le
  rw [n.power_add_exponentValue, zpow_add₀ (by norm_num), zpow_natCast, magnitude]
  have hcast : (n.digitsValue : ℚ) * 2 ^ 60 ≤ n.significand * 10 ^ ((absorb 0 n.whole).2.length +
      (absorb (absorb 0 n.whole).1 n.fraction).2.length) * (2 ^ 60 + 1) := by
    exact_mod_cast hdigits
  have hten : (0 : ℚ) ≤ 10 ^ (n.exponentValue - n.fraction.length) := by positivity
  generalize (10 : ℚ) ^ (n.exponentValue - n.fraction.length) = t at hten ⊢
  have hscaled := mul_le_mul_of_nonneg_right hcast hten
  linarith

end NumberForm

end StripeBrush.Json
