/-
**The value of printed digits.**

The digits that a number is printed with are those of a natural number without the zeros at its end,
which go into the power of ten.  They start with a digit other than zero.

Main definitions:

* `Scientific.significand`, `Scientific.power`, `Scientific.value` — the digits as a whole number,
  the power of ten at the last of them, and the number they stand for;
* `Scientific.Printed` — there are digits, and the first one is not zero.

Main results:

* `Scientific.Printed.value_bounds` — the power of ten at the first digit bounds the value;
* `Scientific.value_ofGrid` — **stripping zeros keeps the value**;
* `Scientific.printed_ofGrid` — the printed digits of a positive number;
* `Scientific.ofGrid_congr` — the digits of a number do not depend on the grid.
-/

import StripeBrush.Decimal
import Mathlib.Algebra.Order.Field.Power
import Mathlib.Data.List.TakeWhile
import Mathlib.Data.Rat.Cast.Order
import Mathlib.Tactic.FieldSimp
import Mathlib.Tactic.IntervalCases
import Mathlib.Tactic.NormNum
import Mathlib.Tactic.Ring

set_option relaxedAutoImplicit false
set_option autoImplicit false

namespace StripeBrush

/-! ### Decimal digits -/

theorem decimalDigits_length_le_iff {n k : ℕ} (hk : 0 < k) :
    (decimalDigits n).length ≤ k ↔ n < 10 ^ k :=
  Nat.length_toDigits_le_iff (by omega) hk

theorem lt_pow_decimalDigits_length (n : ℕ) : n < 10 ^ (decimalDigits n).length :=
  (decimalDigits_length_le_iff Nat.length_toDigits_pos).1 (Nat.le_refl _)

theorem pow_decimalDigits_length_le {n : ℕ} (hn : 0 < n) :
    10 ^ ((decimalDigits n).length - 1) ≤ n := by
  rcases Nat.eq_zero_or_pos ((decimalDigits n).length - 1) with h | h
  · rw [h]
    exact hn
  · by_contra hlt
    have := (decimalDigits_length_le_iff h).2 (Nat.lt_of_not_le hlt)
    omega

theorem decimalDigits_eq_cons {n : ℕ} (hn : 0 < n) :
    ∃ c cs, decimalDigits n = c :: cs ∧ c ≠ '0' := by
  induction n using Nat.strong_induction_on with
  | h n ih =>
      rcases Nat.lt_or_ge n 10 with hlt | hge
      · refine ⟨n.digitChar, [], Nat.toDigits_of_lt_base hlt, ?_⟩
        interval_cases n <;> decide
      · obtain ⟨c, cs, hcs, hc⟩ := ih (n / 10) (by omega) (by omega)
        refine ⟨c, cs ++ [(n % 10).digitChar], ?_, hc⟩
        rw [decimalDigits, Nat.toDigits_of_base_le (by omega) hge]
        exact congrArg (· ++ _) hcs

/-- At most eight digits, filled up with zeros to eight. -/
theorem exists_eight_digits {n : ℕ} (e : ℤ) (hn : 0 < n) (hn8 : n < 10 ^ 8) :
    ∃ (d : ℕ) (k : ℤ), 10 ^ 7 ≤ d ∧ d < 10 ^ 8 ∧ d * (10 : ℚ) ^ k = n * (10 : ℚ) ^ e := by
  have hlen := (decimalDigits_length_le_iff (by decide : 0 < 8)).2 hn8
  have hlo := pow_decimalDigits_length_le hn
  have hhi := lt_pow_decimalDigits_length n
  have hpos : 0 < (decimalDigits n).length := Nat.length_toDigits_pos
  generalize (decimalDigits n).length = len at hlen hlo hhi hpos
  refine ⟨n * 10 ^ (8 - len), e - (8 - len : ℕ), ?_, ?_, ?_⟩
  · calc 10 ^ 7 = 10 ^ (len - 1) * 10 ^ (8 - len) := by
          rw [← Nat.pow_add]
          congr 1
          omega
      _ ≤ n * 10 ^ (8 - len) := Nat.mul_le_mul_right _ hlo
  · calc n * 10 ^ (8 - len) < 10 ^ len * 10 ^ (8 - len) :=
          Nat.mul_lt_mul_of_pos_right hhi (Nat.pow_pos (by omega))
      _ = 10 ^ 8 := by
          rw [← Nat.pow_add]
          congr 1
          omega
  · rw [Nat.cast_mul, Nat.cast_pow, mul_assoc, zpow_sub₀ (by norm_num), zpow_natCast]
    field_simp
    norm_num

theorem toNat_lt_of_isDigit {c : Char} (hc : c.isDigit = true) : c.toNat - '0'.toNat < 10 := by
  have hle : c.toNat ≤ 57 := (Char.isDigit_iff_toNat.1 hc).2
  change c.toNat - 48 < 10
  omega

theorem ofDigitChars_lt {cs : List Char} (hcs : ∀ c ∈ cs, c.isDigit = true) (n : ℕ) :
    Nat.ofDigitChars 10 cs n < (n + 1) * 10 ^ cs.length := by
  induction cs generalizing n with
  | nil => simp
  | cons c cs ih =>
      have hc := toNat_lt_of_isDigit (hcs c List.mem_cons_self)
      have hrest := ih (fun d hd => hcs d (List.mem_cons_of_mem c hd))
        (10 * n + (c.toNat - '0'.toNat))
      rw [Nat.ofDigitChars_cons, List.length_cons, Nat.pow_succ']
      calc Nat.ofDigitChars 10 cs (10 * n + (c.toNat - '0'.toNat))
          < (10 * n + (c.toNat - '0'.toNat) + 1) * 10 ^ cs.length := hrest
        _ ≤ (n + 1) * 10 * 10 ^ cs.length := Nat.mul_le_mul_right _ (by omega)
        _ = (n + 1) * (10 * 10 ^ cs.length) := Nat.mul_assoc _ _ _

/-- A digit is printed as itself. -/
theorem decimalDigits_digit {c : Char} (hc : c.isDigit = true) :
    decimalDigits (c.toNat - '0'.toNat) = [c] := by
  have hlt := toNat_lt_of_isDigit hc
  have hle : 48 ≤ c.toNat := (Char.isDigit_iff_toNat.1 hc).1
  have hchar : (c.toNat - '0'.toNat).digitChar.toNat = c.toNat := by
    rw [Nat.toNat_digitChar_of_lt_ten hlt]
    change 48 + (c.toNat - 48) = _
    omega
  rw [decimalDigits, Nat.toDigits_of_lt_base hlt, Char.toNat_inj.1 hchar]

theorem decimalDigits_ofDigitChars {cs : List Char} (hcs : ∀ c ∈ cs, c.isDigit = true) {n : ℕ}
    (hn : 0 < n) : decimalDigits (Nat.ofDigitChars 10 cs n) = decimalDigits n ++ cs := by
  induction cs generalizing n with
  | nil => exact (List.append_nil _).symm
  | cons c cs ih =>
      have hc := hcs c List.mem_cons_self
      have hdigit := decimalDigits_digit hc
      rw [decimalDigits] at hdigit
      rw [Nat.ofDigitChars_cons, ih (fun d hd => hcs d (List.mem_cons_of_mem c hd)) (by omega),
        decimalDigits, ← Nat.toDigits_append_toDigits (by decide) hn (toNat_lt_of_isDigit hc), hdigit,
        List.append_assoc]
      rfl

namespace Scientific

/-- The digits as a whole number. -/
def significand (s : Scientific) : ℕ := Nat.ofDigitChars 10 s.digits 0

/-- The power of ten at the last digit. -/
def power (s : Scientific) : ℤ := s.exponent + 1 - s.digits.length

/-- The number that is written. -/
def value (s : Scientific) : ℚ := s.significand * (10 : ℚ) ^ s.power

/-- There are digits, all of them decimal, and the first one is not zero. -/
structure Printed (s : Scientific) : Prop where
  isDigit : ∀ c ∈ s.digits, c.isDigit = true
  first : ∃ c cs, s.digits = c :: cs ∧ c ≠ '0'

theorem Printed.significand_lt {s : Scientific} (hs : s.Printed) :
    s.significand < 10 ^ s.digits.length := by
  have hlt := ofDigitChars_lt hs.isDigit 0
  rwa [Nat.zero_add, Nat.one_mul] at hlt

/-- Without a zero in front, the digits are those of the whole number. -/
theorem Printed.digits_eq {s : Scientific} (hs : s.Printed) :
    s.digits = decimalDigits s.significand := by
  obtain ⟨c, cs, hcs, hc⟩ := hs.first
  have hdigit := hs.isDigit c (by rw [hcs]; exact List.mem_cons_self)
  have hpos : 0 < c.toNat - '0'.toNat := by
    have hle : 48 ≤ c.toNat := (Char.isDigit_iff_toNat.1 hdigit).1
    have hne : c.toNat ≠ 48 := fun h => hc (Char.toNat_inj.1 h)
    change 0 < c.toNat - 48
    omega
  have hrest : ∀ d ∈ cs, d.isDigit = true := fun d hd =>
    hs.isDigit d (by rw [hcs]; exact List.mem_cons_of_mem c hd)
  rw [significand, hcs, Nat.ofDigitChars_cons, Nat.mul_zero, Nat.zero_add,
    decimalDigits_ofDigitChars hrest hpos, decimalDigits_digit hdigit]
  rfl

theorem Printed.significand_pos {s : Scientific} (hs : s.Printed) : 0 < s.significand := by
  by_contra h
  obtain ⟨c, cs, hcs, hc⟩ := hs.first
  have hzero := hs.digits_eq
  rw [Nat.eq_zero_of_not_pos h, hcs] at hzero
  exact hc (List.cons.inj hzero).1

theorem Printed.length_pos {s : Scientific} (hs : s.Printed) : 0 < s.digits.length := by
  obtain ⟨c, cs, hcs, -⟩ := hs.first
  rw [hcs]
  exact Nat.succ_pos _

/-- The power of ten at the first digit. -/
theorem Printed.value_bounds {s : Scientific} (hs : s.Printed) :
    (10 : ℚ) ^ s.exponent ≤ s.value ∧ s.value < (10 : ℚ) ^ (s.exponent + 1) := by
  have hlo := pow_decimalDigits_length_le hs.significand_pos
  rw [← hs.digits_eq] at hlo
  obtain ⟨m, hm⟩ : ∃ m, s.digits.length = m + 1 :=
    ⟨s.digits.length - 1, by have := hs.length_pos; omega⟩
  have hhi := hs.significand_lt
  have h10 : (10 : ℚ) ≠ 0 := by norm_num
  have hexp : s.exponent = m + s.power := by
    rw [power, hm]
    push_cast
    ring
  rw [hm] at hlo hhi
  have hlo : (10 : ℚ) ^ m ≤ s.significand := by exact_mod_cast hlo
  have hhi : (s.significand : ℚ) < 10 ^ (m + 1) := by exact_mod_cast hhi
  rw [value, hexp, zpow_add₀ h10, zpow_natCast, add_right_comm, zpow_add₀ h10]
  constructor
  · gcongr
  · refine mul_lt_mul_of_pos_right ?_ (by positivity)
    exact_mod_cast hhi

/-! ### Zeros at the end -/

theorem ofGrid_digits_append (n : ℕ) (e : ℤ) :
    ∃ z, decimalDigits n = (ofGrid n e).digits ++ List.replicate z '0' := by
  have hsplit := List.takeWhile_append_dropWhile (p := (· == '0')) (l := (decimalDigits n).reverse)
  have hzeros : (decimalDigits n).reverse.takeWhile (· == '0') = List.replicate
      ((decimalDigits n).reverse.takeWhile (· == '0')).length '0' := by
    rw [List.eq_replicate_iff]
    refine ⟨rfl, fun c hc => ?_⟩
    simpa using List.mem_takeWhile_imp hc
  refine ⟨((decimalDigits n).reverse.takeWhile (· == '0')).length, ?_⟩
  conv_lhs => rw [← List.reverse_reverse (decimalDigits n), ← hsplit, List.reverse_append, hzeros,
    List.reverse_replicate]
  rfl

theorem significand_ofGrid (n : ℕ) (e : ℤ) {z : ℕ}
    (hz : decimalDigits n = (ofGrid n e).digits ++ List.replicate z '0') :
    n = 10 ^ z * (ofGrid n e).significand := by
  calc n = Nat.ofDigitChars 10 (decimalDigits n) 0 := Nat.ofDigitChars_ten_toDigits.symm
    _ = 10 ^ z * (ofGrid n e).significand := by
        rw [hz, Nat.ofDigitChars_append, Nat.ofDigitChars_replicate_zero, significand]

theorem power_ofGrid (n : ℕ) (e : ℤ) {z : ℕ}
    (hz : decimalDigits n = (ofGrid n e).digits ++ List.replicate z '0') :
    (ofGrid n e).power = e + z := by
  have hlen := congrArg List.length hz
  rw [List.length_append, List.length_replicate] at hlen
  have hexp : (ofGrid n e).exponent = e + (decimalDigits n).length - 1 := rfl
  rw [power, hexp, hlen]
  push_cast
  ring

/-- **Stripping zeros keeps the value.** -/
theorem value_ofGrid (n : ℕ) (e : ℤ) : (ofGrid n e).value = n * (10 : ℚ) ^ e := by
  obtain ⟨z, hz⟩ := ofGrid_digits_append n e
  have hn : (n : ℚ) = 10 ^ z * (ofGrid n e).significand := by
    exact_mod_cast significand_ofGrid n e hz
  rw [value, power_ofGrid n e hz, zpow_add₀ (by norm_num), zpow_natCast]
  conv_rhs => rw [hn]
  ring

theorem printed_ofGrid {n : ℕ} (e : ℤ) (hn : 0 < n) : (ofGrid n e).Printed := by
  obtain ⟨z, hz⟩ := ofGrid_digits_append n e
  obtain ⟨c, cs, hcs, hc⟩ := decimalDigits_eq_cons hn
  constructor
  · intro d hd
    refine Nat.isDigit_of_mem_toDigits (by omega) (Nat.le_refl 10) (c := d) (n := n) ?_
    change d ∈ decimalDigits n
    rw [hz]
    exact List.mem_append_left _ hd
  · rw [hcs] at hz
    cases hdigits : (ofGrid n e).digits with
    | nil =>
        -- only zeros would be left
        rw [hdigits, List.nil_append] at hz
        have := List.eq_of_mem_replicate (hz ▸ List.mem_cons_self : c ∈ List.replicate z '0')
        exact absurd this hc
    | cons d ds =>
        rw [hdigits, List.cons_append] at hz
        obtain ⟨rfl, -⟩ := List.cons.inj hz
        exact ⟨_, ds, rfl, hc⟩

theorem ofGrid_mul_ten {n : ℕ} (hn : 0 < n) (e : ℤ) : ofGrid (n * 10) e = ofGrid n (e + 1) := by
  have hdigits : decimalDigits (n * 10) = decimalDigits n ++ ['0'] := by
    have happend := Nat.toDigits_append_toDigits (b := 10) (d := 0) (by decide) hn (by decide)
    rw [Nat.add_zero, Nat.mul_comm] at happend
    exact happend.symm
  simp only [ofGrid, hdigits, List.reverse_append, List.reverse_singleton, List.singleton_append,
    List.dropWhile_cons, beq_self_eq_true, if_true, List.length_append, List.length_singleton]
  congr 1
  push_cast
  ring

theorem ofGrid_mul_pow {n : ℕ} (hn : 0 < n) (j : ℕ) (e : ℤ) :
    ofGrid (n * 10 ^ j) e = ofGrid n (e + j) := by
  induction j generalizing e with
  | zero => simp
  | succ j ih =>
      rw [Nat.pow_succ, ← Nat.mul_assoc, ofGrid_mul_ten (Nat.mul_pos hn (Nat.pow_pos (by omega))), ih]
      congr 1
      push_cast
      ring

/-- On any grid, a number has the same digits. -/
theorem ofGrid_congr {n m : ℕ} {e f : ℤ} (hn : 0 < n) (hm : 0 < m)
    (h : n * (10 : ℚ) ^ e = m * (10 : ℚ) ^ f) : ofGrid n e = ofGrid m f := by
  wlog hle : e ≤ f generalizing n m e f
  · exact (this hm hn h.symm (by omega)).symm
  obtain ⟨j, rfl⟩ : ∃ j : ℕ, f = e + j := ⟨(f - e).toNat, by omega⟩
  have hcast : (n : ℚ) = m * 10 ^ j := by
    rw [zpow_add₀ (by norm_num), zpow_natCast, mul_comm ((10 : ℚ) ^ e), ← mul_assoc] at h
    exact mul_right_cancel₀ (by positivity) h
  have heq : n = m * 10 ^ j := by exact_mod_cast hcast
  rw [heq, ofGrid_mul_pow hm]

theorem length_ofGrid_le {n k : ℕ} (e : ℤ) (hn : n ≤ 10 ^ k) (hk : 0 < k) :
    (ofGrid n e).digits.length ≤ k := by
  rcases Nat.lt_or_eq_of_le hn with hlt | rfl
  · obtain ⟨z, hz⟩ := ofGrid_digits_append n e
    have hlen := (decimalDigits_length_le_iff hk).2 hlt
    rw [hz, List.length_append] at hlen
    omega
  · have hone := ofGrid_mul_pow Nat.one_pos k e
    rw [Nat.one_mul] at hone
    rw [hone]
    exact hk

end Scientific

end StripeBrush
