/-
**How well a decimal number is scaled.**

The significand of a number is exact in double precision, the power of ten is rounded, and their
product or quotient is rounded once more.  What comes out misses the decimal number by less than
four units of the relative rounding error, and does not miss it at all where the power of ten and
the result are themselves numbers of the format.

Main results:

* `Binary.ofQuanta_close` — one rounding in double precision;
* `Json.timesTenTo_close` — **a scaled significand is within `2 ^ -51` of the decimal number**;
* `Json.timesTenTo_exact` — short powers of ten are scaled by without an error, where the result
  allows it.
-/

import StripeBrush.Json.Notation
import StripeBrush.Proofs.Binary.Rounding
import Mathlib.Algebra.Order.Field.Power
import Mathlib.Tactic.FieldSimp
import Mathlib.Tactic.NormNum
import Mathlib.Tactic.Positivity

set_option relaxedAutoImplicit false
set_option autoImplicit false

namespace StripeBrush

namespace Format

theorem value_lt_of_lt_infIndex {i : ℕ} (h : binary64.value i < 10 ^ 101) :
    i < binary64.infIndex := by
  refine binary64.magnitude_strictMono.lt_iff_lt.1 ?_
  rw [magnitude_infIndex64]
  have hmag := binary64.magnitude_eq_value i
  have hlt : (binary64.magnitude i : ℚ) < 10 ^ 101 * 2 ^ binary64.scale := by
    rw [hmag]
    exact mul_lt_mul_of_pos_right h (by positivity)
  have hwide : 10 ^ 101 * 2 ^ binary64.scale ≤ 2 ^ 52 * 2 ^ 2046 := by decide +kernel
  have hwide : (10 : ℚ) ^ 101 * 2 ^ binary64.scale ≤ 2 ^ 52 * 2 ^ 2046 := by exact_mod_cast hwide
  exact_mod_cast lt_of_lt_of_le hlt hwide

end Format

namespace Binary

open Format

/-- One rounding in double precision, far from both ends of the format. -/
theorem ofQuanta_close {num den : ℕ} (hd : 0 < den) {x : ℚ}
    (hx : (num : ℚ) / den = x * 2 ^ binary64.scale) (hlo : 1 / 10 ^ 100 ≤ x) (hhi : x ≤ 10 ^ 100) :
    ∃ j : Fin binary64.infIndex, ofQuanta binary64 false num den = finite false j ∧
      |binary64.value j - x| ≤ x / 2 ^ 53 := by
  have hd' : (0 : ℚ) < den := by exact_mod_cast hd
  have hlong : 2 ^ binary64.fracBits * den ≤ num := by
    have hfill : 2 ^ 52 * 10 ^ 100 ≤ 2 ^ binary64.scale := by decide +kernel
    have hfill : (2 : ℚ) ^ 52 ≤ 1 / 10 ^ 100 * 2 ^ binary64.scale := by
      rw [one_div_mul_eq_div, le_div_iff₀ (by positivity)]
      exact_mod_cast hfill
    have : (2 : ℚ) ^ 52 ≤ num / den := by
      rw [hx]
      exact hfill.trans (mul_le_mul_of_nonneg_right hlo (by positivity))
    rw [le_div_iff₀ hd'] at this
    exact_mod_cast this
  have herr := binary64.roundIndex_error hd hlong
  rw [hx, magnitude_eq_value] at herr
  have hclose : |binary64.value (binary64.roundIndex num den) - x| ≤ x / 2 ^ 53 := by
    have hscale : (0 : ℚ) < 2 ^ binary64.scale := pow_pos two_pos _
    refine le_of_mul_le_mul_right ?_ hscale
    calc |binary64.value (binary64.roundIndex num den) - x| * 2 ^ binary64.scale
        = |binary64.value (binary64.roundIndex num den) * 2 ^ binary64.scale - x * 2 ^ binary64.scale| := by
          rw [← sub_mul, abs_mul, abs_of_pos hscale]
      _ ≤ x * 2 ^ binary64.scale / 2 ^ 53 := herr
      _ = x / 2 ^ 53 * 2 ^ binary64.scale := by ring
  have hlt : binary64.roundIndex num den < binary64.infIndex := by
    refine value_lt_of_lt_infIndex ?_
    have h := (abs_le.1 hclose).2
    have h2 : x / 2 ^ 53 ≤ x := div_le_self (by linarith [show (0 : ℚ) ≤ 1 / 10 ^ 100 by positivity])
      (by norm_num)
    have h3 : (2 : ℚ) * 10 ^ 100 < 10 ^ 101 := by norm_num
    linarith
  refine ⟨⟨_, hlt⟩, ?_, hclose⟩
  rw [ofQuanta, ofIndex, dif_pos hlt]

/-- A ratio that is a magnitude of the format is not rounded. -/
theorem ofQuanta_exact {num den m e : ℕ} (hd : 0 < den) (hm : m ≤ 2 ^ 53) {x : ℚ}
    (hx : (num : ℚ) / den = x * 2 ^ binary64.scale) (hhi : x ≤ 10 ^ 100) (hme : x * 2 ^ binary64.scale = m * 2 ^ e) :
    ∃ j : Fin binary64.infIndex, ofQuanta binary64 false num den = finite false j ∧
      binary64.value j = x := by
  have hd' : (0 : ℚ) < den := by exact_mod_cast hd
  have hscale : (0 : ℚ) < 2 ^ binary64.scale := pow_pos two_pos _
  obtain ⟨j, hj⟩ := binary64.exists_magnitude e hm
  have hval : binary64.value j = x := by
    have hmag := binary64.magnitude_eq_value j
    rw [hj] at hmag
    push_cast at hmag
    exact mul_right_cancel₀ hscale.ne' (hmag.symm.trans hme.symm)
  have hlt : j < binary64.infIndex := by
    refine value_lt_of_lt_infIndex ?_
    rw [hval]
    exact lt_of_le_of_lt hhi (by norm_num)
  have hnum : num = binary64.magnitude j * den := by
    rw [hme, div_eq_iff hd'.ne'] at hx
    rw [hj]
    exact_mod_cast hx
  refine ⟨⟨j, hlt⟩, ?_, hval⟩
  rw [hnum]
  exact ofQuanta_magnitude false ⟨j, hlt⟩ hd

/-- A natural number of at most fifty-three bits is exact in double precision. -/
theorem ofNat_exact {n : ℕ} (hn : n ≤ 2 ^ 53) :
    ∃ j : Fin binary64.infIndex, ofNat binary64 n = finite false j ∧ binary64.value j = n := by
  refine ofQuanta_exact (m := n) (e := binary64.scale) Nat.one_pos hn ?_ ?_ rfl
  · push_cast
    exact div_one _
  · have : (n : ℚ) ≤ 2 ^ 53 := by exact_mod_cast hn
    exact this.trans (by norm_num)

theorem tenTo_eq (k : ℕ) : Json.tenTo k = ofQuanta binary64 false (10 ^ k * 2 ^ binary64.scale) 1 := by
  rw [Json.tenTo, ofDecimal, decimalIndex, if_pos (Int.natCast_nonneg k), Int.toNat_natCast,
    Nat.one_mul]
  rfl

theorem tenTo_close {k : ℕ} (hk : k ≤ 100) :
    ∃ j : Fin binary64.infIndex, Json.tenTo k = finite false j ∧
      |binary64.value j - 10 ^ k| ≤ 10 ^ k / 2 ^ 53 := by
  rw [tenTo_eq]
  refine ofQuanta_close Nat.one_pos ?_ ?_ ?_
  · push_cast
    exact div_one _
  · have hten : (1 : ℚ) ≤ 10 ^ k := one_le_pow₀ (by norm_num)
    have hsmall : (1 : ℚ) / 10 ^ 100 ≤ 1 := by norm_num
    exact hsmall.trans hten
  · exact pow_le_pow_right₀ (by norm_num) hk

theorem tenTo_exact {k : ℕ} (hk : k ≤ 22) :
    ∃ j : Fin binary64.infIndex, Json.tenTo k = finite false j ∧ binary64.value j = 10 ^ k := by
  rw [tenTo_eq]
  refine ofQuanta_exact (m := 5 ^ k) (e := k + binary64.scale) Nat.one_pos ?_ ?_ ?_ ?_
  · exact (Nat.pow_le_pow_right (by omega) hk).trans (by decide)
  · push_cast
    exact div_one _
  · exact pow_le_pow_right₀ (by norm_num) (by omega)
  · push_cast
    rw [pow_add, ← mul_assoc, ← mul_pow]
    norm_num

/-! ### Products and quotients -/

theorem mul_eq_ofQuanta (i j : Fin binary64.infIndex) :
    (finite false i : Binary64) * finite false j =
      ofQuanta binary64 false (binary64.magnitude i * binary64.magnitude j) (2 ^ binary64.scale) := by
  change Binary.mul _ _ = _
  simp only [Binary.mul, bne_self_eq_false]

theorem div_eq_ofQuanta (i : Fin binary64.infIndex) {j : Fin binary64.infIndex}
    (hj : 0 < binary64.value j) :
    (finite false i : Binary64) / finite false j =
      ofQuanta binary64 false (binary64.magnitude i * 2 ^ binary64.scale) (binary64.magnitude j) := by
  change Binary.div _ _ = _
  have hne : j.val ≠ 0 := by
    intro h
    have hpos := magnitude_pos_of_value hj
    rw [h, magnitude_zero] at hpos
    exact lt_irrefl _ hpos
  rw [Binary.div, if_neg hne]
  rfl

theorem mul_ratio (i j : ℕ) :
    ((binary64.magnitude i * binary64.magnitude j : ℕ) : ℚ) / (2 ^ binary64.scale : ℕ) =
      binary64.value i * binary64.value j * 2 ^ binary64.scale := by
  have hscale : (2 : ℚ) ^ binary64.scale ≠ 0 := pow_ne_zero _ two_ne_zero
  push_cast
  rw [magnitude_eq_value, magnitude_eq_value, div_eq_iff hscale]
  ring

theorem div_ratio (i j : ℕ) :
    ((binary64.magnitude i * 2 ^ binary64.scale : ℕ) : ℚ) / binary64.magnitude j =
      binary64.value i / binary64.value j * 2 ^ binary64.scale := by
  have hscale : (2 : ℚ) ^ binary64.scale ≠ 0 := pow_ne_zero _ two_ne_zero
  push_cast
  rw [magnitude_eq_value, magnitude_eq_value, mul_div_mul_right _ _ hscale, mul_div_right_comm]

end Binary

namespace Json

open Format

/-! ### Scaling -/

theorem timesTenTo_natCast (x : Binary64) (k : ℕ) : timesTenTo x k = x * tenTo k := by
  rw [timesTenTo, if_neg (by omega), Int.natAbs_natCast]

theorem timesTenTo_neg (x : Binary64) {k : ℕ} (hk : 0 < k) :
    timesTenTo x (-(k : ℤ)) = x / tenTo k := by
  rw [timesTenTo, if_pos (by omega), Int.natAbs_neg, Int.natAbs_natCast]

/-- Two roundings in a row, of a factor and of the product with it. -/
theorem mul_error {n t τ r u : ℚ} (hn : 0 ≤ n) (ht : 0 ≤ t) (hu : 0 ≤ u) (hu1 : u ≤ 1)
    (hτ : |τ - t| ≤ t * u) (hr : |r - n * τ| ≤ n * τ * u) : |r - n * t| ≤ n * t * (4 * u) := by
  have hτhi := (abs_le.1 hτ).2
  have htu : t * u ≤ t := mul_le_of_le_one_right ht hu1
  calc |r - n * t| = |r - n * τ + n * (τ - t)| := by ring_nf
    _ ≤ |r - n * τ| + n * |τ - t| := by
        rw [← abs_of_nonneg hn, ← abs_mul, abs_of_nonneg hn]
        exact abs_add_le _ _
    _ ≤ n * τ * u + n * (t * u) := by gcongr
    _ ≤ n * (2 * t) * u + n * (t * u) := by gcongr; linarith
    _ ≤ n * t * (4 * u) := by
        have : 0 ≤ n * t * u := by positivity
        linarith

/-- Two roundings in a row, of a divisor and of the quotient by it. -/
theorem div_error {n t τ r u : ℚ} (hn : 0 ≤ n) (ht : 0 < t) (hu : 0 ≤ u) (hu1 : 2 * u ≤ 1)
    (hτ : |τ - t| ≤ t * u) (hr : |r - n / τ| ≤ n / τ * u) : |r - n / t| ≤ n / t * (4 * u) := by
  have hτlo := (abs_le.1 hτ).1
  have hhalf : t * (2 * u) ≤ t := mul_le_of_le_one_right ht.le hu1
  have hτ2 : t / 2 ≤ τ := by linarith
  have hτpos : 0 < τ := by linarith
  have hquot : n / τ ≤ 2 * (n / t) := by
    rw [div_le_iff₀ hτpos]
    calc n = n / t * t := (div_mul_cancel₀ _ ht.ne').symm
      _ ≤ n / t * (2 * τ) := by gcongr; linarith
      _ = 2 * (n / t) * τ := by ring
  have hdiff : |n / τ - n / t| ≤ n / τ * u := by
    have hsplit : n / τ - n / t = n / τ * ((t - τ) / t) := by field_simp
    rw [hsplit, abs_mul, abs_of_nonneg (by positivity), abs_div, abs_of_pos ht, abs_sub_comm]
    gcongr
    rw [div_le_iff₀ ht, mul_comm]
    exact hτ
  calc |r - n / t| ≤ |r - n / τ| + |n / τ - n / t| := abs_sub_le _ _ _
    _ ≤ n / τ * u + n / τ * u := add_le_add hr hdiff
    _ = n / τ * (2 * u) := by ring
    _ ≤ 2 * (n / t) * (2 * u) := by gcongr
    _ = n / t * (4 * u) := by ring

/-- **A scaled significand is within `2 ^ -51` of the decimal number.** -/
theorem timesTenTo_close {n : ℕ} {p : ℤ} (hn : 0 < n) (hn' : n ≤ 10 ^ 10) (hp : p.natAbs ≤ 60) :
    ∃ j : Fin binary64.infIndex, timesTenTo (Binary.ofNat binary64 n) p = .finite false j ∧
      |binary64.value j - n * (10 : ℚ) ^ p| ≤ n * (10 : ℚ) ^ p / 2 ^ 51 := by
  obtain ⟨i, hi, hival⟩ := Binary.ofNat_exact (hn'.trans (by decide : 10 ^ 10 ≤ 2 ^ 53))
  obtain ⟨t, ht, htclose⟩ := Binary.tenTo_close (hp.trans (by decide))
  have hn1 : (1 : ℚ) ≤ n := by exact_mod_cast hn
  have hn2 : (n : ℚ) ≤ 10 ^ 10 := by exact_mod_cast hn'
  generalize hk : p.natAbs = k at hp ht htclose
  have hten1 : (1 : ℚ) ≤ 10 ^ k := one_le_pow₀ (by norm_num)
  have hten2 : (10 : ℚ) ^ k ≤ 10 ^ 60 := pow_le_pow_right₀ (by norm_num) hp
  rw [div_eq_mul_one_div] at htclose
  -- rounded or not, the power of ten is neither tiny nor huge
  have htlo : (1 : ℚ) / 2 ≤ binary64.value t := by
    have := (abs_le.1 htclose).1
    linarith
  have hthi : binary64.value t ≤ 2 * 10 ^ 60 := by
    have := (abs_le.1 htclose).2
    linarith
  rcases le_or_gt 0 p with hsign | hsign
  · obtain rfl : p = k := by omega
    have hlo : 1 / 10 ^ 100 ≤ (n : ℚ) * binary64.value t := by
      calc (1 : ℚ) / 10 ^ 100 ≤ 1 * (1 / 2) := by norm_num
        _ ≤ n * binary64.value t := mul_le_mul hn1 htlo (by norm_num) (by linarith)
    have hhi : (n : ℚ) * binary64.value t ≤ 10 ^ 100 := by
      calc (n : ℚ) * binary64.value t ≤ 10 ^ 10 * (2 * 10 ^ 60) :=
            mul_le_mul hn2 hthi (by linarith) (by norm_num)
        _ ≤ 10 ^ 100 := by norm_num
    rw [← hival] at hlo hhi
    obtain ⟨j, hj, hjclose⟩ :=
      Binary.ofQuanta_close (Nat.two_pow_pos _) (Binary.mul_ratio i t) hlo hhi
    rw [hival, div_eq_mul_one_div] at hjclose
    refine ⟨j, ?_, ?_⟩
    · rw [timesTenTo_natCast, hi, ht, Binary.mul_eq_ofQuanta, hj]
    · rw [zpow_natCast]
      refine (mul_error (by linarith) (by linarith) (by norm_num) (by norm_num) htclose
        hjclose).trans_eq ?_
      ring
  · obtain rfl : p = -(k : ℤ) := by omega
    have htpos : 0 < binary64.value t := by linarith
    obtain ⟨j, hj, hjclose⟩ := Binary.ofQuanta_close (magnitude_pos_of_value htpos)
      (Binary.div_ratio i t)
      (by rw [hival, le_div_iff₀ htpos]; linarith)
      (by rw [hival, div_le_iff₀ htpos]; linarith)
    rw [hival, div_eq_mul_one_div _ ((2 : ℚ) ^ 53)] at hjclose
    refine ⟨j, ?_, ?_⟩
    · rw [timesTenTo_neg _ (by omega), hi, ht, Binary.div_eq_ofQuanta i htpos, hj]
    · rw [zpow_neg, zpow_natCast, ← div_eq_mul_inv]
      refine (div_error (by linarith) (by linarith) (by norm_num) (by norm_num) htclose
        hjclose).trans_eq ?_
      ring

/-- Scaling by a short power of ten is exact where the decimal number is a number of the format. -/
theorem timesTenTo_exact {n m e : ℕ} {p : ℤ} (hn : n ≤ 2 ^ 53)
    (hp : p.natAbs ≤ 22) (hm : m ≤ 2 ^ 53)
    (hme : n * (10 : ℚ) ^ p * 2 ^ binary64.scale = m * 2 ^ e) :
    ∃ j : Fin binary64.infIndex, timesTenTo (Binary.ofNat binary64 n) p = .finite false j ∧
      binary64.value j = n * (10 : ℚ) ^ p := by
  obtain ⟨i, hi, hival⟩ := Binary.ofNat_exact hn
  obtain ⟨t, ht, htval⟩ := Binary.tenTo_exact hp
  have hn1 : (0 : ℚ) ≤ n := Nat.cast_nonneg n
  have hn2 : (n : ℚ) ≤ 2 ^ 53 := by exact_mod_cast hn
  generalize hk : p.natAbs = k at hp ht htval
  have hten1 : (1 : ℚ) ≤ 10 ^ k := one_le_pow₀ (by norm_num)
  have hten2 : (10 : ℚ) ^ k ≤ 10 ^ 22 := pow_le_pow_right₀ (by norm_num) hp
  have htpos : 0 < binary64.value t := by linarith
  rcases le_or_gt 0 p with hsign | hsign
  · obtain rfl : p = k := by omega
    rw [zpow_natCast] at hme ⊢
    have hratio := Binary.mul_ratio i t
    rw [hival, htval] at hratio
    obtain ⟨j, hj, hjval⟩ := Binary.ofQuanta_exact (Nat.two_pow_pos _) hm hratio
      ((mul_le_mul hn2 hten2 (by linarith) (by norm_num)).trans (by norm_num)) hme
    refine ⟨j, ?_, hjval⟩
    rw [timesTenTo_natCast, hi, ht, Binary.mul_eq_ofQuanta, hj]
  · obtain rfl : p = -(k : ℤ) := by omega
    rw [zpow_neg, zpow_natCast, ← div_eq_mul_inv] at hme ⊢
    have hratio := Binary.div_ratio i t
    rw [hival, htval] at hratio
    obtain ⟨j, hj, hjval⟩ := Binary.ofQuanta_exact (magnitude_pos_of_value htpos) hm hratio
      ((div_le_self hn1 hten1).trans (hn2.trans (by norm_num))) hme
    refine ⟨j, ?_, hjval⟩
    rw [timesTenTo_neg _ (by omega), hi, ht, Binary.div_eq_ofQuanta i htpos, hj]

end Json

end StripeBrush
