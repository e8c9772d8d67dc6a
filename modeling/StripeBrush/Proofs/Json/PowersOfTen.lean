/-
**How a significand is scaled.**

A significand is rounded to double precision, and then multiplied by a power of ten, which is rounded
too, or divided by one or more of them.  Each operation adds a little to the relative error, and a
result that is almost zero may be off by a few quanta besides.  Divisions end: what is divided gets
smaller and smaller, and the power that is left comes closer to zero.  Multiplication can leave the
format, but only close to its end.

Main definitions:

* `Json.safeBound` — decimal numbers below it stay in the format;
* `Json.roundingUnit` — the relative error of one rounding, of a number that is not tiny;
* `Json.halfQuantum` — the error of one rounding besides, of a number that is.

Main results:

* `Json.exists_scale_of_neg` — **a negative power of ten is divided out**;
* `Json.scale_close_of_neg`, `Json.mul_tenTo_close` — how close division and multiplication come;
* `Json.scale_close` — **a significand is scaled with a relative error of `2 ^ -48`**.
-/

import Mathlib.Algebra.Order.Field.Power
import StripeBrush.Proofs.Binary.SameValue
import StripeBrush.Proofs.Binary.Values
import StripeBrush.Proofs.Json.Laws
import StripeBrush.Proofs.Json.Scaling

set_option relaxedAutoImplicit false
set_option autoImplicit false

namespace StripeBrush

/-! ### The end of double precision -/

theorem Format.overflow64 : binary64.overflow = 2 ^ 1024 - 2 ^ 970 := by
  have hmid : binary64.midpoint (binary64.infIndex - 1) = (2 ^ 54 - 1) * 2 ^ 2045 := by
    decide +kernel
  have hsplit : (2 : ℚ) ^ 2045 = 2 ^ 970 * 2 ^ (binary64.scale + 1) := by rw [← pow_add]; rfl
  have hlarge : (2 : ℚ) ^ 1024 = 2 ^ 54 * 2 ^ 970 := by rw [← pow_add]
  rw [overflow, hmid, Nat.cast_mul, Nat.cast_pow, Nat.cast_ofNat, hsplit, hlarge, ← mul_assoc,
    mul_div_cancel_right₀ _ (pow_ne_zero _ two_ne_zero), ← sub_one_mul]
  norm_num

theorem Format.value_max64 : binary64.value (binary64.infIndex - 1) = (2 ^ 53 - 1) * 2 ^ 971 := by
  have hlast : binary64.magnitude (binary64.infIndex - 1) = (2 ^ 53 - 1) * 2 ^ 2045 := by
    decide +kernel
  have hsplit : (2 : ℚ) ^ 2045 = 2 ^ 971 * 2 ^ binary64.scale := by rw [← pow_add]; rfl
  rw [value, hlast, Nat.cast_mul, Nat.cast_pow, Nat.cast_ofNat, hsplit, ← mul_assoc,
    mul_div_cancel_right₀ _ (pow_ne_zero _ two_ne_zero)]
  norm_num

theorem Binary.abs_toRat_lt_overflow64 {x : Binary64} (hx : x.isFinite = true) :
    |x.toRat| < Format.binary64.overflow := by
  obtain ⟨s, i, rfl⟩ := exists_of_isFinite hx
  have hle : Format.binary64.value i ≤ Format.binary64.value (Format.binary64.infIndex - 1) :=
    Format.binary64.value_strictMono.monotone (Nat.le_sub_one_of_lt i.isLt)
  have hsplit : (2 : ℚ) ^ 971 = 2 * 2 ^ 970 := by rw [← pow_succ']
  have hlarge : (2 : ℚ) ^ 1024 = 2 ^ 54 * 2 ^ 970 := by rw [← pow_add]
  rw [abs_toRat_finite, Format.overflow64, hlarge]
  refine hle.trans_lt ?_
  rw [Format.value_max64, hsplit]
  have hpos : (0 : ℚ) < 2 ^ 970 := by positivity
  generalize (2 : ℚ) ^ 970 = p at hpos ⊢
  linarith

namespace Json

open Format

variable {ε : Type} {lib : Library ε}

/-! ### One rounding -/

/-- The relative error of one rounding of a number that is not tiny. -/
def roundingUnit : ℚ := 1 / 2 ^ 53 + 1 / 2 ^ 60

/-- Half of the least positive number of double precision. -/
def halfQuantum : ℚ := 1 / 2 ^ 1075

theorem halfQuantum_pos : 0 < halfQuantum := by
  rw [halfQuantum]
  positivity

theorem roundingUnit_nonneg : 0 ≤ roundingUnit := by
  norm_num [roundingUnit]

/-- The relative error of seventeen roundings. -/
theorem mul_roundingUnit_le {q : ℚ} (hq : 0 ≤ q) : 17 * (q * roundingUnit) ≤ q / 2 ^ 48 := by
  have hunit : roundingUnit ≤ 1 / 2 ^ 48 / 17 := by norm_num [roundingUnit]
  calc 17 * (q * roundingUnit) ≤ 17 * (q * (1 / 2 ^ 48 / 17)) := by gcongr
    _ = q / 2 ^ 48 := by ring

/-- One rounding of any number. -/
theorem rounds_error {x : Binary64} {r : ℚ} (h : x.Rounds r) (hx : x.isFinite = true) :
    |x.toRat - r| ≤ |r| / 2 ^ 53 + halfQuantum :=
  h.error_le hx

/-- One rounding of a number that is at least one. -/
theorem near_of_rounds {x : Binary64} {r : ℚ} (h : x.Rounds r) (hr : 1 ≤ r)
    (hlt : r < binary64.overflow) : x.isFinite = true ∧ |x.toRat - r| ≤ r * roundingUnit := by
  have hpos : |r| = r := abs_of_nonneg (by linarith)
  have hfinite := h.isFinite_of_lt (by rw [hpos]; exact hlt)
  have hleast : halfQuantum ≤ r / 2 ^ 60 := by
    rw [halfQuantum, div_le_div_iff₀ (by positivity) (by positivity), one_mul]
    exact (pow_le_pow_right₀ one_le_two (by norm_num)).trans
      (le_mul_of_one_le_left (by positivity) hr)
  have herror := rounds_error h hfinite
  rw [hpos] at herror
  refine ⟨hfinite, herror.trans ?_⟩
  rw [roundingUnit]
  linarith

theorem le_of_near {x r : ℚ} (hr : 0 ≤ r) (h : |x - r| ≤ r * roundingUnit) :
    |x| ≤ r * (1 + roundingUnit) := by
  calc |x| = |r + (x - r)| := by ring_nf
    _ ≤ |r| + |x - r| := abs_add_le _ _
    _ ≤ r + r * roundingUnit := by rw [abs_of_nonneg hr]; linarith
    _ = r * (1 + roundingUnit) := by ring

theorem rounds_tenTo (k : ℕ) : (tenTo k).Rounds ((10 : ℚ) ^ k) := by
  rw [Binary.tenTo_eq]
  refine Binary.rounds_ofQuanta (by decide) false Nat.one_pos ?_
  push_cast
  exact div_one _

theorem rounds_ofNat (n : ℕ) : (Binary.ofNat binary64 n).Rounds (n : ℚ) := by
  refine Binary.rounds_ofQuanta (by decide) false Nat.one_pos ?_
  push_cast
  exact div_one _

theorem pow_ten_lt_overflow {k : ℕ} (hk : k ≤ maxTen) : (10 : ℚ) ^ k < binary64.overflow := by
  have hlarge : 10 ^ maxTen + 2 ^ 970 < 2 ^ 1024 := by decide +kernel
  have hlarge : (10 : ℚ) ^ maxTen + 2 ^ 970 < 2 ^ 1024 := by exact_mod_cast hlarge
  have hmono : (10 : ℚ) ^ k ≤ 10 ^ maxTen := pow_le_pow_right₀ (by norm_num) hk
  rw [overflow64]
  exact hmono.trans_lt (lt_sub_iff_add_lt.2 hlarge)

/-- A power of ten that is finite is rounded once. -/
theorem near_tenTo {k : ℕ} (hk : k ≤ maxTen) :
    (tenTo k).isFinite = true ∧ |(tenTo k).toRat - 10 ^ k| ≤ 10 ^ k * roundingUnit :=
  near_of_rounds (rounds_tenTo k) (one_le_pow₀ (by norm_num)) (pow_ten_lt_overflow hk)

theorem half_le_tenTo {k : ℕ} (hk : k ≤ maxTen) : (10 : ℚ) ^ k / 2 ≤ (tenTo k).toRat := by
  have hten : (0 : ℚ) < 10 ^ k := by positivity
  have hlo := (abs_le.1 (near_tenTo hk).2).1
  rw [roundingUnit] at hlo
  linarith

theorem near_ofNat {n : ℕ} (hn : n < significandBound) :
    (Binary.ofNat binary64 n).isFinite = true ∧
      |(Binary.ofNat binary64 n).toRat - n| ≤ n / 2 ^ 53 + halfQuantum := by
  have hn0 : (0 : ℚ) ≤ n := Nat.cast_nonneg n
  have hn64 : (n : ℚ) < 2 ^ 64 := by exact_mod_cast hn
  have hlarge : (2 : ℚ) ^ 64 ≤ binary64.overflow := by
    have hten := pow_ten_lt_overflow (k := 20) (by decide)
    linarith
  have hfinite := (rounds_ofNat n).isFinite_of_lt (by rw [abs_of_nonneg hn0]; linarith)
  have herror := rounds_error (rounds_ofNat n) hfinite
  rw [abs_of_nonneg hn0] at herror
  exact ⟨hfinite, herror⟩

theorem isInf_eq_false {x : Binary64} (hx : x.isFinite = true) : x.isInf = false := by
  obtain ⟨s, i, rfl⟩ := Binary.exists_of_isFinite hx
  rfl

theorem toRat_eq_zero {x : Binary64} (hx : x.isFinite = true) (h : x.numEq 0 = true) :
    x.toRat = 0 := by
  obtain ⟨s, i, rfl⟩ := Binary.exists_of_isFinite hx
  rw [Binary.numEq, Binary.key?_zero (by decide)] at h
  have hi : i.val = 0 := by
    cases s <;> simpa [Binary.key?] using h
  simp [Binary.toRat, hi]

/-! ### Factors and divisors that are rounded -/

section Rounded

variable {x y f t n T u : ℚ}

/-- A divisor that is rounded. -/
theorem abs_div_sub_div_le (ht : 0 < t) (hT : 0 < T) (h : |t - T| ≤ T * u) :
    |y / t - y / T| ≤ |y| / t * u := by
  have hsplit : y / t - y / T = y / t * ((T - t) / T) := by field_simp
  rw [hsplit, abs_mul, abs_div, abs_of_pos ht, abs_div, abs_of_pos hT, abs_sub_comm T t]
  gcongr
  rw [div_le_iff₀ hT, mul_comm]
  exact h

variable (hn : 0 ≤ n) (hT : 0 ≤ T) (hf : |f - n| ≤ n * roundingUnit)
  (ht : |t - T| ≤ T * roundingUnit)

include hn hT hf ht

theorem abs_mul_le_of_near : |f * t| ≤ n * T * (1 + roundingUnit) ^ 2 := by
  have hunit := roundingUnit_nonneg
  have hfle := le_of_near hn hf
  have htle := le_of_near hT ht
  rw [abs_mul]
  calc |f| * |t| ≤ n * (1 + roundingUnit) * (T * (1 + roundingUnit)) :=
        mul_le_mul hfle htle (abs_nonneg _) (by positivity)
    _ = n * T * (1 + roundingUnit) ^ 2 := by ring

/-- Both factors are rounded. -/
theorem abs_mul_sub_mul_le : |f * t - n * T| ≤ 3 * (n * T * roundingUnit) := by
  have hone : 1 + roundingUnit ≤ 2 := by norm_num [roundingUnit]
  have hfle : |f| ≤ n * 2 := (le_of_near hn hf).trans (mul_le_mul_of_nonneg_left hone hn)
  have hsplit : f * t - n * T = f * (t - T) + (f - n) * T := by ring
  calc |f * t - n * T| ≤ |f| * |t - T| + |f - n| * T := by
        rw [hsplit, ← abs_mul, ← abs_of_nonneg hT, ← abs_mul, abs_of_nonneg hT]
        exact abs_add_le _ _
    _ ≤ n * 2 * (T * roundingUnit) + n * roundingUnit * T := by gcongr
    _ = 3 * (n * T * roundingUnit) := by ring

/-- Both factors are rounded, and then their product. -/
theorem product_close (hx : |x - f * t| ≤ |f * t| / 2 ^ 53 + halfQuantum) :
    |x - n * T| ≤ n * T / 2 ^ 48 + halfQuantum := by
  have hnT : 0 ≤ n * T := mul_nonneg hn hT
  have hfine : (1 : ℚ) / 2 ^ 53 ≤ roundingUnit := by norm_num [roundingUnit]
  have hgrow : (1 + roundingUnit) ^ 2 ≤ 4 := by norm_num [roundingUnit]
  have hprod : |f * t| ≤ n * T * 4 :=
    (abs_mul_le_of_near hn hT hf ht).trans (mul_le_mul_of_nonneg_left hgrow hnT)
  have hlast : |f * t| / 2 ^ 53 ≤ 4 * (n * T * roundingUnit) := by
    rw [div_eq_mul_one_div]
    calc |f * t| * (1 / 2 ^ 53) ≤ n * T * 4 * roundingUnit := by gcongr
      _ = 4 * (n * T * roundingUnit) := by ring
  have hunits := mul_roundingUnit_le hnT
  have hpos : 0 ≤ n * T * roundingUnit := mul_nonneg hnT roundingUnit_nonneg
  have hfactors := abs_mul_sub_mul_le hn hT hf ht
  have hsum := abs_sub_le x (f * t) (n * T)
  linarith

end Rounded

/-! ### Dividing by powers of ten -/

section Division

variable {x : Binary64} {k : ℕ}

/-- A quotient by a power of ten, in terms of the rounded power. -/
theorem div_tenTo_error (hx : x.isFinite = true) (hk : k ≤ maxTen) :
    (x / tenTo k).isFinite = true ∧
      |(x / tenTo k).toRat - x.toRat / (tenTo k).toRat| ≤
        |x.toRat| / (tenTo k).toRat / 2 ^ 53 + halfQuantum := by
  have hten : (1 : ℚ) ≤ 10 ^ k := one_le_pow₀ (by norm_num)
  have hnear := near_tenTo hk
  have hhalf := half_le_tenTo hk
  have htpos : 0 < (tenTo k).toRat := by linarith
  have habs : |x.toRat / (tenTo k).toRat| = |x.toRat| / (tenTo k).toRat := by
    rw [abs_div, abs_of_pos htpos]
  have hround := Binary.rounds_div (by decide) hx hnear.1 htpos.ne'
  -- the power of ten is at least one, also rounded
  have hone : 1 ≤ (tenTo k).toRat := by
    rcases Nat.eq_zero_or_pos k with rfl | hk0
    · have hexact : (tenTo 0).toRat = 1 := by
        obtain ⟨j, hj, hvalue⟩ := Binary.tenTo_exact (k := 0) (by decide)
        rw [hj]
        simpa [Binary.toRat] using hvalue
      exact hexact.ge
    · have hlarge : (10 : ℚ) ^ 1 ≤ 10 ^ k := pow_le_pow_right₀ (by norm_num) hk0
      linarith
  have hfinite := hround.isFinite_of_lt (by
    rw [habs]
    exact (div_le_self (abs_nonneg _) hone).trans_lt (Binary.abs_toRat_lt_overflow64 hx))
  have herror := rounds_error hround hfinite
  rw [habs] at herror
  exact ⟨hfinite, herror⟩

theorem abs_div_tenTo_le (hx : x.isFinite = true) (hk0 : 0 < k) (hk : k ≤ maxTen) :
    |(x / tenTo k).toRat| ≤ |x.toRat| / 4 + halfQuantum := by
  have hhalf := half_le_tenTo hk
  have hten : (10 : ℚ) ^ 1 ≤ 10 ^ k := pow_le_pow_right₀ (by norm_num) hk0
  have htpos : 0 < (tenTo k).toRat := by linarith
  have herror := (div_tenTo_error hx hk).2
  have hquot : |x.toRat| / (tenTo k).toRat ≤ |x.toRat| / 5 :=
    div_le_div_of_nonneg_left (abs_nonneg _) (by norm_num) (by linarith)
  have habs : |x.toRat / (tenTo k).toRat| = |x.toRat| / (tenTo k).toRat := by
    rw [abs_div, abs_of_pos htpos]
  have hle : |(x / tenTo k).toRat| ≤
      |(x / tenTo k).toRat - x.toRat / (tenTo k).toRat| + |x.toRat / (tenTo k).toRat| := by
    simpa using abs_add_le ((x / tenTo k).toRat - x.toRat / (tenTo k).toRat)
      (x.toRat / (tenTo k).toRat)
  have hpos := abs_nonneg x.toRat
  rw [habs] at hle
  linarith

/-- What a division adds to the error of its dividend. -/
theorem div_tenTo_close {a δ σ : ℚ} (hx : x.isFinite = true) (hk0 : 0 < k) (hk : k ≤ maxTen)
    (ha : 0 ≤ a) (hδ : δ ≤ 1) (hσ : 0 ≤ σ) (h : |x.toRat - a| ≤ a * δ + σ) :
    |(x / tenTo k).toRat - a / 10 ^ k| ≤
      a / 10 ^ k * (δ + 8 * roundingUnit) + (σ / 2 + halfQuantum) := by
  have hnear := (near_tenTo hk).2
  have hhalf := half_le_tenTo hk
  have herror := (div_tenTo_error hx hk).2
  have hten : (10 : ℚ) ^ 1 ≤ 10 ^ k := pow_le_pow_right₀ (by norm_num) hk0
  generalize (tenTo k).toRat = t at hnear hhalf herror
  generalize (10 : ℚ) ^ k = T at hnear hhalf hten ⊢
  have hT : 0 < T := by linarith
  have ht : 0 < t := by linarith
  have hunit : roundingUnit ≤ 1 / 2 ^ 50 := by norm_num [roundingUnit]
  have hunit0 := roundingUnit_nonneg
  have hfine : (1 : ℚ) / 2 ^ 53 ≤ roundingUnit := by norm_num [roundingUnit]
  have hx0 := abs_nonneg x.toRat
  -- the dividend is at most twice what it stands for, and a little more
  have hsize : |x.toRat| ≤ 2 * a + σ := by
    have habs : |x.toRat| ≤ |x.toRat - a| + |a| := by simpa using abs_add_le (x.toRat - a) a
    have hrel : a * δ ≤ a := mul_le_of_le_one_right ha hδ
    rw [abs_of_nonneg ha] at habs
    linarith
  have hquot : |x.toRat| / t ≤ 2 * (|x.toRat| / T) := by
    rw [div_le_iff₀ ht]
    calc |x.toRat| = |x.toRat| / T * T := (div_mul_cancel₀ _ hT.ne').symm
      _ ≤ |x.toRat| / T * (2 * t) := by gcongr; linarith
      _ = 2 * (|x.toRat| / T) * t := by ring
  -- the three errors: of the quotient, of the power of ten, and of the dividend
  have hround : |(x / tenTo k).toRat - x.toRat / t| ≤ |x.toRat| / t * roundingUnit + halfQuantum := by
    refine herror.trans (add_le_add_left ?_ _)
    rw [div_eq_mul_one_div (|x.toRat| / t)]
    gcongr
  have hpower := abs_div_sub_div_le (y := x.toRat) ht hT hnear
  have hdividend : |x.toRat / T - a / T| ≤ a / T * δ + σ / T := by
    rw [← sub_div, abs_div, abs_of_pos hT]
    calc |x.toRat - a| / T ≤ (a * δ + σ) / T := by gcongr
      _ = a / T * δ + σ / T := by ring
  have hsum : |(x / tenTo k).toRat - a / T| ≤
      |(x / tenTo k).toRat - x.toRat / t| + |x.toRat / t - x.toRat / T| + |x.toRat / T - a / T| := by
    have h1 := abs_sub_le (x / tenTo k).toRat (x.toRat / t) (a / T)
    have h2 := abs_sub_le (x.toRat / t) (x.toRat / T) (a / T)
    linarith
  have hshare : |x.toRat| / t * roundingUnit ≤ (4 * (a / T) + 2 * (σ / T)) * roundingUnit := by
    refine mul_le_mul_of_nonneg_right (hquot.trans ?_) hunit0
    have hdiv : |x.toRat| / T ≤ (2 * a + σ) / T := by gcongr
    calc 2 * (|x.toRat| / T) ≤ 2 * ((2 * a + σ) / T) := by linarith
      _ = 4 * (a / T) + 2 * (σ / T) := by ring
  have hsmall : σ / T ≤ σ / 10 := div_le_div_of_nonneg_left hσ (by norm_num) (by linarith)
  have hσT : 0 ≤ σ / T := by positivity
  have hrest : 4 * (σ / T) * roundingUnit ≤ 4 * (σ / T) * (1 / 2 ^ 50) := by gcongr
  linarith

theorem abs_div_tenTo_le_of_le (hx : x.isFinite = true) (hk0 : 0 < k) (hk : k ≤ maxTen)
    (h : |x.toRat| ≤ 2 * halfQuantum) : |(x / tenTo k).toRat| ≤ 2 * halfQuantum := by
  have hle := abs_div_tenTo_le hx hk0 hk
  have hpos := halfQuantum_pos
  linarith

section Rounded

variable {a : ℚ} (hx : x.isFinite = true) (ha : 0 ≤ a)
  (h : |x.toRat - a| ≤ a * roundingUnit + halfQuantum)

include hx ha h

theorem one_division_close (hk0 : 0 < k) (hk : k ≤ maxTen) :
    |(x / tenTo k).toRat - a / 10 ^ k| ≤
      a / 10 ^ k * (roundingUnit + 8 * roundingUnit) + (halfQuantum / 2 + halfQuantum) := by
  have hone : roundingUnit ≤ 1 := by norm_num [roundingUnit]
  exact div_tenTo_close hx hk0 hk ha hone halfQuantum_pos.le h

theorem two_divisions_close (hk0 : 0 < k) (hk : k ≤ maxTen) :
    |(x / tenTo maxTen / tenTo k).toRat - a / 10 ^ (maxTen + k)| ≤
      a / 10 ^ (maxTen + k) / 2 ^ 48 + 15 / 8 * halfQuantum := by
  have hhalf := halfQuantum_pos
  have hmax : 0 < maxTen := by decide
  have hone : roundingUnit + 8 * roundingUnit ≤ 1 := by norm_num [roundingUnit]
  have hfinite := (div_tenTo_error hx (Nat.le_refl maxTen)).1
  have hfirst := one_division_close hx ha h hmax (Nat.le_refl maxTen)
  have hclose := div_tenTo_close hfinite hk0 hk (by positivity) hone (by linarith) hfirst
  rw [div_div a, ← pow_add] at hclose
  have hunits := mul_roundingUnit_le (q := a / 10 ^ (maxTen + k)) (by positivity)
  linarith

/-- What is rounded to zero is almost zero. -/
theorem le_of_numEq_zero (hzero : x.numEq 0 = true) : a ≤ 2 * halfQuantum := by
  rw [toRat_eq_zero hx hzero, zero_sub, abs_neg, abs_of_nonneg ha] at h
  have hunit : roundingUnit ≤ 1 / 2 := by norm_num [roundingUnit]
  have hrel : a * roundingUnit ≤ a * (1 / 2) := by gcongr
  linarith

end Rounded

end Division

/-! ### Negative powers of ten -/

section Negative

variable (hlib : lib.Scales) {x : Binary64} {k : ℕ}

include hlib

theorem scale_neg (hk0 : 0 < k) (hk : k ≤ maxTen) : lib.scale x (-(k : ℤ)) = .ok (x / tenTo k) := by
  rw [hlib.scale_within x _ (by omega) (by omega), timesTenTo_neg x hk0]

theorem scale_neg_step (hk : maxTen < k) (hx : x.numEq 0 = false) :
    lib.scale x (-(k : ℤ)) = lib.scale (x / tenTo maxTen) (-((k - maxTen : ℕ) : ℤ)) := by
  have hrest : -(k : ℤ) + maxTen = -((k - maxTen : ℕ) : ℤ) := by omega
  rw [hlib.scale_below x _ (by omega) hx, hrest]

/-- **A negative power of ten is divided out**, whatever it is. -/
theorem exists_scale_of_neg (hx : x.isFinite = true) (hk0 : 0 < k) :
    ∃ y, lib.scale x (-(k : ℤ)) = .ok y ∧ y.isFinite = true ∧
      (|x.toRat| ≤ 2 * halfQuantum → |y.toRat| ≤ 2 * halfQuantum) := by
  -- by induction on the power that is left, one division at a time
  induction k using Nat.strong_induction_on generalizing x with
  | h k ih =>
      rcases Nat.lt_or_ge maxTen k with hlarge | hsmall
      · cases hzero : x.numEq 0 with
        | true => exact ⟨x, hlib.scale_zero x _ (by omega) hzero, hx, id⟩
        | false =>
            have hmax : 0 < maxTen := by decide
            obtain ⟨hfinite, -⟩ := div_tenTo_error hx (Nat.le_refl maxTen)
            obtain ⟨y, hy, hyfinite, hle⟩ := ih (k - maxTen) (by omega) hfinite (by omega)
            refine ⟨y, (scale_neg_step hlib hlarge hzero).trans hy, hyfinite, fun h => hle ?_⟩
            exact abs_div_tenTo_le_of_le hx hmax (Nat.le_refl _) h
      · exact ⟨_, scale_neg hlib hk0 hsmall, (div_tenTo_error hx hsmall).1,
          abs_div_tenTo_le_of_le hx hk0 hsmall⟩

section Rounded

variable {a : ℚ} (hx : x.isFinite = true) (ha : 0 ≤ a)

include ha

/-- Where almost nothing is left, what comes out is almost zero. -/
theorem scale_close_of_tiny {y : Binary64} {l : ℕ} (hy : y.isFinite = true)
    (hle : |y.toRat| ≤ 2 * halfQuantum) (hl : 0 < l)
    (hscale : lib.scale x (-(k : ℤ)) = lib.scale y (-(l : ℤ)))
    (hsmall : a / 10 ^ k ≤ 2 * halfQuantum) :
    ∃ z, lib.scale x (-(k : ℤ)) = .ok z ∧ z.isFinite = true ∧
      |z.toRat - a / 10 ^ k| ≤ a / 10 ^ k / 2 ^ 48 + 4 * halfQuantum := by
  obtain ⟨z, hz, hfinite, hzle⟩ := exists_scale_of_neg hlib hy hl
  have hzle := hzle hle
  have hquot : 0 ≤ a / 10 ^ k := by positivity
  have habs := abs_sub z.toRat (a / 10 ^ k)
  rw [abs_of_nonneg hquot] at habs
  have hpos : 0 ≤ a / 10 ^ k / 2 ^ 48 := by positivity
  exact ⟨z, hscale.trans hz, hfinite, by linarith⟩

include hx

/-- A power of ten that calls for more than two divisions leaves almost nothing. -/
theorem scale_close_of_far (ha' : a ≤ 2 ^ 65) (hk : maxTen + maxTen < k)
    (h : |x.toRat - a| ≤ a * roundingUnit + halfQuantum) (hzero : x.numEq 0 = false) :
    ∃ z, lib.scale x (-(k : ℤ)) = .ok z ∧ z.isFinite = true ∧
      |z.toRat - a / 10 ^ k| ≤ a / 10 ^ k / 2 ^ 48 + 4 * halfQuantum := by
  have hhalf := halfQuantum_pos
  have hmax : 0 < maxTen := by decide
  have hfinite := (div_tenTo_error hx (Nat.le_refl maxTen)).1
  have hstep := scale_neg_step hlib (by omega : maxTen < k) hzero
  have hleast : a / 10 ^ (maxTen + maxTen) ≤ halfQuantum / 16 := by
    have hnat : 2 ^ 65 * (2 ^ 1075 * 16) ≤ 10 ^ (maxTen + maxTen) := by decide +kernel
    have hnat : (2 : ℚ) ^ 65 * (2 ^ 1075 * 16) ≤ 10 ^ (maxTen + maxTen) := by
      exact_mod_cast hnat
    rw [halfQuantum, div_div, div_le_div_iff₀ (by positivity) (by positivity), one_mul]
    exact (mul_le_mul_of_nonneg_right ha' (by positivity)).trans hnat
  have hsmall : a / 10 ^ k ≤ a / 10 ^ (maxTen + maxTen) :=
    div_le_div_of_nonneg_left ha (by positivity) (pow_le_pow_right₀ (by norm_num) hk.le)
  cases hzero' : (x / tenTo maxTen).numEq 0 with
  | true =>
      refine scale_close_of_tiny hlib ha hfinite ?_ (by omega) hstep (by linarith)
      rw [toRat_eq_zero hfinite hzero', abs_zero]
      linarith
  | false =>
      have hfinite' := (div_tenTo_error hfinite (Nat.le_refl maxTen)).1
      have hstep' := hstep.trans (scale_neg_step hlib (by omega) hzero')
      have hclose := two_divisions_close hx ha h hmax (Nat.le_refl maxTen)
      have hrest : 0 ≤ a / 10 ^ (maxTen + maxTen) := by positivity
      have habs := abs_sub_abs_le_abs_sub (x / tenTo maxTen / tenTo maxTen).toRat
        (a / 10 ^ (maxTen + maxTen))
      rw [abs_of_nonneg hrest] at habs
      exact scale_close_of_tiny hlib ha hfinite' (by linarith) (by omega) hstep' (by linarith)

/-- How well a negative power of ten is divided out. -/
theorem scale_close_of_neg (hk0 : 0 < k) (ha' : a ≤ 2 ^ 65)
    (h : |x.toRat - a| ≤ a * roundingUnit + halfQuantum) :
    ∃ y, lib.scale x (-(k : ℤ)) = .ok y ∧ y.isFinite = true ∧
      |y.toRat - a / 10 ^ k| ≤ a / 10 ^ k / 2 ^ 48 + 4 * halfQuantum := by
  have hhalf := halfQuantum_pos
  rcases le_or_gt k maxTen with hk | hk
  · have hclose := one_division_close hx ha h hk0 hk
    have hunits := mul_roundingUnit_le (q := a / 10 ^ k) (by positivity)
    have hunit0 : 0 ≤ a / 10 ^ k * roundingUnit := mul_nonneg (by positivity) roundingUnit_nonneg
    exact ⟨_, scale_neg hlib hk0 hk, (div_tenTo_error hx hk).1, by linarith⟩
  cases hzero : x.numEq 0 with
  | true =>
      have hle : a / 10 ^ k ≤ a := div_le_self ha (one_le_pow₀ (by norm_num))
      have hsmall := hle.trans (le_of_numEq_zero hx ha h hzero)
      refine scale_close_of_tiny hlib ha hx ?_ hk0 rfl hsmall
      rw [toRat_eq_zero hx hzero, abs_zero]
      linarith
  | false =>
      rcases le_or_gt k (maxTen + maxTen) with hk' | hk'
      · have hfinite := (div_tenTo_error hx (Nat.le_refl maxTen)).1
        have hstep := (scale_neg_step hlib hk hzero).trans
          (scale_neg hlib (by omega) (by omega : k - maxTen ≤ maxTen))
        have hclose := two_divisions_close hx ha h (by omega : 0 < k - maxTen) (by omega)
        rw [show maxTen + (k - maxTen) = k by omega] at hclose
        exact ⟨_, hstep, (div_tenTo_error hfinite (by omega)).1, by linarith⟩
      · exact scale_close_of_far hlib hx ha ha' hk' h hzero

end Rounded

end Negative

/-! ### Powers of ten that are not negative -/

/-- Numbers below this bound are in range. -/
def safeBound : ℚ := 2 ^ 1024 - 2 ^ 973

theorem safeBound_le_overflow : safeBound * (1 + roundingUnit) ^ 2 ≤ binary64.overflow := by
  have hlarge : (2 : ℚ) ^ 1024 = 2 ^ 54 * 2 ^ 970 := by rw [← pow_add]
  have hmiddle : (2 : ℚ) ^ 973 = 2 ^ 3 * 2 ^ 970 := by rw [← pow_add]
  rw [safeBound, overflow64, hlarge, hmiddle, ← sub_mul, ← sub_one_mul, mul_right_comm]
  refine mul_le_mul_of_nonneg_right ?_ (by positivity)
  norm_num [roundingUnit]

theorem le_maxTen {k : ℕ} (h : (10 : ℚ) ^ k < safeBound) : k ≤ maxTen := by
  by_contra hk
  have hlarge : 2 ^ 1024 ≤ 10 ^ (maxTen + 1) := by decide +kernel
  have hlarge : (2 : ℚ) ^ 1024 ≤ 10 ^ (maxTen + 1) := by exact_mod_cast hlarge
  have hmono : (10 : ℚ) ^ (maxTen + 1) ≤ 10 ^ k := pow_le_pow_right₀ (by norm_num) (by omega)
  have hbound : safeBound ≤ 2 ^ 1024 := sub_le_self _ (by positivity)
  exact absurd h (not_lt.2 (hbound.trans (hlarge.trans hmono)))

theorem lt_overflow_of_safe {q r : ℚ} (hq : q < safeBound)
    (h : r ≤ q * (1 + roundingUnit) ^ 2) : r < binary64.overflow := by
  have hunit := roundingUnit_nonneg
  calc r ≤ q * (1 + roundingUnit) ^ 2 := h
    _ < safeBound * (1 + roundingUnit) ^ 2 := mul_lt_mul_of_pos_right hq (by positivity)
    _ ≤ binary64.overflow := safeBound_le_overflow

/-- The product of a significand and a power of ten below the bound is finite, and how close it is. -/
theorem mul_tenTo_close {n k : ℕ} (hn0 : 0 < n)
    (h : (n : ℚ) * 10 ^ k < safeBound) :
    (Binary.ofNat binary64 n * tenTo k).isFinite = true ∧
      |(Binary.ofNat binary64 n * tenTo k).toRat - n * 10 ^ k| ≤
        n * 10 ^ k / 2 ^ 48 + halfQuantum := by
  have hunit := roundingUnit_nonneg
  have hn1 : (1 : ℚ) ≤ n := by exact_mod_cast hn0
  have hT1 : (1 : ℚ) ≤ 10 ^ k := one_le_pow₀ (by norm_num)
  obtain ⟨htfinite, ht⟩ := near_tenTo (le_maxTen ((le_mul_of_one_le_left (by positivity) hn1).trans_lt h))
  have hnlt : (n : ℚ) < binary64.overflow := by
    refine lt_overflow_of_safe h ?_
    rw [mul_assoc]
    exact le_mul_of_one_le_right (by linarith)
      (one_le_mul_of_one_le_of_one_le hT1 (one_le_pow₀ (by linarith)))
  obtain ⟨hffinite, hf⟩ := near_of_rounds (rounds_ofNat n) hn1 hnlt
  have hround := Binary.rounds_mul (by decide) hffinite htfinite
  have hn : (0 : ℚ) ≤ n := by linarith
  have hT : (0 : ℚ) ≤ 10 ^ k := by linarith
  have hfinite := hround.isFinite_of_lt (lt_overflow_of_safe h (abs_mul_le_of_near hn hT hf ht))
  exact ⟨hfinite, product_close hn hT hf ht (rounds_error hround hfinite)⟩

/-! ### All powers of ten -/

section All

variable (hlib : lib.Scales)

include hlib

theorem scale_natCast {x : Binary64} {k : ℕ} (hk : k ≤ maxTen)
    (hfinite : (x * tenTo k).isFinite = true) : lib.scale x k = .ok (x * tenTo k) := by
  have hinf : 0 ≤ (k : ℤ) → (timesTenTo x k).isInf = false := by
    intro _
    rw [timesTenTo_natCast]
    exact isInf_eq_false hfinite
  rw [hlib.scale_within x _ (by omega) hinf, timesTenTo_natCast]

theorem scale_significand_zero (k : ℕ) :
    ∃ x, lib.scale (Binary.ofNat binary64 0) k = .ok x ∧ x.isFinite = true ∧
      |x.toRat| ≤ halfQuantum := by
  have hzero : Binary.ofNat binary64 0 = .finite false ⟨0, by decide⟩ := Binary.zero_eq (by decide)
  have hfinite : (Binary.ofNat binary64 0).isFinite = true := by
    rw [hzero]
    rfl
  have hnum : (Binary.ofNat binary64 0).numEq 0 = true := by
    rw [hzero, Binary.numEq, Binary.key?_zero (by decide)]
    decide
  have hvalue := toRat_eq_zero hfinite hnum
  rcases le_or_gt k maxTen with hk | hk
  · have hround := Binary.rounds_mul (by decide) hfinite (near_tenTo hk).1
    rw [hvalue, zero_mul] at hround
    have hproduct := hround.isFinite_of_lt (by
      rw [abs_zero]
      exact (pow_pos (by norm_num) k).trans (pow_ten_lt_overflow hk))
    have herror := rounds_error hround hproduct
    rw [sub_zero, abs_zero, zero_div, zero_add] at herror
    exact ⟨_, scale_natCast hlib hk hproduct, hproduct, herror⟩
  · refine ⟨_, hlib.scale_zero _ _ (by omega) hnum, hfinite, ?_⟩
    rw [hvalue, abs_zero]
    exact halfQuantum_pos.le

/-- **A significand is scaled with a relative error of `2 ^ -48`**, below the bound. -/
theorem scale_close {n : ℕ} {p : ℤ} (hn : n < significandBound)
    (h : (n : ℚ) * 10 ^ p < safeBound) :
    ∃ x, lib.scale (Binary.ofNat binary64 n) p = .ok x ∧ x.isFinite = true ∧
      |x.toRat - n * 10 ^ p| ≤ n * 10 ^ p / 2 ^ 48 + 4 * halfQuantum := by
  have hhalf := halfQuantum_pos
  have hfine : (1 : ℚ) / 2 ^ 53 ≤ roundingUnit := by norm_num [roundingUnit]
  rcases lt_or_ge p 0 with hneg | hpos
  · obtain ⟨k, rfl⟩ := Int.exists_eq_neg_ofNat hneg.le
    have hn65 : (n : ℚ) ≤ 2 ^ 65 := by
      have hle : n ≤ 2 ^ 65 := hn.le.trans (by decide)
      exact_mod_cast hle
    obtain ⟨hfinite, hnear⟩ := near_ofNat hn
    have hn0 : (0 : ℚ) ≤ n := Nat.cast_nonneg n
    rw [div_eq_mul_one_div] at hnear
    rw [zpow_neg, zpow_natCast, ← div_eq_mul_inv]
    exact scale_close_of_neg hlib hfinite hn0 (by omega) hn65 (hnear.trans (by gcongr))
  · obtain ⟨k, rfl⟩ := Int.eq_ofNat_of_zero_le hpos
    rw [zpow_natCast] at h ⊢
    rcases Nat.eq_zero_or_pos n with rfl | hn0
    · obtain ⟨x, hx, hfinite, hle⟩ := scale_significand_zero hlib k
      refine ⟨x, hx, hfinite, ?_⟩
      rw [Nat.cast_zero, zero_mul, sub_zero, zero_div, zero_add]
      linarith
    · obtain ⟨hfinite, hclose⟩ := mul_tenTo_close hn0 h
      have hn1 : (1 : ℚ) ≤ n := by exact_mod_cast hn0
      have hk := le_maxTen ((le_mul_of_one_le_left (by positivity) hn1).trans_lt h)
      exact ⟨_, scale_natCast hlib hk hfinite, hfinite, by linarith⟩

end All

end Json

end StripeBrush
