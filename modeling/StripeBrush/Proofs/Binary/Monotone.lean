/-
**Rounding keeps the order.**

Of two rational numbers, the larger one has the nearest number that is not smaller.  Everything that
is said about signs and about the order of results comes from this: zero is the number nearest to
zero, so that a result is not below zero where the exact result is not; and larger summands give no
smaller sum, however much of them is lost in rounding.  In the same way, the number nearest to a
rational number is infinite from the last midpoint on, and finite before.

Main definitions:

* `Binary.KeepsSign`, `Binary.ZeroOrSame` — a number is not on the other side of zero than another
  one; it is zero or on the same side.

Main results:

* `Format.RoundsTo.mono` — a larger rational number is rounded to no smaller index;
* `Binary.Nearest.le` — **rounding keeps the order**;
* `Binary.Nearest.nonneg`, `Binary.Nearest.nonpos` — and so it keeps the sign;
* `Binary.Nearest.isFinite_iff` — what single precision can hold;
* `Binary.sum_le_sum` — larger summands give no smaller sum;
* `Binary.le_sum` — a summand that is not below zero makes no sum smaller;
* `Binary.keepsSign_mul` — a factor that is not below zero keeps the sign of the other one;
* `Binary.mul_neg_le_mul`, `Binary.mul_le_mul_neg` — the products with two opposite factors;
* `Binary.quotient_self`, `Binary.product_one` — quotients and products that are exact.
-/

import StripeBrush.Proofs.Binary.Nonneg
import StripeBrush.Proofs.Binary.Quotients
import StripeBrush.Proofs.Binary.Values

set_option relaxedAutoImplicit false
set_option autoImplicit false

namespace StripeBrush

namespace Format

variable {F : Format} {q q' : ℚ} {i j : ℕ}

/-- A larger rational number is rounded to no smaller index. -/
theorem RoundsTo.mono (h : F.RoundsTo q i) (h' : F.RoundsTo q' j) (hle : q ≤ q') : i ≤ j := by
  obtain ⟨num, den, hd, hratio, rfl⟩ := h
  obtain ⟨num', den', hd', hratio', rfl⟩ := h'
  refine F.roundIndex_le_roundIndex hd hd' ?_
  have hscaled : (num : ℚ) / den ≤ num' / den' := by
    rw [hratio, hratio']
    gcongr
  rw [div_le_div_iff₀ (by exact_mod_cast hd) (by exact_mod_cast hd')] at hscaled
  exact_mod_cast hscaled

theorem RoundsTo.between {q'' : ℚ} (h : F.RoundsTo q i) (h' : F.RoundsTo q'' i) (hle : q ≤ q')
    (hle' : q' ≤ q'') : F.RoundsTo q' i := by
  have hnonneg : 0 ≤ q * 2 ^ F.scale := by
    obtain ⟨num, den, -, hratio, -⟩ := h
    rw [← hratio]
    positivity
  have hq' : 0 ≤ q' * 2 ^ F.scale := hnonneg.trans (by gcongr)
  obtain ⟨num, den, hd, hratio⟩ := exists_ratio hq'
  have hround : F.RoundsTo q' (F.roundIndex num den) := ⟨num, den, hd, hratio, rfl⟩
  obtain rfl := Nat.le_antisymm (h.mono hround hle) (hround.mono h' hle')
  exact hround

/-- The last midpoint of single precision is itself rounded to infinity: it is a tie, and the largest
magnitude is the odd one. -/
theorem roundsTo_overflow32 : binary32.RoundsTo (2 ^ 128 - 2 ^ 103) binary32.infIndex := by
  have htie : binary32.roundIndex (binary32.midpoint (binary32.infIndex - 1)) 2 =
      binary32.infIndex := by
    decide +kernel
  refine ⟨_, 2, Nat.two_pos, ?_, htie⟩
  rw [← overflow32, overflow, pow_succ]
  push_cast
  field_simp

end Format

namespace Binary

variable {F : Format} {x y z w : Binary F} {r r' : ℚ}

/-! ### The order of results -/

/-- **Rounding keeps the order.** -/
theorem Nearest.le (h : x.Nearest r) (h' : y.Nearest r') (hle : r ≤ r') : x ≤ y := by
  obtain ⟨i, hround, hkey⟩ := h
  obtain ⟨j, hround', hkey'⟩ := h'
  refine le_iff_key.2 ⟨_, _, hkey, hkey', ?_⟩
  rcases lt_or_ge r 0 with hneg | hpos
  · rcases lt_or_ge r' 0 with hneg' | hpos'
    · -- below zero, the larger number is the one of smaller magnitude
      have hij : j ≤ i := hround'.mono hround (by
        rw [abs_of_neg hneg, abs_of_neg hneg']
        exact neg_le_neg hle)
      rw [if_pos hneg, if_pos hneg']
      omega
    · rw [if_pos hneg, if_neg hpos'.not_gt]
      omega
  · have hpos' : 0 ≤ r' := hpos.trans hle
    have hij : i ≤ j := hround.mono hround' (by
      rwa [abs_of_nonneg hpos, abs_of_nonneg hpos'])
    rw [if_neg hpos.not_gt, if_neg hpos'.not_gt]
    omega

/-- A number of single precision is finite exactly where it is nearest to a rational number below the
last midpoint. -/
theorem Nearest.isFinite_iff {x : Binary32} (h : x.Nearest r) :
    x.isFinite = true ↔ |r| < 2 ^ 128 - 2 ^ 103 := by
  constructor
  · intro hfinite
    by_contra hge
    obtain ⟨i, hround, hkey⟩ := h
    have hlt : i < Format.binary32.infIndex := (isFinite_iff_lt_infIndex hkey).1 hfinite
    have hle := Format.roundsTo_overflow32.mono hround (not_lt.1 hge)
    omega
  · intro hlt
    rw [← Format.overflow32] at hlt
    exact (h.rounds (by decide)).isFinite_of_lt hlt

theorem nearest_self (hx : x.isFinite = true) : x.Nearest x.toRat := by
  obtain ⟨s, i, rfl⟩ := exists_of_isFinite hx
  have hratio : ((F.magnitude i : ℕ) : ℚ) / (1 : ℕ) = F.value i * 2 ^ F.scale := by
    rw [Nat.cast_one, div_one, F.magnitude_eq_value]
  have hnearest := nearest_ofQuanta s Nat.one_pos hratio
  have hexact := ofQuanta_magnitude s i Nat.one_pos
  rw [Nat.mul_one] at hexact
  rw [hexact] at hnearest
  exact hnearest

/-- Larger summands give no smaller sum. -/
theorem sum_le_sum (hfinite : (x + z).isFinite = true) (hfinite' : (y + w).isFinite = true)
    (h : x ≤ y) (h' : z ≤ w) : x + z ≤ y + w := by
  obtain ⟨hx, hz⟩ := isFinite_of_add hfinite
  obtain ⟨hy, hw⟩ := isFinite_of_add hfinite'
  rw [le_iff_toRat_le hx hy] at h
  rw [le_iff_toRat_le hz hw] at h'
  exact (nearest_add hx hz).le (nearest_add hy hw) (add_le_add h h')

/-! ### Signs -/

/-- `y` is not on the other side of zero than `x`. -/
structure KeepsSign (y x : Binary F) : Prop where
  nonneg : 0 ≤ x → 0 ≤ y
  nonpos : x ≤ 0 → y ≤ 0

/-- `y` is zero, or on the side of zero where `x` is. -/
def ZeroOrSame (y x : Binary F) : Prop := y.numEq 0 = true ∨ 0 < x ∧ 0 < y ∨ x < 0 ∧ y < 0

section Zero

variable (hF : 0 < F.infIndex)
include hF

theorem nearest_zero : (0 : Binary F).Nearest 0 := by
  have hnothing : ((0 : ℕ) : ℚ) / (1 : ℕ) = 0 * 2 ^ F.scale := by simp
  have hnearest := nearest_ofQuanta false Nat.one_pos hnothing
  rw [ofQuanta_zero hF false Nat.one_pos] at hnearest
  rwa [zero_eq hF]

theorem zero_le_iff_toRat (hx : x.isFinite = true) : 0 ≤ x ↔ 0 ≤ x.toRat := by
  rw [zero_eq hF, le_iff_toRat_le rfl hx]
  simp [toRat]

theorem le_zero_iff_toRat (hx : x.isFinite = true) : x ≤ 0 ↔ x.toRat ≤ 0 := by
  rw [zero_eq hF, le_iff_toRat_le hx rfl]
  simp [toRat]

theorem zero_lt_iff_toRat (hx : x.isFinite = true) : 0 < x ↔ 0 < x.toRat := by
  rw [zero_eq hF, lt_iff_toRat_lt rfl hx]
  simp [toRat]

/-- A result is not below zero where the exact result is not. -/
theorem Nearest.nonneg (h : x.Nearest r) (hr : 0 ≤ r) : 0 ≤ x := (nearest_zero hF).le h hr

/-- A result is not above zero where the exact result is not. -/
theorem Nearest.nonpos (h : x.Nearest r) (hr : r ≤ 0) : x ≤ 0 := h.le (nearest_zero hF) hr

theorem neg_or_zero_or_pos (hx : x.isFinite = true) : x < 0 ∨ x.numEq 0 = true ∨ 0 < x := by
  have hnumber := isNaN_of_isFinite hx
  have hzero : (0 : Binary F).isNaN = false := by rw [zero_eq hF]; rfl
  by_cases hneg : x < 0
  · exact .inl hneg
  · by_cases hpos : 0 < x
    · exact .inr (.inr hpos)
    · exact .inr (.inl (numEq_of_le_of_le (le_of_not_lt hzero hnumber hpos)
        (le_of_not_lt hnumber hzero hneg)))

/-- **A factor that is not below zero keeps the sign of the other one.** -/
theorem keepsSign_mul (hfinite : (x * y).isFinite = true) (hpos : 0 ≤ y) :
    (x * y).KeepsSign x := by
  obtain ⟨hx, hy⟩ := isFinite_of_mul hfinite
  have hnearest := nearest_mul hx hy
  rw [zero_le_iff_toRat hF hy] at hpos
  refine ⟨fun h => ?_, fun h => ?_⟩
  · rw [zero_le_iff_toRat hF hx] at h
    exact hnearest.nonneg hF (mul_nonneg h hpos)
  · rw [le_zero_iff_toRat hF hx] at h
    exact hnearest.nonpos hF (mul_nonpos_of_nonpos_of_nonneg h hpos)

theorem neg_le_zero_iff (hx : x.isFinite = true) : -x ≤ 0 ↔ 0 ≤ x := by
  rw [le_zero_iff_toRat hF ((isFinite_neg x).trans hx), zero_le_iff_toRat hF hx, toRat_neg,
    neg_nonpos]

theorem zero_le_neg_iff (hx : x.isFinite = true) : 0 ≤ -x ↔ x ≤ 0 := by
  rw [zero_le_iff_toRat hF ((isFinite_neg x).trans hx), le_zero_iff_toRat hF hx, toRat_neg,
    neg_nonneg]

/-- Of the products of a number that is not below zero with two opposite factors, the larger one is
that with the larger factor. -/
theorem mul_neg_le_mul (hfinite : (x * y).isFinite = true) (hpos : 0 ≤ y) (h : 0 ≤ x) :
    x * -y ≤ x * y := by
  obtain ⟨hx, hy⟩ := isFinite_of_mul hfinite
  have hneg := nearest_mul hx ((isFinite_neg y).trans hy)
  rw [zero_le_iff_toRat hF hx] at h
  rw [zero_le_iff_toRat hF hy] at hpos
  rw [toRat_neg, mul_neg] at hneg
  exact hneg.le (nearest_mul hx hy) (neg_le_self (mul_nonneg h hpos))

/-- Of the products of a number that is not above zero with two opposite factors, the larger one is
that with the smaller factor. -/
theorem mul_le_mul_neg (hfinite : (x * y).isFinite = true) (hpos : 0 ≤ y) (h : x ≤ 0) :
    x * y ≤ x * -y := by
  obtain ⟨hx, hy⟩ := isFinite_of_mul hfinite
  have hneg := nearest_mul hx ((isFinite_neg y).trans hy)
  rw [le_zero_iff_toRat hF hx] at h
  rw [zero_le_iff_toRat hF hy] at hpos
  rw [toRat_neg, mul_neg] at hneg
  refine (nearest_mul hx hy).le hneg ?_
  linarith [mul_nonpos_of_nonpos_of_nonneg h hpos]

theorem KeepsSign.zeroOrSame (h : y.KeepsSign x) (hx : x.isFinite = true)
    (hy : y.isFinite = true) : y.ZeroOrSame x := by
  have hzero : (0 : Binary F).isNaN = false := by rw [zero_eq hF]; rfl
  have hnumber := isNaN_of_isFinite hx
  rcases neg_or_zero_or_pos hF hy with hneg | hzeroy | hpos
  · have hneg' : x < 0 := by
      rw [← not_le_iff_lt hzero hnumber]
      intro hge
      exact not_lt_of_le (h.nonneg hge) hneg
    exact .inr (.inr ⟨hneg', hneg⟩)
  · exact .inl hzeroy
  · have hpos' : 0 < x := by
      rw [← not_le_iff_lt hnumber hzero]
      intro hle
      exact not_lt_of_le (h.nonpos hle) hpos
    exact .inr (.inl ⟨hpos', hpos⟩)

theorem nonneg_quotient (hx : x.isFinite = true) (hy : y.isFinite = true) (hpos : 0 < y)
    (h : 0 ≤ x) : 0 ≤ x / y := by
  have hy' := (zero_lt_iff_toRat hF hy).1 hpos
  rw [zero_le_iff_toRat hF hx] at h
  exact (nearest_div hx hy hy'.ne').nonneg hF (div_nonneg h hy'.le)

theorem le_infinity (hx : 0 ≤ x) : x ≤ inf false := by
  obtain rfl | ⟨s, i, rfl, -⟩ := (nonneg_iff hF).1 hx
  · exact le_refl rfl
  · refine le_iff_key.2 ⟨_, _, rfl, rfl, ?_⟩
    have hlt := i.isLt
    simp only [Bool.false_eq_true, if_false]
    split <;> omega

/-- A sum of numbers that are not below zero is not smaller than its first summand, be it finite or
not. -/
theorem le_sum (hx : 0 ≤ x) (hy : 0 ≤ y) : x ≤ x + y := by
  obtain rfl | ⟨s, i, rfl, -⟩ := (nonneg_iff hF).1 hx
  · obtain rfl | ⟨t, j, rfl, -⟩ := (nonneg_iff hF).1 hy
    · exact le_refl rfl
    · exact le_refl rfl
  · obtain rfl | ⟨t, j, rfl, -⟩ := (nonneg_iff hF).1 hy
    · exact le_infinity hF hx
    · have hpos := (zero_le_iff_toRat hF rfl).1 hy
      exact (nearest_self rfl).le (nearest_add rfl rfl) (le_add_of_nonneg_right hpos)

end Zero

/-! ### Exact results -/

/-- A positive finite number divided by itself is one. -/
theorem quotient_self (hF : 0 < F.infIndex) (hpos : 0 < x) (hx : x.isFinite = true) :
    x / x = 1 := by
  obtain rfl | ⟨i, hi, rfl⟩ := pos_cases hF hpos
  · simp [isFinite] at hx
  · have hcancel := F.roundIndex_mul_right (1 * 2 ^ F.scale) 1 (F.magnitude_pos hi)
    rw [div_finite i.isLt hi i.isLt]
    change ofIndex F false _ = ofIndex F false (F.roundIndex (1 * 2 ^ F.scale) 1)
    rw [← hcancel, Nat.one_mul, Nat.one_mul, Nat.mul_comm]

/-- A finite number times one is that number, with its sign. -/
theorem product_one (hone : (1 : Binary F).isFinite = true) (hx : x.isFinite = true) :
    x * 1 = x := by
  obtain ⟨j, -, hj, heq⟩ := one_eq F
  obtain ⟨s, i, rfl⟩ := exists_of_isFinite hx
  have hlt : j < F.infIndex := by
    by_contra hge
    rw [heq, ofIndex, dif_neg hge] at hone
    simp [isFinite] at hone
  have hexact := ofQuanta_magnitude s i (Nat.two_pow_pos F.scale)
  rw [heq, ofIndex, dif_pos hlt]
  change ofQuanta F (s != false) (F.magnitude i * F.magnitude j) (2 ^ F.scale) = _
  rw [hj, Bool.bne_false, hexact]

end Binary

end StripeBrush
