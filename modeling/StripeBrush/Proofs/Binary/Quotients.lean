/-
**Quotients that are not below one.**

Rounding keeps the order of ratios, and one is a number of the format.  So the quotient of a number
by a smaller positive one is not rounded below one, and is no `NaN` even where the dividend is
infinite; and a positive number is counted up to a positive natural number.

Main results:

* `Binary.one_eq` — one is the number at a positive index, however narrow the format;
* `Binary.one_le_div` — **a number divided by a smaller positive one is not below one**;
* `Binary.one_lt_div` — **and it is above one, however close the two numbers are**;
* `Binary.ceilUpTo_pos` — a positive number is counted up to a positive one.
-/

import StripeBrush.Proofs.Binary.Conversion
import StripeBrush.Proofs.Binary.Sums

set_option relaxedAutoImplicit false
set_option autoImplicit false

namespace StripeBrush.Binary

variable {F : Format} {x y : Binary F} {i j : ℕ}

/-! ### One -/

/-- One is the number at a positive index, the magnitude of which is its own number of quanta. -/
theorem one_eq (F : Format) :
    ∃ i, 0 < i ∧ F.magnitude i = 2 ^ F.scale ∧ (1 : Binary F) = ofIndex F false i := by
  obtain ⟨i, hi⟩ := F.exists_magnitude F.scale (m := 1) Nat.one_le_two_pow
  rw [Nat.one_mul] at hi
  have hpos : 0 < i := by
    rcases Nat.eq_zero_or_pos i with rfl | hpos
    · rw [Format.magnitude_zero] at hi
      exact absurd hi (Nat.two_pow_pos F.scale).ne
    · exact hpos
  refine ⟨i, hpos, hi, ?_⟩
  have hround : F.roundIndex (1 * 2 ^ F.scale) 1 = i := by
    have hself := F.roundIndex_magnitude i Nat.one_pos
    rwa [Nat.mul_one, hi, ← Nat.one_mul (2 ^ F.scale)] at hself
  change ofIndex F false (F.roundIndex (1 * 2 ^ F.scale) 1) = _
  rw [hround]

/-! ### The numbers in the order of their indices -/

theorem key?_ofIndex (F : Format) (i : ℕ) :
    (ofIndex F false i).key? = some (min (i : ℤ) F.infIndex) := by
  unfold ofIndex
  split
  · rename_i hlt
    simp [key?]
    omega
  · rename_i hge
    simp [key?]
    omega

theorem ofIndex_le_ofIndex (h : i ≤ j) : ofIndex F false i ≤ ofIndex F false j :=
  le_iff_key.2 ⟨_, _, key?_ofIndex F i, key?_ofIndex F j, by omega⟩

theorem zero_lt_one (hF : 0 < F.infIndex) : (0 : Binary F) < 1 := by
  obtain ⟨i, hi, -, hone⟩ := one_eq F
  rw [hone]
  exact lt_iff_key.2 ⟨_, _, key?_zero hF, key?_ofIndex F i, by omega⟩

/-- One is at most infinity. -/
theorem one_le_inf (F : Format) : (1 : Binary F) ≤ inf false := by
  obtain ⟨i, -, -, hone⟩ := one_eq F
  rw [hone]
  exact le_iff_key.2 ⟨_, F.infIndex, key?_ofIndex F i, rfl, by omega⟩

/-! ### Quotients -/

/-- The quotient of two positive finite numbers. -/
theorem div_finite (hj : j < F.infIndex) (hpos : 0 < j) (hi : i < F.infIndex) :
    (finite false ⟨i, hi⟩ : Binary F) / finite false ⟨j, hj⟩ =
      ofQuanta F false (F.magnitude i * 2 ^ F.scale) (F.magnitude j) := by
  change Binary.div _ _ = _
  simp [Binary.div, hpos.ne']

/-- **A number divided by a positive finite one that is not larger is not below one.** -/
theorem one_le_div (hF : 0 < F.infIndex) (hy : 0 < y) (hfinite : y.isFinite = true) (h : y ≤ x) :
    1 ≤ x / y := by
  obtain rfl | ⟨j, hj, rfl⟩ := pos_cases hF hy
  · simp [isFinite] at hfinite
  · obtain rfl | ⟨i, -, rfl⟩ := pos_cases hF (lt_of_lt_of_le hy h)
    · exact one_le_inf F
    · have hle : j.val ≤ i.val := by
        obtain ⟨k, l, hk, hl, hkl⟩ := le_iff_key.1 h
        simp [key?] at hk hl
        omega
      obtain ⟨one, -, hone, heq⟩ := one_eq F
      have hmagnitude : F.magnitude j ≤ F.magnitude i := F.magnitude_strictMono.monotone hle
      rw [div_finite j.isLt hj i.isLt, heq, ← F.roundIndex_magnitude one Nat.one_pos]
      refine ofIndex_le_ofIndex (F.roundIndex_le_roundIndex Nat.one_pos (F.magnitude_pos hj) ?_)
      calc F.magnitude one * 1 * F.magnitude j
          = F.magnitude j * 2 ^ F.scale := by rw [hone, Nat.mul_one, Nat.mul_comm]
        _ ≤ F.magnitude i * 2 ^ F.scale * 1 := by
            rw [Nat.mul_one]
            exact Nat.mul_le_mul_right _ hmagnitude

/-- The quotient of two magnitudes in their order is rounded beyond one.  Even where the two are
neighbours it is beyond the midpoint above one. -/
theorem lt_roundIndex_quotient {one : ℕ} (hF : F.fracBits ≤ F.scale)
    (hone : F.magnitude one = 2 ^ F.scale) (hj : 0 < j) (h : j < i) :
    one < F.roundIndex (F.magnitude i * 2 ^ F.scale) (F.magnitude j) := by
  by_contra hle
  have hpos : 0 < 2 ^ F.scale := Nat.two_pow_pos _
  have hlt : F.magnitude j < F.magnitude i := F.magnitude_strictMono h
  obtain ⟨k, rfl⟩ : ∃ k, i = k + 1 := ⟨i - 1, by omega⟩
  have hround := (F.roundIndex_le_midpoint (F.magnitude (k + 1) * 2 ^ F.scale)
    (F.magnitude_pos hj)).trans (Nat.mul_le_mul_right (F.magnitude j)
    (F.midpoint_strictMono.monotone (Nat.le_of_not_lt hle)))
  -- what comes after one, and how far apart two neighbours are
  have hnext := F.magnitude_succ_le (i := one) (by
    rw [hone]
    exact Nat.pow_le_pow_right (by omega) hF)
  have hgap := F.magnitude_add_le_succ k
  have hk : F.magnitude j ≤ F.magnitude k := F.magnitude_strictMono.monotone (by omega)
  rw [Format.midpoint, hone] at hround
  rw [hone] at hnext
  rw [Nat.pow_succ] at hgap
  generalize F.magnitude (one + 1) = next at hround hnext
  generalize F.magnitude (k + 1) = a at hlt hround hgap
  generalize F.magnitude j = b at hlt hround hk
  generalize F.magnitude k = c at hgap hk
  generalize 2 ^ F.scale = S at hpos hround hnext
  generalize 2 ^ F.fracBits = p at hnext hgap
  have hscaled : 2 * p * a * S ≤ (2 * p + 1) * b * S := by
    calc 2 * p * a * S = p * (2 * (a * S)) := by ring
      _ ≤ p * ((S + next) * b) := Nat.mul_le_mul_left p hround
      _ = p * S * b + p * next * b := by ring
      _ ≤ p * S * b + (p + 1) * S * b := Nat.add_le_add_left (Nat.mul_le_mul_right b hnext) _
      _ = (2 * p + 1) * b * S := by ring
  have hratio : 2 * p * a ≤ (2 * p + 1) * b := Nat.le_of_mul_le_mul_right hscaled hpos
  have hfar : p * 2 * b ≤ p * 2 * c := Nat.mul_le_mul_left _ hk
  have hsplit : (2 * p + 1) * b = p * 2 * b + b := by ring
  have hcomm : 2 * p * a = p * 2 * a := by ring
  omega

/-- **A finite number divided by a smaller positive one is above one.** -/
theorem one_lt_div (hone : (1 : Binary F).isFinite = true) (hF : F.fracBits ≤ F.scale) (hy : 0 < y)
    (hx : x.isFinite = true) (h : y < x) : 1 < x / y := by
  obtain ⟨one, -, hmagnitude, heq⟩ := one_eq F
  have hlt : one < F.infIndex := by
    by_contra hge
    rw [heq, ofIndex, dif_neg hge] at hone
    simp [isFinite] at hone
  have hF0 : 0 < F.infIndex := by omega
  obtain rfl | ⟨i, -, rfl⟩ := pos_cases hF0 (lt_of_lt_of_le hy (le_of_lt h))
  · simp [isFinite] at hx
  · obtain ⟨k, l, hk, hl, hkl⟩ := lt_iff_key.1 h
    obtain rfl | ⟨j, hj, rfl⟩ := pos_cases hF0 hy
    · simp [key?] at hk hl
      omega
    · simp [key?] at hk hl
      have hindex := lt_roundIndex_quotient hF hmagnitude hj (show j.val < i.val by omega)
      rw [div_finite j.isLt hj i.isLt, heq]
      exact lt_iff_key.2 ⟨_, _, key?_ofIndex F one, key?_ofIndex F _, by omega⟩

/-- Nothing is counted beyond the limit of the count. -/
theorem ceilUpTo_le (x : Binary F) (limit : ℕ) : x.ceilUpTo limit ≤ limit := by
  unfold ceilUpTo
  split
  · exact Nat.zero_le _
  · split <;> omega
  · split <;> omega

/-- A positive number is counted up to a positive one. -/
theorem ceilUpTo_pos (hF : 0 < F.infIndex) {limit : ℕ} (hlimit : 0 < limit) (h : 0 < x) :
    0 < x.ceilUpTo limit := by
  obtain rfl | ⟨i, hi, rfl⟩ := pos_cases hF h
  · exact hlimit
  · have hpos : 0 < F.magnitude i := F.magnitude_pos hi
    have hwhole : 2 ^ F.scale ≤ F.magnitude i + (2 ^ F.scale - 1) := by omega
    exact lt_min hlimit (Nat.div_pos hwhole (Nat.two_pow_pos _))

end StripeBrush.Binary
