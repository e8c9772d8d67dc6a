/-
**Sums and differences of integers.**

An integer that fits a significand is a number of the format, and the sum and the difference of two
such numbers are those of the integers, rounded once where they no longer fit.  The sign of a zero
does not get in the way: the integer zero is positive zero, and a sum or a difference of two integers
is negative zero only if one of the operands is.  So integers that are all moved by the same integer
keep their differences, bit for bit.

Main definitions:

* `Binary.IntegerWithin` — a number is an integer of bounded magnitude, and not negative zero.

Main results:

* `Binary.ofInt_add_ofInt`, `Binary.ofInt_sub_ofInt` — **the operations on integers**;
* `Binary.IntegerWithin.exists_ofInt` — such a number is the one of an integer;
* `Binary.add_ofInt_sub_add_ofInt` — **a common shift leaves a difference as it is**.
-/

import StripeBrush.Proofs.Binary.SameValue
import StripeBrush.Proofs.Binary.Values

set_option relaxedAutoImplicit false
set_option autoImplicit false

namespace StripeBrush.Binary

variable {F : Format} {x y : Binary F} {a b z : ℤ} {bound : ℕ}

/-! ### The number of an integer -/

theorem ofInt_natCast (n : ℕ) : ofInt F n = ofNat F n := by
  have hpos : ¬ (n : ℤ) < 0 := by omega
  rw [ofInt, ofNat, decide_eq_false hpos, Int.natAbs_natCast]

theorem exists_finite_ofInt (h : F.Whole z.natAbs) :
    ∃ i : Fin F.infIndex, ofInt F z = finite (decide (z < 0)) i ∧
      signed F (decide (z < 0)) i = z * 2 ^ F.scale := by
  obtain ⟨i, hi⟩ := h
  refine ⟨i, ?_, ?_⟩
  · have hexact := ofQuanta_magnitude (decide (z < 0)) i Nat.one_pos
    rwa [Nat.mul_one, hi] at hexact
  · have hmagnitude : (F.magnitude i : ℤ) = |z| * 2 ^ F.scale := by
      rw [hi]
      push_cast
      rfl
    rcases lt_or_ge z 0 with hneg | hpos
    · simp [signed, hneg, hmagnitude, abs_of_neg hneg]
    · simp [signed, hpos.not_gt, hmagnitude, abs_of_nonneg hpos]

theorem toRat_ofInt (h : F.Whole z.natAbs) :
    (ofInt F z).isFinite = true ∧ (ofInt F z).toRat = z := by
  obtain ⟨i, heq, hsigned⟩ := exists_finite_ofInt h
  have hscale : (2 : ℚ) ^ F.scale ≠ 0 := by positivity
  have hvalue := signed_eq_toRat (decide (z < 0)) i
  rw [hsigned, ← heq] at hvalue
  push_cast at hvalue
  exact ⟨by rw [heq]; rfl, (mul_right_cancel₀ hscale hvalue).symm⟩

theorem ofInt_ne_zero_true (h : F.Whole z.natAbs) : ofInt F z ≠ zero F true := by
  intro hzero
  obtain ⟨i, heq, hsigned⟩ := exists_finite_ofInt h
  have hF : 0 < F.infIndex := Nat.lt_of_le_of_lt (Nat.zero_le _) i.isLt
  have hnegative : zero F true = finite true ⟨0, hF⟩ := ofQuanta_zero hF true Nat.one_pos
  rw [heq, hnegative] at hzero
  obtain ⟨hneg, rfl⟩ := Binary.finite.inj hzero
  -- no quanta, so that the integer is zero, which is not below zero
  have hz : z = 0 := by simpa [hneg, signed] using hsigned
  simp [hz] at hneg

/-! ### Sums and differences -/

/-- Two finite numbers whose quanta add up to an integer have that integer for their sum, unless both
are negative and the integer is zero. -/
theorem add_eq_ofInt {s t : Bool} {i j : Fin F.infIndex}
    (h : signed F s i + signed F t j = z * 2 ^ F.scale) (hsign : s = true → t = true → z ≠ 0) :
    finite s i + finite t j = ofInt F z := by
  have hscale : (0 : ℤ) < 2 ^ F.scale := by positivity
  change Binary.add (finite s i) (finite t j) = _
  simp only [Binary.add, h]
  split
  case isTrue hzero =>
    have hz : z = 0 := (mul_eq_zero.1 hzero).resolve_right hscale.ne'
    have hpositive : (s && t) = false := by
      by_contra hboth
      rw [Bool.not_eq_false, Bool.and_eq_true] at hboth
      exact hsign hboth.1 hboth.2 hz
    rw [hpositive, hz, ofInt, Int.natAbs_zero, Nat.zero_mul]
    rfl
  case isFalse =>
    have hneg : decide (z * 2 ^ F.scale < 0) = decide (z < 0) :=
      decide_eq_decide.2 ⟨fun h => neg_of_mul_neg_left h hscale.le,
        fun h => mul_neg_of_neg_of_pos h hscale⟩
    rw [hneg, Int.natAbs_mul, Int.natAbs_pow]
    rfl

theorem ofInt_add_ofInt (ha : F.Whole a.natAbs) (hb : F.Whole b.natAbs) :
    ofInt F a + ofInt F b = ofInt F (a + b) := by
  obtain ⟨i, hi, hsi⟩ := exists_finite_ofInt ha
  obtain ⟨j, hj, hsj⟩ := exists_finite_ofInt hb
  rw [hi, hj]
  refine add_eq_ofInt ?_ fun hna hnb => ?_
  · rw [hsi, hsj, add_mul]
  · have hna := of_decide_eq_true hna
    have hnb := of_decide_eq_true hnb
    omega

theorem ofInt_sub_ofInt (ha : F.Whole a.natAbs) (hb : F.Whole b.natAbs) :
    ofInt F a - ofInt F b = ofInt F (a - b) := by
  obtain ⟨i, hi, hsi⟩ := exists_finite_ofInt ha
  obtain ⟨j, hj, hsj⟩ := exists_finite_ofInt hb
  have hflip : ∀ s, signed F (!s) j = -signed F s j := by
    intro s
    cases s <;> simp [signed]
  rw [hi, hj]
  change finite _ i + finite (!decide (b < 0)) j = _
  refine add_eq_ofInt ?_ fun hna hnb => ?_
  · rw [hflip, hsi, hsj, sub_mul, sub_eq_add_neg]
  · have hna := of_decide_eq_true hna
    have hnb : ¬ b < 0 := by simpa using hnb
    omega

/-! ### Numbers that are integers -/

/-- The number is an integer of magnitude at most `bound`, and it is not negative zero. -/
structure IntegerWithin (bound : ℕ) (x : Binary F) : Prop where
  isFinite : x.isFinite = true
  integral : ∃ z : ℤ, x.toRat = z ∧ z.natAbs ≤ bound
  ne_zero_true : x ≠ zero F true

theorem integerWithin_ofInt (h : F.Whole z.natAbs) (hz : z.natAbs ≤ bound) :
    (ofInt F z).IntegerWithin bound where
  isFinite := (toRat_ofInt h).1
  integral := ⟨z, (toRat_ofInt h).2, hz⟩
  ne_zero_true := ofInt_ne_zero_true h

/-- Finite numbers of one rational value have the same value. -/
theorem SameValue.of_toRat (hx : x.isFinite = true) (hy : y.isFinite = true)
    (h : x.toRat = y.toRat) : SameValue x y :=
  .of_numEq hx hy (numEq_of_le_of_le ((le_iff_toRat_le hx hy).2 h.le)
    ((le_iff_toRat_le hy hx).2 h.ge))

/-- A number that is an integer is the one of that integer. -/
theorem IntegerWithin.exists_ofInt (h : x.IntegerWithin bound)
    (hbound : ∀ n ≤ bound, F.Whole n) : ∃ z : ℤ, z.natAbs ≤ bound ∧ x = ofInt F z := by
  obtain ⟨hx, ⟨z, hz, hle⟩, hpositive⟩ := h
  have hwhole := hbound _ hle
  obtain ⟨hfinite, hvalue⟩ := toRat_ofInt hwhole
  have hpositive' := ofInt_ne_zero_true hwhole
  refine ⟨z, hle, ?_⟩
  have hsame := SameValue.of_toRat hx hfinite (hz.trans hvalue.symm)
  generalize ofInt F z = y at hsame hpositive'
  cases hsame with
  | same => rfl
  | nan s t => simp [Binary.isFinite] at hx
  | zero s t i hi =>
      -- neither zero is the negative one
      have hF : 0 < F.infIndex := Nat.lt_of_le_of_lt (Nat.zero_le _) i.isLt
      obtain rfl : i = ⟨0, hF⟩ := Fin.ext hi
      have hs : ∀ s, finite s ⟨0, hF⟩ ≠ zero F true → s = false := by
        intro s hne
        by_contra hneg
        rw [Bool.not_eq_false] at hneg
        exact hne (by rw [hneg, zero, ofQuanta_zero hF true Nat.one_pos])
      rw [hs s hpositive, hs t hpositive']

/-- **A common shift leaves a difference as it is.** -/
theorem add_ofInt_sub_add_ofInt (hx : x.IntegerWithin bound) (hy : y.IntegerWithin bound)
    (hz : z.natAbs ≤ bound) (hbound : ∀ n ≤ 2 * bound, F.Whole n) :
    x + ofInt F z - (y + ofInt F z) = x - y := by
  obtain ⟨a, ha, rfl⟩ := hx.exists_ofInt fun n hn => hbound n (by omega)
  obtain ⟨b, hb, rfl⟩ := hy.exists_ofInt fun n hn => hbound n (by omega)
  have hwhole : ∀ c : ℤ, c.natAbs ≤ 2 * bound → F.Whole c.natAbs := fun c => hbound _
  rw [ofInt_add_ofInt (hwhole a (by omega)) (hwhole z (by omega)),
    ofInt_add_ofInt (hwhole b (by omega)) (hwhole z (by omega)),
    ofInt_sub_ofInt (hwhole (a + z) (by omega)) (hwhole (b + z) (by omega)),
    ofInt_sub_ofInt (hwhole a (by omega)) (hwhole b (by omega)), add_sub_add_right_eq_sub]

end StripeBrush.Binary
