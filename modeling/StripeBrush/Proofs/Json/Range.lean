/-
**Which numbers are in range, and how well they are read.**

The significand of a number, scaled, never exceeds the number that is written, because digits that
do not fit are left out.  What can push it out of range is rounding: the significand and the power of
ten are rounded before they are multiplied, and either can grow by half a unit of its last place.  A
number that is below the largest finite one by a few units of its last place is still read, and what
is read is the number that is written, but for an error in the last places of a double.

Main definitions:

* `Json.Number.toRat`, `Json.NumberForm.toRat` — the number that was read, and the one that is
  written.

Main results:

* `Json.NumberForm.exists_converted` — **a number below the bound is in range**, unless its exponent
  is too large to be taken at its value;
* `Json.NumberForm.converted_close` — **the number that is read is the one that is written**, up to a
  relative error of `2 ^ -47`.
-/

import StripeBrush.Proofs.Json.PowersOfTen
import StripeBrush.Proofs.Json.Significand

set_option relaxedAutoImplicit false
set_option autoImplicit false

namespace StripeBrush.Json

open Format

variable {ε : Type} {lib : Library ε}

/-! ### Values -/

namespace Number

/-- The value of a number that was read. -/
def toRat : Number → ℚ
  | integer z => z
  | real x => x.toRat

/-- Neither infinite nor `NaN`. -/
def isFinite : Number → Bool
  | integer _ => true
  | real x => x.isFinite

end Number

/-- A rational number with a sign. -/
def signedRat (neg : Bool) (q : ℚ) : ℚ := if neg then -q else q

/-- The number that is written. -/
def NumberForm.toRat (n : NumberForm) : ℚ := signedRat n.negative n.magnitude

theorem abs_signedRat_sub (neg : Bool) (p q : ℚ) :
    |signedRat neg p - signedRat neg q| = |p - q| := by
  cases neg with
  | false => rfl
  | true => rw [signedRat, signedRat, if_pos rfl, if_pos rfl, neg_sub_neg, abs_sub_comm]

theorem withSign_true (x : Binary64) : withSign true x = -x := rfl

theorem toRat_withSign (neg : Bool) (x : Binary64) :
    (withSign neg x).toRat = signedRat neg x.toRat := by
  cases neg with
  | false => rfl
  | true => exact Binary.toRat_neg x

theorem isFinite_withSign (neg : Bool) (x : Binary64) :
    (withSign neg x).isFinite = x.isFinite := by
  cases neg <;> cases x <;> rfl

/-- Whatever its sign, a whole number is exact or rounded to double precision. -/
theorem wholeNumber_cases (neg : Bool) (m : ℕ) :
    wholeNumber neg m = .real (withSign neg (Binary.ofNat binary64 m)) ∨
      (wholeNumber neg m).isFinite = true ∧ (wholeNumber neg m).toRat = signedRat neg m := by
  unfold wholeNumber
  cases neg with
  | false => exact Or.inr ⟨rfl, Int.cast_natCast m⟩
  | true =>
      split
      · contradiction
      · split
        · exact Or.inl (congrArg Number.real (withSign_true _).symm)
        · refine Or.inr ⟨rfl, ?_⟩
          simp only [Number.toRat, signedRat, if_true, Int.cast_neg, Int.cast_natCast]

/-- A whole number is read without an error, unless it is negative and zero or too far down: then it is
rounded once. -/
theorem wholeNumber_close (neg : Bool) {m : ℕ} (hm : m < significandBound) :
    (wholeNumber neg m).isFinite = true ∧
      |(wholeNumber neg m).toRat - signedRat neg m| ≤ m / 2 ^ 53 + halfQuantum := by
  obtain ⟨hfinite, hclose⟩ := near_ofNat hm
  rcases wholeNumber_cases neg m with h | ⟨hexact, h⟩
  · rw [h, Number.isFinite, Number.toRat, isFinite_withSign, toRat_withSign, abs_signedRat_sub]
    exact ⟨hfinite, hclose⟩
  · rw [h, sub_self, abs_zero]
    exact ⟨hexact, add_nonneg (by positivity) halfQuantum_pos.le⟩

/-! ### Numbers in range -/

namespace NumberForm

variable (n : NumberForm)

theorem magnitude_nonneg : 0 ≤ n.magnitude := by
  rw [magnitude]
  positivity

theorem Fits.magnitude_eq {n : NumberForm} (h : n.Fits) : n.magnitude = n.significand := by
  obtain ⟨hfraction, hexponent, hleft⟩ := h
  have hle := n.significand_mul_le
  have hge := n.magnitude_le
  obtain ⟨taken, htext, hvalue, -⟩ := absorb_spec 0 n.whole
  rw [hleft, List.append_nil] at htext
  rw [magnitude, digitsValue, exponentValue, significand, hfraction, hexponent, List.append_nil,
    htext, ← hvalue, ← htext]
  simp [absorb]

variable (hlib : lib.Scales)

include hlib

/-- A number below the bound, scaled. -/
theorem scaled_close (hexponent : n.exponentValue.natAbs ≤ maxExponent)
    (h : n.magnitude < safeBound) :
    ∃ z, n.scaled lib = .ok z ∧ z.isFinite = true ∧
      |z.toRat - n.toRat| ≤ n.magnitude / 2 ^ 47 + 4 * halfQuantum := by
  have hle := n.significand_mul_le
  have hge := n.magnitude_le
  have hpos := n.magnitude_nonneg
  obtain ⟨x, hx, hfinite, hclose⟩ := scale_close hlib n.significand_lt (hle.trans_lt h)
  refine ⟨.real (withSign n.negative x), ?_, (isFinite_withSign _ x).trans hfinite, ?_⟩
  · rw [scaled, if_neg (Nat.not_lt.2 hexponent), hx]
    rfl
  · change |(withSign n.negative x).toRat - _| ≤ _
    rw [toRat_withSign, toRat, abs_signedRat_sub]
    generalize (n.significand : ℚ) * 10 ^ (n.power + n.exponentValue) = v at hle hge hclose
    have hsum := abs_sub_le x.toRat v n.magnitude
    rw [abs_sub_comm v, abs_of_nonneg (sub_nonneg.2 hle)] at hsum
    linarith

/-- **The number that is read is the one that is written**, up to a relative error of `2 ^ -47`. -/
theorem converted_close (hexponent : n.exponentValue.natAbs ≤ maxExponent)
    (h : n.magnitude < safeBound) :
    ∃ z, n.converted lib = .ok z ∧ z.isFinite = true ∧
      |z.toRat - n.toRat| ≤ n.magnitude / 2 ^ 47 + 4 * halfQuantum := by
  rw [converted]
  split
  · next hfits =>
      obtain ⟨hfinite, hclose⟩ := wholeNumber_close n.negative n.significand_lt
      have hpos := n.magnitude_nonneg
      have hhalf := halfQuantum_pos
      rw [← hfits.magnitude_eq] at hclose
      exact ⟨_, rfl, hfinite, hclose.trans (by linarith)⟩
  · exact n.scaled_close hlib hexponent h

/-- **A number below the bound is in range**, unless its exponent is too large to be taken at its
value. -/
theorem exists_converted (hexponent : n.exponentValue ≤ maxExponent) (h : n.magnitude < safeBound) :
    ∃ z, n.converted lib = .ok z := by
  rcases Nat.lt_or_ge maxExponent n.exponentValue.natAbs with hlarge | hsmall
  · -- a number with so small an exponent is zero
    have hneg : ¬ 0 < n.exponentValue := by
      intro hpos
      have habs : (n.exponentValue.natAbs : ℤ) = n.exponentValue := Int.natAbs_of_nonneg hpos.le
      omega
    rw [converted]
    split
    · exact ⟨_, rfl⟩
    · rw [scaled, if_pos hlarge, if_neg (fun hover => hneg hover.2)]
      exact ⟨_, rfl⟩
  · obtain ⟨z, hz, -⟩ := n.converted_close hlib hsmall h
    exact ⟨z, hz⟩

end NumberForm

end StripeBrush.Json
