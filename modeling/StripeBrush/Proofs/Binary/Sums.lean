/-
**Sums that need no rounding.**

A zero of either sign changes no positive number that it is added to, and a finite number less
itself is zero.

Main results:

* `Binary.ofQuanta_zero` — no quanta at all round to a zero of the sign;
* `Binary.zero_add_of_pos` — **adding a zero keeps a positive number**;
* `Binary.sub_self_of_isFinite` — **a finite number less itself is zero**, and so it is for points.
-/

import StripeBrush.Proofs.Binary.Order
import StripeBrush.Proofs.Binary.Rounding
import StripeBrush.Vec

set_option relaxedAutoImplicit false
set_option autoImplicit false

namespace StripeBrush

namespace Binary

variable {F : Format} {x : Binary F}

/-- No quanta at all round to a zero of the sign. -/
theorem ofQuanta_zero (hF : 0 < F.infIndex) (neg : Bool) {den : ℕ} (hd : 0 < den) :
    ofQuanta F neg 0 den = finite neg ⟨0, hF⟩ := by
  have h := ofQuanta_magnitude neg (⟨0, hF⟩ : Fin F.infIndex) hd
  rwa [Format.magnitude_zero, Nat.zero_mul] at h

theorem zero_eq (hF : 0 < F.infIndex) : (0 : Binary F) = finite false ⟨0, hF⟩ := by
  change ofQuanta F false (0 * 2 ^ F.scale) 1 = _
  rw [Nat.zero_mul, ofQuanta_zero hF false Nat.one_pos]

theorem key?_zero (hF : 0 < F.infIndex) : (0 : Binary F).key? = some 0 := by
  rw [zero_eq hF]
  rfl

theorem pos_cases (hF : 0 < F.infIndex) (h : 0 < x) :
    x = inf false ∨ ∃ i : Fin F.infIndex, 0 < i.val ∧ x = finite false i := by
  obtain ⟨j, k, hj, hk, hlt⟩ := lt_iff_key.1 h
  obtain rfl := Option.some.inj ((key?_zero hF).symm.trans hj)
  cases x with
  | nan s => simp [key?] at hk
  | inf s =>
      cases s with
      | false => exact .inl rfl
      | true =>
          simp [key?] at hk
          omega
  | finite s i =>
      cases s with
      | false =>
          simp [key?] at hk
          exact .inr ⟨i, by omega, rfl⟩
      | true =>
          simp [key?] at hk
          omega

/-- **Adding a zero of either sign keeps a positive number.** -/
theorem zero_add_of_pos (hF : 0 < F.infIndex) (neg : Bool) (h : 0 < x) : zero F neg + x = x := by
  have hzero : zero F neg = finite neg ⟨0, hF⟩ := ofQuanta_zero hF neg Nat.one_pos
  rw [hzero]
  obtain rfl | ⟨i, hi, rfl⟩ := pos_cases hF h
  · rfl
  · have hpos : 0 < F.magnitude i := Format.magnitude_pos F hi
    have hsigned : signed F neg 0 + signed F false i = (F.magnitude i : ℤ) := by
      cases neg <;> simp [signed]
    change Binary.add (finite neg ⟨0, hF⟩) (finite false i) = finite false i
    simp only [Binary.add, hsigned]
    rw [if_neg (by omega), decide_eq_false (by omega), Int.natAbs_natCast]
    have hexact := ofQuanta_magnitude false i Nat.one_pos
    rwa [Nat.mul_one] at hexact

/-- **A finite number less itself is zero.** -/
theorem sub_self_of_isFinite (h : x.isFinite = true) : x - x = zero F false := by
  cases x with
  | nan s => simp [isFinite] at h
  | inf s => simp [isFinite] at h
  | finite s i =>
      have hcancel : signed F s i + signed F (!s) i = 0 := by
        cases s <;> simp [signed]
      change Binary.add (finite s i) (finite (!s) i) = zero F false
      simp only [Binary.add, hcancel, if_true, Bool.and_not_self]

end Binary

/-- A finite point less itself is zero. -/
theorem Vec.sub_self_of_isFinite {v : Vec} (h : v.isFinite = true) : v - v = ⟨0, 0⟩ := by
  obtain ⟨hx, hy⟩ := Bool.and_eq_true_iff.1 h
  change (⟨v.x - v.x, v.y - v.y⟩ : Vec) = _
  rw [Binary.sub_self_of_isFinite hx, Binary.sub_self_of_isFinite hy]
  rfl

theorem Vec.length_sub_self_le {v : Vec} (h : v.isFinite = true) : (v - v).length ≤ 0 := by
  rw [Vec.sub_self_of_isFinite h]
  decide +kernel

end StripeBrush
