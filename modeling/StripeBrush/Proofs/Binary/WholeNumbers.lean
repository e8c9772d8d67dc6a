/-
**Arithmetic of whole numbers.**

A whole number that fits a significand is not rounded, and what is computed from such numbers is the
number nearest to the exact result, which is a whole number again.  So sums, differences and products
are those of the natural numbers, rounded once where they no longer fit; the root of a square is
found; and a change of format changes nothing.  In single precision this holds up to `2 ^ 24`: a
movement along an axis by a whole number up to there has that number for its length.

Main results:

* `Binary.ofNat_sub_ofNat`, `Binary.ofNat_mul_ofNat`, `Binary.sqrt_ofNat_mul_self`,
  `Binary.convert_ofNat` — the operations on whole numbers;
* `Binary.ofNat_lt_ofNat_iff` — their order;
* `Vec.length_ofNat` — **the length of a whole movement along the first axis**.
-/

import StripeBrush.Proofs.Binary.Integers
import StripeBrush.Proofs.Geometry.Length

set_option relaxedAutoImplicit false
set_option autoImplicit false

namespace StripeBrush

namespace Binary

variable {F G : Format} {m n : ℕ}

theorem ofQuanta_eq_ofNat {num den : ℕ} (hd : 0 < den) (h : num = n * 2 ^ F.scale * den) :
    ofQuanta F false num den = ofNat F n := by
  have hindex : F.roundIndex num den = F.roundIndex (n * 2 ^ F.scale) 1 := by
    refine F.roundIndex_congr hd Nat.one_pos ?_
    rw [h, Nat.mul_one]
  rw [ofNat, ofQuanta, ofQuanta, hindex]

theorem ofNat_add_ofNat (hm : F.Whole m) (hn : F.Whole n) :
    ofNat F m + ofNat F n = ofNat F (m + n) := by
  rw [← ofInt_natCast m, ← ofInt_natCast n, ← ofInt_natCast (m + n), ofInt_add_ofInt hm hn,
    Nat.cast_add]

theorem ofNat_sub_ofNat (hm : F.Whole m) (hn : F.Whole n) (h : n ≤ m) :
    ofNat F m - ofNat F n = ofNat F (m - n) := by
  rw [← ofInt_natCast m, ← ofInt_natCast n, ← ofInt_natCast (m - n), ofInt_sub_ofInt hm hn,
    Nat.cast_sub h]

/-- A product of whole numbers is rounded once, where it does not fit. -/
theorem ofNat_mul_ofNat (hm : F.Whole m) (hn : F.Whole n) :
    ofNat F m * ofNat F n = ofNat F (m * n) := by
  obtain ⟨i, hi⟩ := hm
  obtain ⟨j, hj⟩ := hn
  rw [ofNat_of_magnitude hi, ofNat_of_magnitude hj]
  change ofQuanta F false (F.magnitude i * F.magnitude j) (2 ^ F.scale) = _
  refine ofQuanta_eq_ofNat (Nat.two_pow_pos _) ?_
  rw [hi, hj]
  ring

/-- A whole number is the same in every format, rounded once where it does not fit. -/
theorem convert_ofNat (G : Format) (hn : F.Whole n) : (ofNat F n).convert G = ofNat G n := by
  obtain ⟨i, hi⟩ := hn
  rw [ofNat_of_magnitude hi]
  change ofQuanta G false (F.magnitude i * 2 ^ G.scale) (2 ^ F.scale) = _
  refine ofQuanta_eq_ofNat (Nat.two_pow_pos _) ?_
  rw [hi]
  ring

/-- **The root of a square is found.** -/
theorem sqrt_ofNat_mul_self (hn : F.Whole (n * n)) : (ofNat F (n * n)).sqrt = ofNat F n := by
  obtain ⟨i, hi⟩ := hn
  rw [ofNat_of_magnitude hi]
  have hzero : i.val = 0 ↔ n = 0 := by
    have hpos : 0 < 2 ^ F.scale := Nat.two_pow_pos _
    constructor
    · intro h
      rw [h, F.magnitude_zero] at hi
      have hsquare := (Nat.mul_eq_zero.1 hi.symm).resolve_right hpos.ne'
      exact mul_self_eq_zero.1 hsquare
    · rintro rfl
      by_contra h
      have hmagnitude := F.magnitude_pos (Nat.pos_of_ne_zero h)
      omega
  simp only [sqrt, Bool.false_eq_true, if_false]
  split
  case isTrue h =>
    rw [hzero] at h
    rw [h, Nat.mul_zero] at hi
    rw [h, ofNat_of_magnitude hi]
  case isFalse =>
    -- the quanta of the square, four times, are a square themselves
    have hsquare : 4 * (F.magnitude i * 2 ^ F.scale) =
        2 * n * 2 ^ F.scale * (2 * n * 2 ^ F.scale) := by
      rw [hi]
      ring
    rw [hsquare, floorSqrt_mul_self, if_pos rfl]
    refine ofQuanta_eq_ofNat Nat.two_pos ?_
    ring

/-- The order of whole numbers of single precision. -/
theorem ofNat_lt_ofNat_iff (hm : m ≤ 2 ^ 24) (hn : n ≤ 2 ^ 24) :
    ofNat Format.binary32 m < ofNat Format.binary32 n ↔ m < n := by
  obtain ⟨hmf, hmv⟩ := toRat_ofNat hm
  obtain ⟨hnf, hnv⟩ := toRat_ofNat hn
  rw [lt_iff_toRat_lt hmf hnf, hmv, hnv]
  exact Nat.cast_lt

end Binary

/-- **The length of a whole movement along the first axis.** -/
theorem Vec.length_ofNat {n : ℕ} (hn : n ≤ 2 ^ 24) :
    (⟨.ofNat _ n, 0⟩ : Vec).length = .ofNat _ n := by
  have hwhole := Format.whole32 hn
  have hzero : Format.binary32.Whole 0 := Format.whole32 (Nat.zero_le _)
  have hwide : Format.binary64.Whole n := Format.whole64 (hn.trans (by norm_num))
  have hwideZero : Format.binary64.Whole 0 := Format.whole64 (Nat.zero_le _)
  have hsquare : Format.binary64.Whole (n * n) := by
    refine Format.whole64 ((Nat.mul_le_mul hn hn).trans (by norm_num))
  have hfinite : (⟨.ofNat _ n, 0⟩ : Vec).isFinite = true :=
    Bool.and_eq_true_iff.2 ⟨(Binary.toRat_ofNat hn).1, (Binary.toRat_ofNat (Nat.zero_le _)).1⟩
  have hsquares : (⟨.ofNat _ n, 0⟩ : Vec).squares = .ofNat _ (n * n) := by
    change (Binary.ofNat Format.binary32 n).convert _ * (Binary.ofNat Format.binary32 n).convert _ +
      (Binary.ofNat Format.binary32 0).convert _ * (Binary.ofNat Format.binary32 0).convert _ = _
    rw [Binary.convert_ofNat _ hwhole, Binary.convert_ofNat _ hzero,
      Binary.ofNat_mul_ofNat hwide hwide, Binary.ofNat_mul_ofNat hwideZero hwideZero,
      Binary.ofNat_add_ofNat hsquare hwideZero, Nat.add_zero]
  rw [Vec.length_of_isFinite hfinite, hsquares, Binary.sqrt_ofNat_mul_self hsquare,
    Binary.convert_ofNat _ hwide]

end StripeBrush
