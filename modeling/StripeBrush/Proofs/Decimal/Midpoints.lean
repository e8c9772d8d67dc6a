/-
**Decimals next to midpoints.**

A decimal that is read in double precision first, and narrowed afterwards, is off by so little that
it can only come back as another number if it lies next to the midpoint of two neighbours.  For a
power of ten `k` and a binade `e`, decimals of eight digits and midpoints are multiples `d * a` and
`h * b` of two fixed numbers, and one next to the other says that `h / d` approximates the fraction
`a / b` far better than fractions of this size can, a few of them apart.

The Euclidean algorithm on `a` and `b` finds them: two of its neighbouring steps make a basis of all
pairs `(d, h)`, in which a pair with a small difference `d * a - h * b` has small coordinates.  So
the pairs are enumerated.  What the enumeration finds next to a midpoint is read back, or it is not
what is printed for its number, because the decimal beside it is nearer.

Main definitions:

* `Format.known` — a decimal that reads back, or is not what is printed;
* `TieWindow` — a power of ten and a binade, with `TieWindow.Near`, a decimal next to a midpoint;
* `TieWindow.basis` — two neighbouring steps of the Euclidean algorithm;
* `TieWindow.settled` — the enumeration.

Main results:

* `TieWindow.Near.exact_or_known` — **next to a midpoint is the midpoint itself, or a decimal that is
  known**.
-/

import StripeBrush.Decimal
import StripeBrush.Json.Notation
import StripeBrush.Proofs.Decimal.Digits
import Mathlib.Data.Int.GCD
import Mathlib.Tactic.LinearCombination
import Mathlib.Tactic.Linarith

set_option relaxedAutoImplicit false
set_option autoImplicit false

namespace StripeBrush

/-- The double that printed digits are read as. -/
def Scientific.readDouble (s : Scientific) : Binary64 :=
  Json.timesTenTo (Binary.ofNat Format.binary64 s.significand) s.power

namespace Format

/-- A double narrows to the number at an index. -/
def narrowsTo (i : ℕ) (x : Binary64) : Bool := x.convert binary32 = Binary.ofIndex binary32 false i

/-- The digits of `d * 10 ^ power`, read in double precision and narrowed, give the number that they
round to. -/
def readsBack (power : ℤ) (d : ℕ) : Bool :=
  narrowsTo (binary32.decimalIndex d power) (Scientific.ofGrid d power).readDouble

/-- How far `d * 10 ^ power` is from the number at an index, in quanta and steps of the grid. -/
def miss (power : ℤ) (i d : ℕ) : ℕ :=
  ((d * (10 ^ power.toNat * 2 ^ 149) : ℤ) - binary32.magnitude i * 10 ^ (-power).toNat).natAbs

/-- As many digits, on one side or the other, round to the same number and are nearer. -/
def surpassed (power : ℤ) (d : ℕ) : Bool :=
  let i := binary32.decimalIndex d power
  [d - 1, d + 1].any fun d' =>
    binary32.decimalIndex d' power == i &&
      (Scientific.ofGrid d' power).digits.length == (Scientific.ofGrid d power).digits.length &&
      miss power i d' < miss power i d

/-- The digits of `d * 10 ^ power` read back, or they are not those that are printed. -/
def known (power : ℤ) (d : ℕ) : Bool := readsBack power d || surpassed power d

end Format

/-- Decimals `d * 10 ^ power` and the midpoints `h * 2 ^ binade`, in half quanta. -/
structure TieWindow where
  power : ℤ
  binade : ℕ

namespace TieWindow

/-- A step of the decimals.  Both steps are multiplied by what makes them whole. -/
def decimalStep (w : TieWindow) : ℕ := 10 ^ w.power.toNat * 2 ^ 150

/-- A step of the midpoints. -/
def midpointStep (w : TieWindow) : ℕ := 10 ^ (-w.power).toNat * 2 ^ w.binade

/-- By how much a decimal is above a midpoint. -/
def excess (w : TieWindow) (d h : ℤ) : ℤ := d * w.decimalStep - h * w.midpointStep

/-- The decimal with digits `d` is next to the midpoint above the significand `m`. -/
structure Near (w : TieWindow) (d m : ℕ) : Prop where
  eight : 10 ^ 7 ≤ d ∧ d < 10 ^ 8
  full : w.binade = 0 ∨ 2 ^ 23 ≤ m
  short : m < 2 ^ 24
  close : 2 ^ 51 * |w.excess d (2 * m + 1)| ≤ d * w.decimalStep

/-! ### The enumeration -/

/-- The Euclidean algorithm on `a` and `b`, up to the first denominator above `2 ^ 26`: this step
and the one before, each with its denominator and its numerator. -/
def euclid : ℕ → ℕ → ℕ → ℕ × ℕ → ℕ × ℕ → (ℕ × ℕ) × (ℕ × ℕ)
  | 0, _, _, u, v => (u, v)
  | fuel + 1, a, b, u, v =>
    if 2 ^ 26 < v.1 ∨ b = 0 then (u, v)
    else euclid fuel b (a % b) v (a / b * v.1 + u.1, a / b * v.2 + u.2)

/-- Two neighbouring steps of the Euclidean algorithm. -/
def basis (w : TieWindow) : (ℕ × ℕ) × (ℕ × ℕ) :=
  euclid 200 w.decimalStep w.midpointStep (1, 0) (0, 1)

/-- No decimal of eight digits is as large as the midpoints of the binade, or none as small. -/
def apart (w : TieWindow) : Bool :=
  2 ^ 25 * w.midpointStep < 10 ^ 7 * w.decimalStep ||
    (w.binade != 0 && 2 * 10 ^ 8 * w.decimalStep ≤ 2 ^ 24 * w.midpointStep)

/-- The two steps have so much in common that what is next to a midpoint is the midpoint, and the
powers of ten are exact. -/
def commensurable (w : TieWindow) : Bool :=
  w.power.natAbs ≤ 14 && w.midpointStep < 2 ^ 26 * Nat.gcd w.decimalStep w.midpointStep

/-- The largest coordinate of a small difference along a basis vector, where `v` is the other
one. -/
def reach (w : TieWindow) (v : ℕ × ℕ) : ℕ :=
  (v.1 * w.midpointStep + 10 ^ 8 * 2 ^ 26 * (w.excess v.1 v.2).natAbs) / (2 ^ 26 * w.midpointStep)

/-- A pair that is enumerated is not next to a midpoint, or it is known. -/
def pairSettled (w : TieWindow) (d h : ℕ) : Bool :=
  d < 10 ^ 7 || 10 ^ 8 ≤ d || h % 2 == 0 || 2 ^ 25 ≤ h || (w.binade != 0 && h < 2 ^ 24) ||
    d * w.decimalStep < 2 ^ 51 * (w.excess d h).natAbs || Format.known w.power d

/-- All pairs with small coordinates are settled. -/
def enumerated (w : TieWindow) : Bool :=
  let (u, v) := w.basis
  ((u.1 * v.2 : ℤ) - v.1 * u.2).natAbs == 1 &&
    (List.range (2 * w.reach v + 1)).all fun i =>
      (List.range (2 * w.reach u + 1)).all fun j =>
        let s : ℤ := i - w.reach v
        let t : ℤ := j - w.reach u
        w.pairSettled (s * u.1 + t * v.1).toNat (s * u.2 + t * v.2).toNat

/-- Nothing next to a midpoint is left open. -/
def settled (w : TieWindow) : Bool := w.apart || w.commensurable || w.enumerated

/-! ### What is next to a midpoint -/

variable {w : TieWindow} {d m : ℕ}

theorem midpointStep_pos (w : TieWindow) : (0 : ℤ) < w.midpointStep := by
  have : 0 < w.midpointStep := Nat.mul_pos (Nat.pow_pos (by omega)) (Nat.two_pow_pos _)
  exact_mod_cast this

theorem decimalStep_pos (w : TieWindow) : (0 : ℤ) < w.decimalStep := by
  have : 0 < w.decimalStep := Nat.mul_pos (Nat.pow_pos (by omega)) (Nat.two_pow_pos _)
  exact_mod_cast this

theorem Near.decimal_le (h : w.Near d m) :
    (d * w.decimalStep : ℤ) ≤ 2 ^ 25 * w.midpointStep := by
  have hclose := h.close
  have habs := le_abs_self (w.excess d (2 * m + 1))
  have hm : (2 * m + 1 : ℤ) + 1 ≤ 2 ^ 25 := by
    have := h.short
    omega
  have hend := mul_le_mul_of_nonneg_right hm w.midpointStep_pos.le
  have hexcess : w.excess d (2 * m + 1) = d * w.decimalStep - (2 * m + 1) * w.midpointStep := rfl
  have hpos := w.midpointStep_pos
  -- the midpoint ends a step short of the binade, which the difference is too small to make up for
  generalize |w.excess d (2 * m + 1)| = gap at *
  linarith

/-- The difference is tiny, compared with a step of the midpoints. -/
theorem Near.excess_le (h : w.Near d m) :
    2 ^ 26 * |w.excess d (2 * m + 1)| ≤ w.midpointStep := by
  have hle := h.decimal_le
  have hclose := h.close
  linarith

theorem Near.not_apart (h : w.Near d m) : w.apart = false := by
  have hle := h.decimal_le
  obtain ⟨hlo, hhi⟩ := h.eight
  have hlo' : (10 ^ 7 * w.decimalStep : ℤ) ≤ d * w.decimalStep :=
    mul_le_mul_of_nonneg_right (by exact_mod_cast hlo) w.decimalStep_pos.le
  have hhi' : (d * w.decimalStep : ℤ) < 10 ^ 8 * w.decimalStep :=
    mul_lt_mul_of_pos_right (by exact_mod_cast hhi) w.decimalStep_pos
  simp only [apart, Bool.or_eq_false_iff, Bool.and_eq_false_iff, decide_eq_false_iff_not, not_lt,
    not_le, bne_eq_false_iff_eq]
  refine ⟨by exact_mod_cast hlo'.trans hle, h.full.imp_right fun hfull => ?_⟩
  -- the midpoint is about as large as the decimal, which has only eight digits
  have hfull' : (2 ^ 23 * w.midpointStep : ℤ) ≤ m * w.midpointStep :=
    mul_le_mul_of_nonneg_right (by exact_mod_cast hfull) w.midpointStep_pos.le
  have hclose := h.close
  have hexcess : w.excess d (2 * m + 1) = d * w.decimalStep - (2 * m + 1) * w.midpointStep := rfl
  have habs := neg_abs_le (w.excess d (2 * m + 1))
  have hpos := w.midpointStep_pos
  have : (2 ^ 24 * w.midpointStep : ℤ) < 2 * 10 ^ 8 * w.decimalStep := by
    generalize |w.excess d (2 * m + 1)| = gap at *
    linarith
  exact_mod_cast this

/-- Where the steps have enough in common, the difference is a multiple of something larger. -/
theorem Near.exact (h : w.Near d m) (hw : w.commensurable = true) :
    w.power.natAbs ≤ 14 ∧ w.excess d (2 * m + 1) = 0 := by
  simp only [commensurable, Bool.and_eq_true, decide_eq_true_eq] at hw
  obtain ⟨hpower, hgcd⟩ := hw
  refine ⟨hpower, ?_⟩
  have hdvd : (Nat.gcd w.decimalStep w.midpointStep : ℤ) ∣ w.excess d (2 * m + 1) :=
    dvd_sub (dvd_mul_of_dvd_right (by exact_mod_cast Nat.gcd_dvd_left _ _) _)
      (dvd_mul_of_dvd_right (by exact_mod_cast Nat.gcd_dvd_right _ _) _)
  refine Int.eq_zero_of_abs_lt_dvd hdvd ?_
  have hsmall := h.excess_le
  have hgcd' : (w.midpointStep : ℤ) < 2 ^ 26 * Nat.gcd w.decimalStep w.midpointStep := by
    exact_mod_cast hgcd
  linarith

/-! ### The enumeration is complete -/

/-- The coordinates of a pair in a basis of all pairs. -/
theorem exists_coordinates {q₁ p₁ q₂ p₂ : ℤ} (hdet : (q₁ * p₂ - q₂ * p₁).natAbs = 1) (d h : ℤ) :
    ∃ s t : ℤ, s * q₁ + t * q₂ = d ∧ s * p₁ + t * p₂ = h ∧
      |s| = |d * p₂ - h * q₂| ∧ |t| = |d * p₁ - h * q₁| := by
  -- Cramer's rule, where the determinant is a sign
  rcases Int.natAbs_eq_iff.1 hdet with hone | hone
  · refine ⟨d * p₂ - h * q₂, -(d * p₁ - h * q₁), ?_, ?_, rfl, abs_neg _⟩
    · linear_combination d * hone
    · linear_combination h * hone
  · refine ⟨-(d * p₂ - h * q₂), d * p₁ - h * q₁, ?_, ?_, abs_neg _, rfl⟩
    · linear_combination -d * hone
    · linear_combination -h * hone

theorem Near.coordinate_le (h : w.Near d m) (v : ℕ × ℕ) :
    |(d * v.2 - (2 * m + 1) * v.1 : ℤ)| ≤ w.reach v := by
  have hb := w.midpointStep_pos
  have hsmall := h.excess_le
  have hd : (d : ℤ) ≤ 10 ^ 8 := by exact_mod_cast h.eight.2.le
  have hq : (0 : ℤ) ≤ v.1 := Int.natCast_nonneg _
  -- the difference of the pair and that of the basis vector, combined so that the decimals cancel
  have hscaled : (d * v.2 - (2 * m + 1) * v.1 : ℤ) * w.midpointStep =
      v.1 * w.excess d (2 * m + 1) - d * w.excess v.1 v.2 := by
    simp only [excess]
    ring
  have hbound : |(d * v.2 - (2 * m + 1) * v.1 : ℤ)| * w.midpointStep ≤
      v.1 * |w.excess d (2 * m + 1)| + 10 ^ 8 * |w.excess v.1 v.2| := by
    calc |(d * v.2 - (2 * m + 1) * v.1 : ℤ)| * w.midpointStep
        = |v.1 * w.excess d (2 * m + 1) - d * w.excess v.1 v.2| := by
          rw [← hscaled, abs_mul, abs_of_pos hb]
      _ ≤ |v.1 * w.excess d (2 * m + 1)| + |d * w.excess v.1 v.2| := abs_sub _ _
      _ = v.1 * |w.excess d (2 * m + 1)| + d * |w.excess v.1 v.2| := by
          rw [abs_mul, abs_mul, abs_of_nonneg hq, abs_of_nonneg (Int.natCast_nonneg d)]
      _ ≤ v.1 * |w.excess d (2 * m + 1)| + 10 ^ 8 * |w.excess v.1 v.2| := by gcongr
  have hreach : |(d * v.2 - (2 * m + 1) * v.1 : ℤ)| * (2 ^ 26 * w.midpointStep) ≤
      v.1 * w.midpointStep + 10 ^ 8 * 2 ^ 26 * |w.excess v.1 v.2| := by
    have := mul_le_mul_of_nonneg_left hsmall hq
    linarith
  rw [Int.abs_eq_natAbs, Int.abs_eq_natAbs] at hreach
  rw [Int.abs_eq_natAbs, reach, Nat.cast_le, Nat.le_div_iff_mul_le (by have := hb; omega)]
  exact_mod_cast hreach

theorem Near.known (h : w.Near d m) (hw : w.pairSettled d (2 * m + 1) = true) :
    Format.known w.power d = true := by
  have hshort := h.short
  have hfull := h.full
  have hclose := h.close
  rw [Int.abs_eq_natAbs] at hclose
  simp only [pairSettled, Bool.or_eq_true, Bool.and_eq_true, decide_eq_true_eq, beq_iff_eq,
    bne_iff_ne] at hw
  rcases hw with (((((hw | hw) | hw) | hw) | ⟨hw, hw'⟩) | hw) | hw
  · exact absurd h.eight.1 (Nat.not_le.2 hw)
  · exact absurd h.eight.2 (Nat.not_lt.2 hw)
  · omega
  · omega
  · omega
  · have : (d * w.decimalStep : ℤ) < 2 ^ 51 * (w.excess d (2 * m + 1)).natAbs := by
      exact_mod_cast hw
    omega
  · exact hw

theorem Near.pairSettled (h : w.Near d m) (hw : w.enumerated = true) :
    w.pairSettled d (2 * m + 1) = true := by
  have hcoord := h.coordinate_le
  simp only [enumerated, Bool.and_eq_true, beq_iff_eq, List.all_eq_true, List.mem_range] at hw
  obtain ⟨hdet, hall⟩ := hw
  generalize w.basis.1 = u at hdet hall
  generalize w.basis.2 = v at hdet hall
  obtain ⟨s, t, hd, hh, hs, ht⟩ := exists_coordinates hdet d (2 * m + 1)
  have hs' := hs.trans_le (hcoord v)
  have ht' := ht.trans_le (hcoord u)
  rw [abs_le] at hs' ht'
  have := hall (s + w.reach v).toNat (by omega) (t + w.reach u).toNat (by omega)
  rw [Int.toNat_of_nonneg (by omega), Int.toNat_of_nonneg (by omega), Int.add_sub_cancel,
    Int.add_sub_cancel, hd, hh] at this
  exact_mod_cast this

/-! ### All windows -/

/-- **Every window in which single precision numbers lie is settled.** -/
theorem settled_of_range :
    ((List.range 87).all fun k => (List.range 254).all fun e =>
      settled ⟨(k : ℤ) - 54, e⟩) = true := by
  -- most windows are apart, a few hundred are enumerated, and a few dozen pairs are read back
  decide +kernel

/-- **Next to a midpoint is the midpoint itself, or a decimal that is known.** -/
theorem Near.exact_or_known (h : w.Near d m) (hlo : -54 ≤ w.power) (hhi : w.power ≤ 32)
    (hbinade : w.binade < 254) :
    (w.power.natAbs ≤ 14 ∧ w.excess d (2 * m + 1) = 0) ∨ Format.known w.power d = true := by
  have hall := settled_of_range
  simp only [List.all_eq_true, List.mem_range] at hall
  have hw := hall (w.power + 54).toNat (by omega) w.binade hbinade
  rw [Int.toNat_of_nonneg (by omega), Int.add_sub_cancel] at hw
  simp only [settled, Bool.or_eq_true] at hw
  rcases hw with (hw | hw) | hw
  · exact absurd hw (by simp [h.not_apart])
  · exact Or.inl (h.exact hw)
  · exact Or.inr (h.known (h.pairSettled hw))

end TieWindow

end StripeBrush
