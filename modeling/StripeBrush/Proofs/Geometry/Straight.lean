/-
**Stripes of a straight drag.**

A drag along the first axis by whole numbers has movements whose lengths are exact.  What comes after
is not: the movement is rescaled to the offset by a rounded quotient, the turn by a quarter is
inexact, and the middle of the stripe may be far out.  But the stripe is drawn upwards from about one
offset below the axis to about one above, and no rounding on the way comes near to closing that gap.
So a stripe is drawn for every such movement.

The roundings are counted by a distance: a number is within so much of a rational one, and an
operation adds up the distances of its operands and what its own rounding changes.

Main definitions:

* `Binary.Within` — a number is finite, and not far from a rational number.

Main results:

* `Binary.Within.add`, `Binary.Within.sub`, `Binary.Within.mul` — the distance of a result;
* `Vec.length_pos_of_one_le` — a movement that rises by one or more has positive length;
* `Settings.step_of_whole`, `Vec.rotate_of_right`, `Settings.midpoint_of_whole` — the parts of a
  stripe;
* `Settings.exists_stripe_of_whole` — **every whole movement along the first axis gives a stripe**.
-/

import StripeBrush.Proofs.Binary.WholeNumbers
import StripeBrush.Proofs.Geometry.Rescaling

set_option relaxedAutoImplicit false
set_option autoImplicit false

namespace StripeBrush

namespace Binary

variable {x y : Binary32} {p q r δ ε η : ℚ}

/-! ### Distances -/

/-- The number is finite, and within `ε` of the rational number `q`. -/
structure Within (x : Binary32) (q ε : ℚ) : Prop where
  isFinite : x.isFinite = true
  error_le : |x.toRat - q| ≤ ε

/-- A bound for what one rounding changes in a rational number within `ε` of `q`. -/
def unitWithin (q ε : ℚ) : ℚ := (|q| + ε) / 2 ^ 24 + 1 / 2 ^ 150

theorem Rounds.within (h : x.Rounds r) (hr : |r - q| ≤ ε) (hsmall : |q| + ε ≤ 2 ^ 40)
    (hle : ε + unitWithin q ε ≤ η) : x.Within q η := by
  have habs : |r| ≤ |q| + ε := by
    have hdiff := abs_sub_abs_le_abs_sub r q
    linarith
  have hbound : |q| + ε < Format.binary32.overflow := by
    rw [Format.overflow32]
    exact lt_of_le_of_lt hsmall (by norm_num)
  obtain ⟨hfinite, herror⟩ := h.of_abs_le habs hbound
  rw [Format.slack32] at herror
  refine ⟨hfinite, ?_⟩
  calc |x.toRat - q| = |(r - q) + (x.toRat - r)| := by ring_nf
    _ ≤ |r - q| + |x.toRat - r| := abs_add_le _ _
    _ ≤ ε + unitWithin q ε := add_le_add hr herror
    _ ≤ η := hle

namespace Within

theorem add (hx : x.Within p δ) (hy : y.Within q ε) (hsmall : |p + q| + (δ + ε) ≤ 2 ^ 40)
    (hle : δ + ε + unitWithin (p + q) (δ + ε) ≤ η) : (x + y).Within (p + q) η := by
  refine (rounds_add (by decide) hx.isFinite hy.isFinite).within ?_ hsmall hle
  calc |x.toRat + y.toRat - (p + q)| = |(x.toRat - p) + (y.toRat - q)| := by ring_nf
    _ ≤ |x.toRat - p| + |y.toRat - q| := abs_add_le _ _
    _ ≤ δ + ε := add_le_add hx.error_le hy.error_le

protected theorem neg (hx : x.Within p δ) : (-x).Within (-p) δ := by
  refine ⟨(isFinite_neg x).trans hx.isFinite, ?_⟩
  rw [toRat_neg, neg_sub_neg, abs_sub_comm]
  exact hx.error_le

theorem sub (hx : x.Within p δ) (hy : y.Within q ε) (hsmall : |p + -q| + (δ + ε) ≤ 2 ^ 40)
    (hle : δ + ε + unitWithin (p + -q) (δ + ε) ≤ η) : (x - y).Within (p + -q) η :=
  hx.add hy.neg hsmall hle

theorem mul (hx : x.Within p δ) (hy : y.Within q ε)
    (hsmall : |p * q| + (|p| * ε + δ * (|q| + ε)) ≤ 2 ^ 40)
    (hle : |p| * ε + δ * (|q| + ε) + unitWithin (p * q) (|p| * ε + δ * (|q| + ε)) ≤ η) :
    (x * y).Within (p * q) η := by
  refine (rounds_mul (by decide) hx.isFinite hy.isFinite).within ?_ hsmall hle
  have hyle : |y.toRat| ≤ |q| + ε := by
    have hdiff := abs_sub_abs_le_abs_sub y.toRat q
    have hnear := hy.error_le
    linarith
  calc |x.toRat * y.toRat - p * q| = |p * (y.toRat - q) + (x.toRat - p) * y.toRat| := by ring_nf
    _ ≤ |p * (y.toRat - q)| + |(x.toRat - p) * y.toRat| := abs_add_le _ _
    _ = |p| * |y.toRat - q| + |x.toRat - p| * |y.toRat| := by rw [abs_mul, abs_mul]
    _ ≤ |p| * ε + δ * (|q| + ε) := by
        have hδ : 0 ≤ δ := (abs_nonneg _).trans hx.error_le
        exact add_le_add (mul_le_mul_of_nonneg_left hy.error_le (abs_nonneg p))
          (mul_le_mul hx.error_le hyle (abs_nonneg _) hδ)

end Within

theorem within_ofNat {n : ℕ} (hn : n ≤ 2 ^ 24) : (ofNat Format.binary32 n).Within n 0 := by
  obtain ⟨hfinite, hvalue⟩ := toRat_ofNat hn
  refine ⟨hfinite, ?_⟩
  rw [hvalue, sub_self, abs_zero]

theorem within_zero : (0 : Binary32).Within 0 0 := by
  have h := within_ofNat (Nat.zero_le _)
  rwa [Nat.cast_zero] at h

end Binary

namespace Vec

variable {v : Vec}

/-- A movement that rises or falls by one or more has positive length, if only an infinite one. -/
theorem length_pos_of_one_le (hv : v.isFinite = true) (h : 1 ≤ |v.y.toRat|) : 0 < v.length := by
  have hF : 0 < Format.binary32.infIndex := by decide
  obtain ⟨hx, hy⟩ := Bool.and_eq_true_iff.1 hv
  obtain hinf | ⟨s, i, hfinite, -⟩ := (Binary.nonneg_iff hF).1
    (nonneg_length (Binary.isNaN_of_isFinite hx) (Binary.isNaN_of_isFinite hy))
  · rw [hinf]
    decide +kernel
  · have hlength : v.length.isFinite = true := by
      rw [hfinite]
      rfl
    obtain ⟨hlo, -⟩ := abs_le.1 (length_error hv hlength)
    have hone : (1 : ℝ) ≤ |(v.y.toRat : ℝ)| := by exact_mod_cast h
    have hexact := hone.trans (abs_le_exactLength v).2
    have hpos : (0 : ℝ) < v.length.toRat := by
      norm_num at hlo
      linarith
    exact (Binary.zero_lt_iff_toRat hF hlength).2 (by exact_mod_cast hpos)

/-! ### Turns by a quarter -/

/-- A movement by about ten to the right, turned by an angle whose sine is one or minus one: what
counts is how far it rises or falls. -/
theorem rotate_of_right {angle : Binary32} {σ : ℚ} (hx : v.x.Within 10 (1 / 8))
    (hy : v.y.Within 0 (1 / 8)) (hsin : angle.sin.Within σ 0) (hcos : angle.cos.Within 0 1)
    (hσ : |σ| = 1) :
    (v.rotate angle).x.Within 0 12 ∧ (v.rotate angle).y.Within (-10 * σ) 1 := by
  have hxcos : (v.x * angle.cos).Within (10 * 0) 11 :=
    hx.mul hcos (by norm_num) (by norm_num [Binary.unitWithin])
  have hysin : (v.y * angle.sin).Within (0 * σ) (1 / 4) :=
    hy.mul hsin (by norm_num [hσ]) (by norm_num [Binary.unitWithin, hσ])
  have hxsin : (-v.x * angle.sin).Within (-10 * σ) (1 / 4) :=
    hx.neg.mul hsin (by norm_num [hσ, abs_mul]) (by norm_num [Binary.unitWithin, hσ, abs_mul])
  have hycos : (v.y * angle.cos).Within (0 * 0) (1 / 4) :=
    hy.mul hcos (by norm_num) (by norm_num [Binary.unitWithin])
  have hrun : (v.rotate angle).x.Within (10 * 0 + 0 * σ) 12 :=
    hxcos.add hysin (by norm_num) (by norm_num [Binary.unitWithin])
  have hrise : (v.rotate angle).y.Within (-10 * σ + 0 * 0) 1 :=
    hxsin.add hycos (by norm_num [hσ, abs_mul]) (by norm_num [Binary.unitWithin, hσ, abs_mul])
  rw [mul_zero, zero_mul, add_zero] at hrun
  rw [mul_zero, add_zero] at hrise
  exact ⟨hrun, hrise⟩

/-- The turns by a right angle: to the left it rises, and to the right it falls. -/
theorem rotateDegrees_of_right (hx : v.x.Within 10 (1 / 8)) (hy : v.y.Within 0 (1 / 8)) :
    ((v.rotateDegrees 90).x.Within 0 12 ∧ (v.rotateDegrees 90).y.Within (-10) 1) ∧
      (v.rotateDegrees (-90)).x.Within 0 12 ∧ (v.rotateDegrees (-90)).y.Within 10 1 := by
  have hone : (Binary.ofNat Format.binary32 1).Within 1 0 := by
    have h := Binary.within_ofNat (n := 1) (by norm_num)
    rwa [Nat.cast_one] at h
  have hsin : (Binary.toRadians 90).sin = .ofNat _ 1 := by decide +kernel
  have hcos : (Binary.toRadians 90).cos.Within 0 1 := by
    have hfinite : (Binary.toRadians 90).cos.isFinite = true := by decide +kernel
    have hlo : -.ofNat _ 1 ≤ (Binary.toRadians 90).cos := by decide +kernel
    have hhi : (Binary.toRadians 90).cos ≤ .ofNat _ 1 := by decide +kernel
    obtain ⟨hone, hvalue⟩ := Binary.toRat_ofNat (n := 1) (by norm_num)
    rw [Nat.cast_one] at hvalue
    rw [Binary.le_iff_toRat_le ((Binary.isFinite_neg _).trans hone) hfinite, Binary.toRat_neg,
      hvalue] at hlo
    rw [Binary.le_iff_toRat_le hfinite hone, hvalue] at hhi
    refine ⟨hfinite, ?_⟩
    rw [sub_zero]
    exact abs_le.2 ⟨hlo, hhi⟩
  have hright : (-Binary.toRadians 90).sin.Within (-1) 0 := by
    rw [Binary.sin_neg, hsin]
    exact hone.neg
  have hrightcos : (-Binary.toRadians 90).cos.Within 0 1 := by
    rw [Binary.cos_neg]
    exact hcos
  rw [← hsin] at hone
  have hleft := rotate_of_right hx hy hone hcos abs_one
  have hright := rotate_of_right hx hy hright hrightcos (by norm_num)
  rw [mul_one] at hleft
  rw [neg_mul_neg, mul_one, ← Settings.toRadians_neg_ninety] at hright
  exact ⟨hleft, hright⟩

end Vec

/-! ### Bars across a movement to the right -/

/-- A bar is proper whose ends lie well above and below the axis, and not so far out that their
coordinates are not finite. -/
theorem Segment.proper_of_apart {middle left right : Vec} (hmx : middle.x.Within 0 (2 ^ 26))
    (hmy : middle.y.Within 0 1) (hlx : left.x.Within 0 12) (hly : left.y.Within (-10) 1)
    (hrx : right.x.Within 0 12) (hry : right.y.Within 10 1) :
    Segment.Proper ⟨middle + right, middle + left⟩ := by
  have hstartx : (middle + right).x.Within (0 + 0) (2 ^ 27) :=
    hmx.add hrx (by norm_num) (by norm_num [Binary.unitWithin])
  have hstarty : (middle + right).y.Within (0 + 10) 3 :=
    hmy.add hry (by norm_num) (by norm_num [Binary.unitWithin])
  have hstopx : (middle + left).x.Within (0 + 0) (2 ^ 27) :=
    hmx.add hlx (by norm_num) (by norm_num [Binary.unitWithin])
  have hstopy : (middle + left).y.Within (0 + -10) 3 :=
    hmy.add hly (by norm_num) (by norm_num [Binary.unitWithin])
  -- the way from one end to the other
  have hwayx : (middle + right - (middle + left)).x.Within (0 + 0 + -(0 + 0)) (2 ^ 29) :=
    hstartx.sub hstopx (by norm_num) (by norm_num [Binary.unitWithin])
  have hwayy : (middle + right - (middle + left)).y.Within (0 + 10 + -(0 + -10)) 7 :=
    hstarty.sub hstopy (by norm_num) (by norm_num [Binary.unitWithin])
  refine ⟨Bool.and_eq_true_iff.2 ⟨hstartx.isFinite, hstarty.isFinite⟩,
    Bool.and_eq_true_iff.2 ⟨hstopx.isFinite, hstopy.isFinite⟩, ?_⟩
  refine Vec.length_pos_of_one_le (Bool.and_eq_true_iff.2 ⟨hwayx.isFinite, hwayy.isFinite⟩) ?_
  obtain ⟨hlo, -⟩ := abs_le.1 hwayy.error_le
  refine le_trans ?_ (le_abs_self _)
  linarith

namespace Settings

variable {s : Settings} {m p : ℕ}

/-- A whole movement along the first axis, rescaled to ten. -/
theorem step_of_whole (hoffset : s.offset = 10) (hfixed : s.mouseOffset = false) (hm : 1 ≤ m)
    (hmle : m ≤ 2 ^ 24) :
    ∃ step, s.step ⟨.ofNat _ m, 0⟩ = some step ∧ step.x.Within 10 (1 / 8) ∧
      step.y.Within 0 (1 / 8) := by
  have hm1 : (1 : ℚ) ≤ m := by exact_mod_cast hm
  have hm24 : (m : ℚ) ≤ 2 ^ 24 := by exact_mod_cast hmle
  obtain ⟨hmf, hmv⟩ := Binary.toRat_ofNat hmle
  obtain ⟨h10f, h10v⟩ := Binary.toRat_ofNat (n := 10) (by norm_num)
  rw [Nat.cast_ofNat] at h10v
  have hpos : (0 : Binary32) < .ofNat _ m := (Binary.ofNat_lt_ofNat_iff (Nat.zero_le _) hmle).2 hm
  have hlength := Vec.length_ofNat hmle
  -- the factor, and what the movement makes of it
  obtain ⟨hkf, hke⟩ := Binary.div_ofNat_error h10f hm hmle
  rw [h10v, abs_of_pos (by norm_num : (0 : ℚ) < 10)] at hke
  generalize hk : Binary.ofNat Format.binary32 10 / Binary.ofNat Format.binary32 m = k at hkf hke
  have hproduct : |(m : ℚ) * k.toRat - 10| ≤ 1 / 2 ^ 20 := by
    have hscaled : (m : ℚ) * k.toRat - 10 = m * (k.toRat - 10 / m) := by field_simp
    rw [hscaled, abs_mul, abs_of_pos (by linarith)]
    calc (m : ℚ) * |k.toRat - 10 / m| ≤ m * (10 / m / 2 ^ 24 + 1 / 2 ^ 150) := by gcongr
      _ = 10 / 2 ^ 24 + m / 2 ^ 150 := by field_simp
      _ ≤ 10 / 2 ^ 24 + 2 ^ 24 / 2 ^ 150 := by gcongr
      _ ≤ 1 / 2 ^ 20 := by norm_num
  have hround := Binary.rounds_mul (by decide) hmf hkf
  rw [hmv] at hround
  have hx : (Binary.ofNat Format.binary32 m * k).Within 10 (1 / 8) :=
    hround.within hproduct (by norm_num) (by norm_num [Binary.unitWithin])
  have hkle : k.Within 0 11 := by
    refine ⟨hkf, ?_⟩
    have hratio : 10 / (m : ℚ) ≤ 10 := div_le_self (by norm_num) hm1
    have hratio0 : 0 ≤ 10 / (m : ℚ) := by positivity
    rw [abs_le] at hke
    rw [sub_zero, abs_le]
    constructor <;> linarith
  have hy : (0 * k).Within (0 * 0) (1 / 8) :=
    Binary.within_zero.mul hkle (by norm_num) (by norm_num [Binary.unitWithin])
  rw [mul_zero] at hy
  refine ⟨⟨.ofNat _ m * k, 0 * k⟩, ?_, hx, hy⟩
  have hfinite : (⟨.ofNat _ m, 0⟩ : Vec).isFinite = true :=
    Bool.and_eq_true_iff.2 ⟨hmf, Binary.within_zero.isFinite⟩
  have hguard : ¬ ((⟨.ofNat _ m, 0⟩ : Vec).isFinite = false ∨
      (⟨.ofNat _ m, 0⟩ : Vec).length ≤ 0) := by
    rw [hlength, not_or]
    exact ⟨by simp [hfinite], fun hle => Binary.not_lt_of_le hle hpos⟩
  rw [step, if_neg hguard, hfixed, hoffset, if_neg Bool.false_ne_true, Vec.withLength_eq_some_iff,
    hlength]
  refine ⟨hmf, hpos, h10f, ?_⟩
  rw [← hk]
  rfl

/-- The middle of a stripe stays near the axis, and its first coordinate is moderate. -/
theorem midpoint_of_whole (hm : m ≤ 2 ^ 24) (hp : p ≤ 2 ^ 24) :
    let middle := Vec.midpointBehind ⟨.ofNat _ p, 0⟩ ⟨.ofNat _ m, 0⟩
    middle.x.Within 0 (2 ^ 26) ∧ middle.y.Within 0 1 := by
  intro middle
  have hhalf : ∀ n ≤ 2 ^ 24,
      (Binary.ofNat Format.binary32 n / Binary.ofNat Format.binary32 2).Within 0 (n + 1 / 2) := by
    intro n hn
    obtain ⟨hfinite, hvalue⟩ := Binary.toRat_ofNat hn
    obtain ⟨hhalf, herror⟩ := Binary.div_ofNat_error hfinite Nat.two_pos (by norm_num)
    have hn0 : (0 : ℚ) ≤ n := Nat.cast_nonneg n
    rw [hvalue, abs_of_nonneg hn0, Nat.cast_ofNat, abs_le] at herror
    refine ⟨hhalf, ?_⟩
    rw [sub_zero, abs_le]
    constructor <;> linarith
  have hm24 : (m : ℚ) ≤ 2 ^ 24 := by exact_mod_cast hm
  have hp24 : (p : ℚ) ≤ 2 ^ 24 := by exact_mod_cast hp
  have hpoint : (Binary.ofNat Format.binary32 p).Within 0 (2 ^ 24) := by
    obtain ⟨hfinite, hvalue⟩ := Binary.toRat_ofNat hp
    refine ⟨hfinite, ?_⟩
    rwa [hvalue, sub_zero, abs_of_nonneg (Nat.cast_nonneg p)]
  have hx : middle.x.Within (0 + -0) (2 ^ 26) := by
    have hwide : (Binary.ofNat Format.binary32 m / Binary.ofNat Format.binary32 2).Within 0
        (2 ^ 25) := ⟨(hhalf m hm).isFinite, (hhalf m hm).error_le.trans (by linarith)⟩
    exact hpoint.sub hwide (by norm_num) (by norm_num [Binary.unitWithin])
  have hy : middle.y.Within (0 + -0) 1 := by
    have hnear := hhalf 0 (Nat.zero_le _)
    rw [Nat.cast_zero] at hnear
    exact Binary.within_zero.sub hnear (by norm_num) (by norm_num [Binary.unitWithin])
  rw [neg_zero, add_zero] at hx hy
  exact ⟨hx, hy⟩

/-- **Every whole movement along the first axis gives a stripe**, with the offset fixed to ten. -/
theorem exists_stripe_of_whole (hoffset : s.offset = 10) (hfixed : s.mouseOffset = false)
    (hm : 1 ≤ m) (hmle : m ≤ 2 ^ 24) (hp : p ≤ 2 ^ 24) :
    ∃ segment, s.stripe ⟨⟨.ofNat _ p, 0⟩, ⟨.ofNat _ m, 0⟩⟩ = some segment := by
  obtain ⟨step, hstep, hx, hy⟩ := step_of_whole hoffset hfixed hm hmle
  obtain ⟨hmx, hmy⟩ := midpoint_of_whole hmle hp
  obtain ⟨⟨hlx, hly⟩, hrx, hry⟩ := Vec.rotateDegrees_of_right hx hy
  have hproper : (bar ⟨.ofNat _ p, 0⟩ ⟨.ofNat _ m, 0⟩ step).Proper :=
    Segment.proper_of_apart hmx hmy hlx hly hrx hry
  have hpoint : (⟨.ofNat _ p, 0⟩ : Vec).isFinite = true :=
    Bool.and_eq_true_iff.2 ⟨(Binary.toRat_ofNat hp).1, Binary.within_zero.isFinite⟩
  refine ⟨bar ⟨.ofNat _ p, 0⟩ ⟨.ofNat _ m, 0⟩ step, ?_⟩
  rw [stripe_eq, if_pos hpoint, hstep, Option.bind_some, Segment.proper?, if_pos hproper]

end Settings

end StripeBrush
