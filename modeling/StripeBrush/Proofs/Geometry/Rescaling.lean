/-
**Rescaling a movement.**

A movement is rescaled by one factor, the quotient of the length that it is to have by the length that
it has.  Where the two lengths are the same the factor is one and nothing is rounded: a stripe whose
offset is fixed to the length of the movement is the one whose offset follows it, bit for bit.  A
factor that is finite keeps the signs of the coordinates, and since the coordinates are not longer
than the movement, the result is about as large as it is meant to be.  But the factor need not be
finite.  The length of a movement can be so small that the quotient by it is beyond the end of the
format, though the product would not be, and then the movement is rescaled to infinity.

Main results:

* `Vec.withLength_self` — a movement rescaled to its own length is the movement itself;
* `Settings.stripe_of_own_length` — **the two kinds of offset agree**, bit for bit;
* `Settings.step_isFinite_iff` — **when a rescaled movement is finite**, and what follows from it;
* `Settings.step_of_least` — the least movement is rescaled to infinity.
-/

import StripeBrush.Proofs.Binary.Monotone
import StripeBrush.Proofs.Geometry.Length
import StripeBrush.Proofs.Geometry.Symmetry

set_option relaxedAutoImplicit false
set_option autoImplicit false

namespace StripeBrush

namespace Binary

/-- The least positive number of single precision. -/
theorem least_le_toRat {x : Binary32} (hx : x.isFinite = true) (hpos : 0 < x) :
    1 / 2 ^ 149 ≤ x.toRat := by
  obtain rfl | ⟨i, hi, rfl⟩ := pos_cases (by decide) hpos
  · simp [isFinite] at hx
  · have hmono : Format.binary32.value 1 ≤ Format.binary32.value i :=
      Format.binary32.value_strictMono.monotone hi
    have hone : Format.binary32.magnitude 1 = 1 := Format.binary32.magnitude_of_lt (by decide)
    rw [Format.value, hone, Nat.cast_one] at hmono
    exact hmono

/-- A coordinate times the rounded quotient of the lengths: what is lost in the quotient is not much,
and the coordinate is not much longer than the length. -/
theorem isFinite_mul_quotient {x k : Binary32} {l c : ℚ} (hx : x.isFinite = true)
    (hk : k.isFinite = true) (hround : |k.toRat - l / c| ≤ l / c / 2 ^ 24 + 1 / 2 ^ 150)
    (hxc : |x.toRat| ≤ 4 * c) (hc : 0 < c) (hcmax : c ≤ 2 ^ 128) (hl : 0 ≤ l) (hlmax : l ≤ 500) :
    (x * k).isFinite = true := by
  have hkle : |k.toRat| ≤ l / c * (1 + 1 / 2 ^ 24) + 1 / 2 ^ 150 := by
    have hratio : 0 ≤ l / c := by positivity
    calc |k.toRat| = |l / c + (k.toRat - l / c)| := by rw [add_sub_cancel]
      _ ≤ |l / c| + |k.toRat - l / c| := abs_add_le _ _
      _ ≤ l / c + (l / c / 2 ^ 24 + 1 / 2 ^ 150) := by
          rw [abs_of_nonneg hratio]
          exact add_le_add le_rfl hround
      _ = l / c * (1 + 1 / 2 ^ 24) + 1 / 2 ^ 150 := by ring
  refine (nearest_mul hx hk).isFinite_iff.2 ?_
  calc |x.toRat * k.toRat| = |x.toRat| * |k.toRat| := abs_mul _ _
    _ ≤ 4 * c * (l / c * (1 + 1 / 2 ^ 24) + 1 / 2 ^ 150) := by gcongr
    _ = 4 * l * (1 + 1 / 2 ^ 24) + 4 * c / 2 ^ 150 := by field_simp
    _ ≤ 4 * 500 * (1 + 1 / 2 ^ 24) + 4 * 2 ^ 128 / 2 ^ 150 := by gcongr
    _ < 2 ^ 128 - 2 ^ 103 := by norm_num

end Binary

namespace Vec

variable {v w : Vec} {length angle : Binary32}

/-! ### Finite vectors -/

theorem isFinite_of_add (h : (v + w).isFinite = true) :
    v.isFinite = true ∧ w.isFinite = true := by
  obtain ⟨hx, hy⟩ := Bool.and_eq_true_iff.1 h
  obtain ⟨hvx, hwx⟩ := Binary.isFinite_of_add hx
  obtain ⟨hvy, hwy⟩ := Binary.isFinite_of_add hy
  exact ⟨Bool.and_eq_true_iff.2 ⟨hvx, hvy⟩, Bool.and_eq_true_iff.2 ⟨hwx, hwy⟩⟩

theorem isFinite_of_rotate (h : (v.rotate angle).isFinite = true) : v.isFinite = true := by
  obtain ⟨hcos, hsin⟩ := Binary.isFinite_of_add (Bool.and_eq_true_iff.1 h).1
  exact Bool.and_eq_true_iff.2 ⟨(Binary.isFinite_of_mul hcos).1, (Binary.isFinite_of_mul hsin).1⟩

theorem length_pos (hv : v.isFinite = true) (hne : v.length.numEq 0 = false) : 0 < v.length := by
  obtain ⟨hx, hy⟩ := Bool.and_eq_true_iff.1 hv
  have hnonneg := nonneg_length (Binary.isNaN_of_isFinite hx) (Binary.isNaN_of_isFinite hy)
  rw [← Binary.not_le_iff_lt (Binary.isNaN_of_le hnonneg).2 rfl]
  intro hle
  rw [Binary.numEq_of_le_of_le hle hnonneg] at hne
  cases hne

/-! ### Rescaling -/

theorem withLength_eq_some_iff :
    v.withLength length = some w ↔ v.length.isFinite = true ∧ 0 < v.length ∧
      length.isFinite = true ∧ v * (length / v.length) = w := by
  unfold withLength
  by_cases hfinite : v.length.isFinite = true
  · have hpos : ¬ v.length ≤ 0 ↔ 0 < v.length :=
      Binary.not_le_iff_lt (Binary.isNaN_of_isFinite hfinite) rfl
    simp [hfinite, ← hpos, and_assoc]
  · simp [hfinite]

/-- **A vector rescaled to its own length is the vector itself**, with the signs of its zeros. -/
theorem withLength_self (hv : v.isFinite = true) (hfinite : v.length.isFinite = true)
    (hpos : 0 < v.length) : v.withLength v.length = some v := by
  obtain ⟨hx, hy⟩ := Bool.and_eq_true_iff.1 hv
  refine withLength_eq_some_iff.2 ⟨hfinite, hpos, hfinite, ?_⟩
  rw [Binary.quotient_self (by decide) hpos hfinite]
  change (⟨v.x * 1, v.y * 1⟩ : Vec) = v
  rw [Binary.product_one (by decide +kernel) hx, Binary.product_one (by decide +kernel) hy]

theorem keepsSign_withLength (h : v.withLength length = some w) (hlo : 0 ≤ length)
    (hw : w.isFinite = true) : w.x.KeepsSign v.x ∧ w.y.KeepsSign v.y := by
  have hF : 0 < Format.binary32.infIndex := by decide
  obtain ⟨hfinite, hpos, hlength, rfl⟩ := withLength_eq_some_iff.1 h
  have hfactor := Binary.nonneg_quotient hF hlength hfinite hpos hlo
  obtain ⟨hwx, hwy⟩ := Bool.and_eq_true_iff.1 hw
  exact ⟨Binary.keepsSign_mul hF hwx hfactor, Binary.keepsSign_mul hF hwy hfactor⟩

theorem abs_le_length (hv : v.isFinite = true) (hfinite : v.length.isFinite = true)
    (hpos : 0 < v.length) :
    |v.x.toRat| ≤ 4 * v.length.toRat ∧ |v.y.toRat| ≤ 4 * v.length.toRat := by
  have hleast := (Rat.cast_le (K := ℝ)).2 (Binary.least_le_toRat hfinite hpos)
  push_cast at hleast
  obtain ⟨hlo, -⟩ := abs_le.1 (length_error hv hfinite)
  obtain ⟨hx, hy⟩ := abs_le_exactLength v
  have hexact : v.exactLength ≤ 4 * (v.length.toRat : ℝ) := by linarith
  constructor
  · exact_mod_cast hx.trans hexact
  · exact_mod_cast hy.trans hexact

/-- A vector is rescaled to a moderate length by a finite factor, or to infinity. -/
theorem isFinite_mul_quotient_iff (hv : v.isFinite = true) (hfinite : v.length.isFinite = true)
    (hpos : 0 < v.length) (hlength : length.isFinite = true) (hlo : 0 ≤ length)
    (hhi : length ≤ 500) :
    (v * (length / v.length)).isFinite = true ↔
      length.toRat < (2 ^ 128 - 2 ^ 103) * v.length.toRat := by
  have hF : 0 < Format.binary32.infIndex := by decide
  obtain ⟨hx, hy⟩ := Bool.and_eq_true_iff.1 hv
  obtain ⟨hxle, hyle⟩ := abs_le_length hv hfinite hpos
  have hc := (Binary.zero_lt_iff_toRat hF hfinite).1 hpos
  have hcmax : v.length.toRat ≤ 2 ^ 128 :=
    (le_abs_self _).trans ((Binary.abs_toRat_le_max32 hfinite).trans (by norm_num))
  have hl := (Binary.zero_le_iff_toRat hF hlength).1 hlo
  have hlmax : length.toRat ≤ 500 := by
    obtain ⟨h500, hvalue⟩ := Binary.toRat_ofNat (n := 500) (by decide)
    exact ((Binary.le_iff_toRat_le hlength h500).1 hhi).trans_eq (by rw [hvalue]; norm_num)
  have hnearest := Binary.nearest_div hlength hfinite hc.ne'
  have habs : |length.toRat / v.length.toRat| = length.toRat / v.length.toRat :=
    abs_of_nonneg (div_nonneg hl hc.le)
  have hfactor : (length / v.length).isFinite = true ↔
      length.toRat < (2 ^ 128 - 2 ^ 103) * v.length.toRat := by
    rw [hnearest.isFinite_iff, habs, div_lt_iff₀ hc]
  rw [← hfactor]
  constructor
  · intro h
    exact (Binary.isFinite_of_mul (Bool.and_eq_true_iff.1 h).1).2
  · intro h
    have hround := (hnearest.rounds hF).error_le h
    rw [habs, Format.slack32] at hround
    exact Bool.and_eq_true_iff.2
      ⟨Binary.isFinite_mul_quotient hx h hround hxle hc hcmax hl hlmax,
        Binary.isFinite_mul_quotient hy h hround hyle hc hcmax hl hlmax⟩

end Vec

/-! ### Steps and stripes -/

namespace Settings

theorem step_of_own_length (s : Settings) {delta : Vec} (h : delta.length.isFinite = true) :
    ({ s with mouseOffset := false, offset := delta.length } : Settings).step delta =
      ({ s with mouseOffset := true } : Settings).step delta := by
  unfold step
  split
  case isTrue => rfl
  case isFalse hguard =>
    obtain ⟨hdelta, hlength⟩ := not_or.1 hguard
    have hpos := (Binary.not_le_iff_lt (Binary.isNaN_of_isFinite h) rfl).1 hlength
    exact delta.withLength_self (Bool.eq_true_of_not_eq_false hdelta) h hpos

/-- **The two kinds of offset agree**, for a movement of finite length: with the offset fixed to that
length, a sample gives the stripe that it gives with an offset that follows the movement, bit for bit,
and none where it gives none. -/
theorem stripe_of_own_length (s : Settings) (sample : Sample)
    (h : sample.delta.length.isFinite = true) :
    ({ s with mouseOffset := false, offset := sample.delta.length } : Settings).stripe sample =
      ({ s with mouseOffset := true } : Settings).stripe sample := by
  rw [stripe_eq, stripe_eq, s.step_of_own_length h]

/-- A movement of one quantum to the left, with a negative zero. -/
theorem stripe_of_own_length_of_least :
    let delta : Vec := ⟨.ofBits _ 0x80000001, .ofBits _ 0x80000000⟩
    delta.length.isFinite = true ∧
      (({ mouseOffset := true } : Settings).stripe ⟨⟨0, 0⟩, delta⟩).isSome = true ∧
      ({ mouseOffset := false, offset := delta.length } : Settings).stripe ⟨⟨0, 0⟩, delta⟩ =
        ({ mouseOffset := true } : Settings).stripe ⟨⟨0, 0⟩, delta⟩ := by
  intro delta
  have hfinite : delta.length.isFinite = true := by decide +kernel
  have hstripe : (({ mouseOffset := true } : Settings).stripe ⟨⟨0, 0⟩, delta⟩).isSome = true := by
    decide +kernel
  exact ⟨hfinite, hstripe, stripe_of_own_length {} ⟨⟨0, 0⟩, delta⟩ hfinite⟩

theorem stripe_eq_none_of_step {s : Settings} {sample : Sample} {step : Vec}
    (hstep : s.step sample.delta = some step) (h : step.isFinite = false) :
    s.stripe sample = none := by
  cases hstripe : s.stripe sample with
  | none => rfl
  | some segment =>
      obtain ⟨step', hstep', rfl⟩ := exists_step_of_stripe hstripe
      obtain rfl := Option.some.inj (hstep.symm.trans hstep')
      have hturned := (Vec.isFinite_of_add (stripe_isFinite hstripe).1).2
      rw [Vec.isFinite_of_rotate hturned] at h
      cases h

/-- **When a rescaled movement is finite.**  A finite movement of finite and non-zero length is
rescaled to any length from 0 to 500, and that is its step where the offset is fixed.  It is finite
as long as the quotient of the two lengths is, so for every movement that is not shorter than
`500 / (2 ^ 128 - 2 ^ 103)`; then each coordinate is zero or has its sign.  Where the quotient is too
large, the rescaled movement is not finite, and there is no stripe. -/
theorem step_isFinite_iff {v : Vec} {length : Binary32} (hv : v.isFinite = true)
    (hfinite : v.length.isFinite = true) (hne : v.length.numEq 0 = false) (hlo : 0 ≤ length)
    (hhi : length ≤ 500) :
    ∃ w, v.withLength length = some w ∧
      (w.isFinite = true ↔ length.toRat < (2 ^ 128 - 2 ^ 103) * v.length.toRat) ∧
      (w.isFinite = true → w.x.ZeroOrSame v.x ∧ w.y.ZeroOrSame v.y) ∧
      ∀ s : Settings, s.mouseOffset = false → s.offset = length →
        s.step v = some w ∧ (w.isFinite = false → ∀ point, s.stripe ⟨point, v⟩ = none) := by
  have hF : 0 < Format.binary32.infIndex := by decide
  have hpos := Vec.length_pos hv hne
  have h0 : (0 : Binary32).isFinite = true := by decide +kernel
  have h500 : (500 : Binary32).isFinite = true := by decide +kernel
  have hlength := Binary.isFinite_of_le_of_le h0 h500 hlo hhi
  have hw := Vec.withLength_eq_some_iff.2 ⟨hfinite, hpos, hlength, rfl⟩
  refine ⟨v * (length / v.length), hw,
    Vec.isFinite_mul_quotient_iff hv hfinite hpos hlength hlo hhi, ?_, ?_⟩
  · intro h
    obtain ⟨hx, hy⟩ := Bool.and_eq_true_iff.1 hv
    obtain ⟨hwx, hwy⟩ := Bool.and_eq_true_iff.1 h
    obtain ⟨hsignx, hsigny⟩ := Vec.keepsSign_withLength hw hlo h
    exact ⟨hsignx.zeroOrSame hF hx hwx, hsigny.zeroOrSame hF hy hwy⟩
  · intro s hfixed hoffset
    have hstep : s.step v = some (v * (length / v.length)) := by
      have hguard : ¬ (v.isFinite = false ∨ v.length ≤ 0) := by
        rw [not_or]
        exact ⟨by simp [hv], fun hle => Binary.not_lt_of_le hle hpos⟩
      rw [step, if_neg hguard, hfixed, hoffset]
      exact hw
    refine ⟨hstep, fun h point => ?_⟩
    exact stripe_eq_none_of_step hstep h

/-- A movement of length `2 ^ -119` is just long enough for every offset. -/
theorem step_isFinite_iff_of_short :
    let v : Vec := ⟨.ofBits _ 0x04000000, 0⟩
    ∃ w, v.withLength 500 = some w ∧ w.isFinite = true ∧ w.x.ZeroOrSame v.x ∧
      w.y.ZeroOrSame v.y ∧ ({ offset := 500 } : Settings).step v = some w := by
  intro v
  obtain ⟨w, hw, -, hsign, hstep⟩ := @step_isFinite_iff v 500 (by decide +kernel)
    (by decide +kernel) (by decide +kernel) (by decide +kernel) (by decide +kernel)
  obtain rfl : w = ⟨500, 0⟩ := by
    have hvalue : v.withLength 500 = some ⟨500, 0⟩ := by decide +kernel
    exact Option.some.inj (hw.symm.trans hvalue)
  have hfinite : (⟨500, 0⟩ : Vec).isFinite = true := by decide +kernel
  exact ⟨_, hw, hfinite, (hsign hfinite).1, (hsign hfinite).2, (hstep { offset := 500 } rfl rfl).1⟩

/-- **The least movement is rescaled to infinity**, though it is meant to get a length of ten; and so
is its step where the offset is fixed to ten. -/
theorem step_of_least :
    let v : Vec := ⟨.ofBits _ 0x00000001, 0⟩
    v.isFinite = true ∧ v.length.isFinite = true ∧ v.length.numEq 0 = false ∧
      (0 : Binary32) ≤ 10 ∧ (10 : Binary32) ≤ 500 ∧
      v.withLength 10 = some ⟨.inf false, .nan false⟩ ∧
      ({ mouseOffset := false, offset := 10 } : Settings).step v =
        some ⟨.inf false, .nan false⟩ := by
  decide +kernel

end Settings

end StripeBrush
