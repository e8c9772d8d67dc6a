/-
**How well a length is computed.**

The length of a movement is the root of a sum of squares in double precision, narrowed once.  The
roundings in double precision are too fine to matter: what they add up to is a small part of the one
that narrows.  So the length misses the exact one by hardly more than half a unit in the last place,
wherever it is finite.

Main results:

* `Binary.exists_rounds_sqrt` — the number that the square root rounds is the exact root but for a
  quarter of a quantum;
* `Vec.length_error` — **the error of a length**;
* `Vec.isFinite_length` — a length is finite, unless the exact one is near the end of the format;
* `Vec.isFinite_of_length` — a movement of finite length is finite.
-/

import StripeBrush.Proofs.Binary.Nonneg
import StripeBrush.Proofs.Binary.Values
import Mathlib.Analysis.Real.Sqrt

set_option relaxedAutoImplicit false
set_option autoImplicit false

namespace StripeBrush

namespace Binary

variable {F : Format} {x : Binary F}

/-- The value of a number that is not below zero is not either. -/
theorem toRat_nonneg (hF : 0 < F.infIndex) (h : 0 ≤ x) : 0 ≤ x.toRat := by
  obtain rfl | ⟨s, i, rfl, hi⟩ := (nonneg_iff hF).1 h
  · exact le_rfl
  · cases s with
    | false => exact F.value_nonneg i
    | true => simp [toRat, hi rfl]

/-! ### Roots -/

theorem floorSqrt_le_sqrt (n : ℕ) : (floorSqrt n : ℝ) ≤ √n ∧ √n < floorSqrt n + 1 := by
  obtain ⟨hlo, hhi⟩ := floorSqrt_bounds n
  have hlo : (floorSqrt n : ℝ) * floorSqrt n ≤ n := by exact_mod_cast hlo
  have hhi : (n : ℝ) < (floorSqrt n + 1) * (floorSqrt n + 1) := by exact_mod_cast hhi
  constructor
  · refine Real.le_sqrt_of_sq_le ?_
    rwa [sq]
  · rw [Real.sqrt_lt' (by positivity), sq]
    exact hhi

/-- The root of a value, from that of four times as many quanta. -/
theorem sqrt_toRat (i : Fin F.infIndex) :
    √((finite false i).toRat : ℝ) =
      √((4 * (F.magnitude i * 2 ^ F.scale) : ℕ) : ℝ) / (2 * 2 ^ F.scale) := by
  have hsquare : ((4 * (F.magnitude i * 2 ^ F.scale) : ℕ) : ℝ) =
      (2 * 2 ^ F.scale) ^ 2 * ((finite false i).toRat : ℝ) := by
    have hmagnitude : (F.magnitude i : ℝ) = (F.value i : ℝ) * 2 ^ F.scale := by
      exact_mod_cast congrArg (Rat.cast (K := ℝ)) (F.magnitude_eq_value i)
    simp only [toRat, Bool.false_eq_true, if_false]
    push_cast
    rw [hmagnitude]
    ring
  rw [hsquare, Real.sqrt_mul (by positivity), Real.sqrt_sq (by positivity)]
  field_simp

/-- What stands for the root of `n` in halves of a quantum rounds a number close to it. -/
theorem exists_rounds_root (hF : 0 < F.infIndex) (n : ℕ) :
    ∃ r : ℚ, 0 ≤ r ∧
      Rounds (if floorSqrt n * floorSqrt n = n then ofQuanta F false (floorSqrt n) 2
        else ofQuanta F false (2 * floorSqrt n + 1) 4) r ∧
      |(r : ℝ) - √n / (2 * 2 ^ F.scale)| ≤ 1 / (4 * 2 ^ F.scale) := by
  have hscale : (0 : ℝ) < 2 ^ F.scale := by positivity
  obtain ⟨hlo, hhi⟩ := floorSqrt_le_sqrt n
  generalize floorSqrt n = r at hlo hhi ⊢
  split
  case isTrue hexact =>
    refine ⟨r / (2 * 2 ^ F.scale), by positivity, ?_, ?_⟩
    · refine rounds_ofQuanta hF false (by decide) ?_
      push_cast
      field_simp
    · have hroot : √(n : ℝ) = r := by
        rw [← hexact, Nat.cast_mul, Real.sqrt_mul_self (by positivity)]
      rw [hroot]
      push_cast
      rw [sub_self, abs_zero]
      positivity
  case isFalse =>
    refine ⟨(2 * r + 1) / (4 * 2 ^ F.scale), by positivity, ?_, ?_⟩
    · refine rounds_ofQuanta hF false (by decide) ?_
      push_cast
      field_simp
    · have hdist : ((2 * r + 1) / (4 * 2 ^ F.scale) : ℝ) - √n / (2 * 2 ^ F.scale) =
          (2 * r + 1 - 2 * √n) / (4 * 2 ^ F.scale) := by
        field_simp
        ring
      push_cast
      rw [hdist, abs_div, abs_of_pos (by positivity : (0 : ℝ) < 4 * 2 ^ F.scale)]
      gcongr
      rw [abs_le]
      constructor <;> linarith

/-- The square root rounds a number that is the exact root but for a quarter of a quantum. -/
theorem exists_rounds_sqrt (hF : 0 < F.infIndex) (hx : x.isFinite = true) (hpos : 0 ≤ x.toRat) :
    ∃ r : ℚ, 0 ≤ r ∧ x.sqrt.Rounds r ∧ |(r : ℝ) - √x.toRat| ≤ 1 / (4 * 2 ^ F.scale) := by
  obtain ⟨s, i, rfl⟩ := exists_of_isFinite hx
  by_cases hzero : i.val = 0
  · -- the root of zero is that zero
    have hvalue : (finite s i).toRat = 0 := by cases s <;> simp [toRat, hzero]
    have hroot : (finite s i).sqrt = finite s i := by simp [sqrt, hzero]
    refine ⟨0, le_rfl, ?_, ?_⟩
    · rw [hroot]
      refine ⟨fun _ => rfl, fun _ => ?_⟩
      rw [hvalue, sub_zero, abs_zero]
      exact add_nonneg (by simp) (by positivity)
    · rw [hvalue]
      simp
  · have hs : s = false := by
      by_contra hneg
      have hlt := F.value_pos (Nat.pos_of_ne_zero hzero)
      rw [Bool.not_eq_false] at hneg
      simp only [hneg, toRat, if_true] at hpos
      linarith
    subst hs
    rw [sqrt_toRat]
    simp only [sqrt, hzero, if_false, Bool.false_eq_true]
    exact exists_rounds_root hF _

end Binary

/-! ### Roundings in double precision -/

namespace Format

/-- Double precision goes on far beyond the squares of single precision. -/
theorem lt_overflow64 : (10 : ℚ) ^ 100 < binary64.overflow := by
  have hmid : 10 ^ 100 * 2 ^ (binary64.scale + 1) < binary64.midpoint (binary64.infIndex - 1) := by
    decide +kernel
  rw [overflow, lt_div_iff₀ (by positivity)]
  exact_mod_cast hmid

theorem slack64_le (r : ℚ) : binary64.slack r ≤ r / 2 ^ 53 + 1 / 10 ^ 100 := by
  have hpow : 10 ^ 100 ≤ 2 ^ (binary64.scale + 1) := by decide +kernel
  have hpow : (10 : ℚ) ^ 100 ≤ 2 ^ (binary64.scale + 1) := by exact_mod_cast hpow
  exact add_le_add le_rfl (one_div_le_one_div_of_le (by positivity) hpow)

end Format

namespace Vec

variable {v : Vec}

/-- The exact length of a finite movement. -/
noncomputable def exactLength (v : Vec) : ℝ :=
  √((v.x.toRat : ℝ) ^ 2 + (v.y.toRat : ℝ) ^ 2)

/-- The sum of the squares, in double precision. -/
def squares (v : Vec) : Binary64 :=
  let x := v.x.convert Format.binary64
  let y := v.y.convert Format.binary64
  x * x + y * y

theorem length_of_isFinite (hv : v.isFinite = true) :
    v.length = v.squares.sqrt.convert Format.binary32 := by
  obtain ⟨hx, hy⟩ := Bool.and_eq_true_iff.1 hv
  simp only [length, Binary.isInf_of_isFinite hx, Binary.isInf_of_isFinite hy, Bool.or_self,
    Bool.false_eq_true, if_false]
  rfl

theorem sq_toRat_le {x : Binary32} (hx : x.isFinite = true) : x.toRat ^ 2 ≤ 10 ^ 80 := by
  have habs : |x.toRat| ≤ 10 ^ 40 := (Binary.abs_toRat_le_max32 hx).trans (by norm_num)
  calc x.toRat ^ 2 = |x.toRat| ^ 2 := (sq_abs _).symm
    _ ≤ (10 ^ 40) ^ 2 := by gcongr
    _ = 10 ^ 80 := by norm_num

/-- A square in double precision. -/
theorem square_error {x : Binary32} (hx : x.isFinite = true) :
    (x.convert Format.binary64 * x.convert Format.binary64).isFinite = true ∧
      |(x.convert Format.binary64 * x.convert Format.binary64).toRat - x.toRat ^ 2| ≤
        x.toRat ^ 2 / 2 ^ 53 + 1 / 10 ^ 100 := by
  obtain ⟨hwide, hvalue⟩ := Binary.toRat_widen hx
  have hround := Binary.rounds_mul (by decide) hwide hwide
  rw [hvalue, ← sq] at hround
  have hfinite := hround.isFinite_of_lt (by
    rw [abs_of_nonneg (sq_nonneg _)]
    exact lt_of_le_of_lt ((sq_toRat_le hx).trans (by norm_num)) Format.lt_overflow64)
  refine ⟨hfinite, (hround.error_le hfinite).trans ?_⟩
  rw [abs_of_nonneg (sq_nonneg _)]
  exact Format.slack64_le _

theorem squares_error (hv : v.isFinite = true) :
    v.squares.isFinite = true ∧
      |v.squares.toRat - (v.x.toRat ^ 2 + v.y.toRat ^ 2)| ≤
        (v.x.toRat ^ 2 + v.y.toRat ^ 2) / 2 ^ 51 + 8 / 10 ^ 100 := by
  obtain ⟨hx, hy⟩ := Bool.and_eq_true_iff.1 hv
  obtain ⟨hfx, hex⟩ := square_error hx
  obtain ⟨hfy, hey⟩ := square_error hy
  have hround := Binary.rounds_add (by decide) hfx hfy
  have hmx := sq_toRat_le hx
  have hmy := sq_toRat_le hy
  have hpx := sq_nonneg v.x.toRat
  have hpy := sq_nonneg v.y.toRat
  change v.squares.Rounds _ at hround
  generalize (v.x.convert Format.binary64 * v.x.convert Format.binary64).toRat = p at hex hround
  generalize (v.y.convert Format.binary64 * v.y.convert Format.binary64).toRat = q at hey hround
  generalize v.x.toRat ^ 2 = x at hmx hpx hex ⊢
  generalize v.y.toRat ^ 2 = y at hmy hpy hey ⊢
  obtain ⟨hxlo, hxhi⟩ := abs_le.1 hex
  obtain ⟨hylo, hyhi⟩ := abs_le.1 hey
  have hsum : |p + q| ≤ 2 * (x + y) + 2 / 10 ^ 100 := by
    rw [abs_le]
    constructor <;> linarith
  obtain ⟨hfinite, herror⟩ := hround.of_abs_le hsum
    (lt_of_le_of_lt (by linarith) Format.lt_overflow64)
  refine ⟨hfinite, ?_⟩
  obtain ⟨hlo, hhi⟩ := abs_le.1 (herror.trans (Format.slack64_le _))
  rw [abs_le]
  constructor <;> linarith

theorem squares_nonneg (hv : v.isFinite = true) : 0 ≤ v.squares := by
  obtain ⟨hx, hy⟩ := Bool.and_eq_true_iff.1 hv
  have hF : 0 < Format.binary64.infIndex := by decide
  have hsquare : ∀ {b : Binary32}, b.isFinite = true →
      0 ≤ b.convert Format.binary64 * b.convert Format.binary64 := by
    intro b hb
    refine Binary.nonneg_mul_self hF ?_
    rw [Binary.isNaN_convert]
    exact Binary.isNaN_of_isFinite hb
  exact Binary.nonneg_add hF (hsquare hx) (hsquare hy)

theorem sqrt_error {t r ε κ : ℝ} (ht : 0 ≤ t) (hε : 0 ≤ ε) (hκ : 0 ≤ κ)
    (h : |r - t| ≤ t * ε + κ ^ 2) : |√r - √t| ≤ √t * ε + κ := by
  obtain ⟨hlo, hhi⟩ := abs_le.1 h
  have hw : 0 ≤ √t := Real.sqrt_nonneg t
  have hsq : √t ^ 2 = t := Real.sq_sqrt ht
  rw [abs_le]
  constructor
  · -- from below, unless there is nothing to show
    rcases le_or_gt (√t * (1 - ε)) κ with hsmall | hlarge
    · have hr := Real.sqrt_nonneg r
      linarith
    · have hle : √t * (1 - ε) - κ ≤ √r := by
        refine Real.le_sqrt_of_sq_le ?_
        nlinarith [mul_nonneg hw hε, mul_nonneg hκ hκ]
      linarith
  · have hle : √r ≤ √t * (1 + ε) + κ := by
      rw [Real.sqrt_le_left (by positivity)]
      nlinarith [mul_nonneg hw hκ, mul_nonneg ht hε, mul_nonneg hw hε]
    linarith

/-! ### The length -/

theorem exactLength_nonneg (v : Vec) : 0 ≤ v.exactLength := Real.sqrt_nonneg _

theorem abs_le_exactLength (v : Vec) :
    |(v.x.toRat : ℝ)| ≤ v.exactLength ∧ |(v.y.toRat : ℝ)| ≤ v.exactLength := by
  constructor
  · exact Real.abs_le_sqrt (by nlinarith [sq_nonneg (v.y.toRat : ℝ)])
  · exact Real.abs_le_sqrt (by nlinarith [sq_nonneg (v.x.toRat : ℝ)])

theorem exactLength_le (hv : v.isFinite = true) : v.exactLength ≤ 10 ^ 41 := by
  obtain ⟨hx, hy⟩ := Bool.and_eq_true_iff.1 hv
  have hmx : (v.x.toRat : ℝ) ^ 2 ≤ 10 ^ 80 := by exact_mod_cast sq_toRat_le hx
  have hmy : (v.y.toRat : ℝ) ^ 2 ≤ 10 ^ 80 := by exact_mod_cast sq_toRat_le hy
  rw [exactLength, Real.sqrt_le_left (by positivity)]
  linarith

/-- The root of the rounded sum of squares. -/
theorem sqrt_squares_error (hv : v.isFinite = true) :
    |√(v.squares.toRat : ℝ) - v.exactLength| ≤ v.exactLength * (1 / 2 ^ 51) + 1 / 10 ^ 49 := by
  obtain ⟨-, herror⟩ := squares_error hv
  refine sqrt_error (by positivity) (by norm_num) (by norm_num) ?_
  have hcast := (Rat.cast_le (K := ℝ)).2 herror
  push_cast at hcast
  exact hcast.trans (by linarith)

/-- The length before it is narrowed. -/
theorem exists_rounds_length (hv : v.isFinite = true) :
    ∃ w : ℚ, 0 ≤ w ∧ v.length.Rounds w ∧
      |(w : ℝ) - v.exactLength| ≤ v.exactLength / 2 ^ 50 + 1 / 10 ^ 48 := by
  have hF : 0 < Format.binary64.infIndex := by decide
  obtain ⟨hfinite, -⟩ := squares_error hv
  have hpos := squares_nonneg hv
  obtain ⟨r, hr, hround, hquarter⟩ :=
    Binary.exists_rounds_sqrt hF hfinite (Binary.toRat_nonneg hF hpos)
  have hH := exactLength_nonneg v
  have hmax := exactLength_le hv
  have htiny : (1 : ℝ) / (4 * 2 ^ Format.binary64.scale) ≤ 1 / 10 ^ 100 := by
    have hpow : 10 ^ 100 ≤ 4 * 2 ^ Format.binary64.scale := by decide +kernel
    have hpow : (10 : ℝ) ^ 100 ≤ 4 * 2 ^ Format.binary64.scale := by exact_mod_cast hpow
    exact one_div_le_one_div_of_le (by positivity) hpow
  have hroot := sqrt_squares_error hv
  generalize √(v.squares.toRat : ℝ) = root at hquarter hroot
  obtain ⟨hqlo, hqhi⟩ := abs_le.1 (hquarter.trans htiny)
  obtain ⟨hrlo, hrhi⟩ := abs_le.1 hroot
  -- the root is rounded to double precision
  have hrle : (r : ℝ) ≤ v.exactLength * (1 + 1 / 2 ^ 51) + 2 / 10 ^ 49 := by linarith
  have hrmax : r ≤ 10 ^ 99 := by
    have hreal : (r : ℝ) ≤ 10 ^ 99 := by linarith
    exact_mod_cast hreal
  have hrabs : |r| = r := abs_of_nonneg hr
  have hsfinite := hround.isFinite_of_lt (by
    rw [hrabs]
    exact lt_of_le_of_lt (hrmax.trans (by norm_num)) Format.lt_overflow64)
  have hserror := (hround.error_le hsfinite).trans (Format.slack64_le _)
  rw [hrabs] at hserror
  have hcast := (Rat.cast_le (K := ℝ)).2 hserror
  push_cast at hcast
  refine ⟨v.squares.sqrt.toRat, Binary.toRat_nonneg hF (Binary.nonneg_sqrt hF hpos), ?_, ?_⟩
  · rw [length_of_isFinite hv]
    exact Binary.rounds_convert (by decide) hsfinite
  · obtain ⟨hslo, hshi⟩ := abs_le.1 hcast
    rw [abs_le]
    constructor <;> linarith

/-- **The error of a length.** -/
theorem length_error (hv : v.isFinite = true) (hfinite : v.length.isFinite = true) :
    |(v.length.toRat : ℝ) - v.exactLength| ≤ v.exactLength * (5 / 2 ^ 26) + 1 / 2 ^ 148 := by
  obtain ⟨w, hw, hround, hclose⟩ := exists_rounds_length hv
  have hH := exactLength_nonneg v
  have herror := hround.error_le hfinite
  rw [abs_of_nonneg hw, Format.slack32] at herror
  have hcast := (Rat.cast_le (K := ℝ)).2 herror
  push_cast at hcast
  obtain ⟨hlo, hhi⟩ := abs_le.1 hcast
  obtain ⟨hwlo, hwhi⟩ := abs_le.1 hclose
  rw [abs_le]
  constructor <;> linarith

/-- A length is finite, unless the exact one is near the end of the format. -/
theorem isFinite_length (hv : v.isFinite = true) (h : v.exactLength ≤ 3 * 2 ^ 126) :
    v.length.isFinite = true := by
  obtain ⟨w, hw, hround, hclose⟩ := exists_rounds_length hv
  obtain ⟨-, hhi⟩ := abs_le.1 hclose
  refine hround.isFinite_of_lt ?_
  have hreal : (w : ℝ) < 2 ^ 128 - 2 ^ 103 := by linarith
  rw [abs_of_nonneg hw, Format.overflow32]
  exact_mod_cast hreal

/-- A movement of finite length is finite, if its coordinates are numbers. -/
theorem isFinite_of_length (hx : v.x.isNaN = false) (hy : v.y.isNaN = false)
    (h : v.length.isFinite = true) : v.isFinite = true := by
  unfold length at h
  split at h
  case isTrue => simp [Binary.isFinite] at h
  case isFalse hbounded =>
    obtain ⟨hbx, hby⟩ := Bool.or_eq_false_iff.1 (Bool.not_eq_true _ ▸ hbounded)
    exact Bool.and_eq_true_iff.2 ⟨Binary.isFinite_of_isInf hx hbx, Binary.isFinite_of_isInf hy hby⟩

end Vec

end StripeBrush
