/-
**The rational values of finite numbers.**

A finite number is a rational number, and the order of finite numbers is that of their values.  The
result of an operation is the exact result, rounded once: it is the number nearest to it, whatever
the signs of the operands and of zeros are.  So it is finite where the exact result stays below the
midpoint of the largest magnitude and the one that would come next, and it misses the exact result by
half a unit in the last place at most.  What that unit is depends on the magnitude, but there is a
bound for all magnitudes: a part of the result, and half the least positive number.

Main definitions:

* `Binary.toRat` — the value of a finite number;
* `Format.overflow` — from where on a rational number is rounded to infinity;
* `Format.slack` — a bound for what rounding changes;
* `Binary.Nearest` — **a number is the one nearest to a rational number**, but for the sign of a zero;
* `Binary.Rounds` — what the two bounds tell of such a number;
* `Format.Whole` — a whole number is a number of the format.

Main results:

* `Binary.le_iff_toRat_le`, `Binary.lt_iff_toRat_lt` — the order of finite numbers;
* `Format.roundIndex_error_le` — the error of rounding a ratio, be it long or short;
* `Binary.nearest_add`, `Binary.nearest_mul`, `Binary.nearest_div`, `Binary.nearest_convert` — **each
  operation gives the number nearest to its exact result**;
* `Binary.Nearest.rounds` — and so it is within the bounds: `Binary.rounds_add`, `Binary.rounds_sub`,
  `Binary.rounds_mul`, `Binary.rounds_div`, `Binary.rounds_convert`;
* `Binary.ceilUpTo_eq` — **a finite number is counted up to the ceiling of its value**;
* `Binary.toRat_ofNat` — a natural number of at most twenty-four bits is exact.
-/

import StripeBrush.Proofs.Binary.Conversion
import StripeBrush.Proofs.Binary.Sums
import Mathlib.Data.Rat.Floor
import Mathlib.Tactic.FieldSimp
import Mathlib.Tactic.NormNum

set_option relaxedAutoImplicit false
set_option autoImplicit false

namespace StripeBrush

namespace Format

variable (F : Format)

/-! ### The error of one rounding -/

theorem value_strictMono : StrictMono F.value := by
  intro i j h
  have hscale : (0 : ℚ) < 2 ^ F.scale := by positivity
  have hlt : (F.magnitude i : ℚ) < F.magnitude j := by exact_mod_cast F.magnitude_strictMono h
  exact div_lt_div_of_pos_right hlt hscale

@[simp] theorem value_zero : F.value 0 = 0 := by
  rw [value, F.magnitude_zero, Nat.cast_zero, zero_div]

theorem value_nonneg (i : ℕ) : 0 ≤ F.value i := by
  rw [value]
  positivity

/-- From here on a rational number is rounded to infinity: the midpoint of the largest magnitude and
the one that would come next. -/
def overflow : ℚ := F.midpoint (F.infIndex - 1) / 2 ^ (F.scale + 1)

/-- A bound for what rounding changes in a rational number of magnitude `r`: half a unit in the last
place of a full significand, and half the least positive number. -/
def slack (r : ℚ) : ℚ := r / 2 ^ (F.fracBits + 1) + 1 / 2 ^ (F.scale + 1)

theorem slack_mono {r r' : ℚ} (h : r ≤ r') : F.slack r ≤ F.slack r' := by
  unfold slack
  gcongr

/-- **The error of rounding a ratio**, in quanta: a part of the ratio where it fills a significand,
and half a quantum where it does not. -/
theorem roundIndex_error_le (num : ℕ) {den : ℕ} (hd : 0 < den) :
    |(F.magnitude (F.roundIndex num den) : ℚ) - num / den| ≤
      num / den / 2 ^ (F.fracBits + 1) + 1 / 2 := by
  have hd' : (0 : ℚ) < den := by exact_mod_cast hd
  have hratio : (0 : ℚ) ≤ num / den / 2 ^ (F.fracBits + 1) := by positivity
  rcases Nat.le_total (2 ^ F.fracBits * den) num with hlong | hshort
  · have herror := F.roundIndex_error hd hlong
    linarith
  · -- in the first binade, where the spacing is one quantum
    obtain ⟨e, m, hidx, he, hm, hlo, hbelow, habove⟩ := F.roundIndex_significand num hd
    have hspacing : 2 ^ e * den ≤ den := by
      rcases hlo with rfl | hlo
      · simp
      · have hfull : 2 ^ F.fracBits * (2 ^ e * den) ≤ 2 ^ F.fracBits * den := by
          calc 2 ^ F.fracBits * (2 ^ e * den) = 2 ^ F.fracBits * 2 ^ e * den := by ring
            _ ≤ num := hlo
            _ ≤ 2 ^ F.fracBits * den := hshort
        exact Nat.le_of_mul_le_mul_left hfull (Nat.two_pow_pos _)
    have hbelow : 2 * (m * 2 ^ e) * den ≤ 2 * num + den := by omega
    have habove : 2 * num ≤ 2 * (m * 2 ^ e) * den + den := by omega
    have hbelow : (2 * ((m * 2 ^ e : ℕ) : ℚ)) * den ≤ 2 * num + den := by exact_mod_cast hbelow
    have habove : (2 * num : ℚ) ≤ 2 * ((m * 2 ^ e : ℕ) : ℚ) * den + den := by
      exact_mod_cast habove
    have hnum : (num : ℚ) = num / den * den := (div_mul_cancel₀ _ hd'.ne').symm
    rw [hidx, F.magnitude_add he hm]
    have hhalf : |((m * 2 ^ e : ℕ) : ℚ) - num / den| ≤ 1 / 2 := by
      rw [abs_le]
      constructor
      · refine le_of_mul_le_mul_right ?_ hd'
        linarith
      · refine le_of_mul_le_mul_right ?_ hd'
        linarith
    linarith

variable {F} {q : ℚ} {i : ℕ}

/-- A rational number misses the magnitude that it is rounded to by no more than the slack. -/
theorem RoundsTo.error_le (h : F.RoundsTo q i) : |F.value i - q| ≤ F.slack q := by
  obtain ⟨num, den, hd, hratio, rfl⟩ := h
  have hscale : (0 : ℚ) < 2 ^ F.scale := by positivity
  have herror := F.roundIndex_error_le num hd
  rw [hratio, F.magnitude_eq_value, ← sub_mul, abs_mul, abs_of_pos hscale] at herror
  refine le_of_mul_le_mul_right (herror.trans_eq ?_) hscale
  rw [slack, pow_succ 2 F.scale]
  field_simp

theorem RoundsTo.lt_infIndex (h : F.RoundsTo q i) (hF : 0 < F.infIndex) (hlt : q < F.overflow) :
    i < F.infIndex := by
  by_contra hge
  obtain ⟨j, rfl⟩ : ∃ j, i = j + 1 := ⟨i - 1, by omega⟩
  have hmono : (F.midpoint (F.infIndex - 1) : ℚ) ≤ F.midpoint j := by
    exact_mod_cast F.midpoint_strictMono.monotone (by omega)
  rw [overflow, lt_div_iff₀ (by positivity), pow_succ] at hlt
  have hmid := h.midpoint_le
  linarith

end Format

namespace Binary

variable {F G : Format} {x y : Binary F} {r A : ℚ}

/-! ### Values -/

/-- The value of a finite number; zero for all others. -/
def toRat : Binary F → ℚ
  | finite s i => if s then -F.value i else F.value i
  | _ => 0

theorem exists_of_isFinite (h : x.isFinite = true) : ∃ s i, x = finite s i := by
  cases x with
  | finite s i => exact ⟨s, i, rfl⟩
  | _ => simp [isFinite] at h

@[simp] theorem toRat_neg (x : Binary F) : (-x).toRat = -x.toRat := by
  cases x with
  | finite s i =>
      change (finite (!s) i).toRat = _
      cases s <;> simp [toRat]
  | _ => exact neg_zero.symm

@[simp] theorem abs_toRat_finite (s : Bool) (i : Fin F.infIndex) :
    |(finite s i).toRat| = F.value i := by
  have hpos := F.value_nonneg i
  cases s <;> simp [toRat, abs_of_nonneg hpos]

theorem signed_eq_toRat (s : Bool) (i : Fin F.infIndex) :
    (signed F s i : ℚ) = (finite s i).toRat * 2 ^ F.scale := by
  cases s <;> simp [signed, toRat, F.magnitude_eq_value i]

/-- **The order of finite numbers is that of their values.** -/
theorem le_iff_toRat_le (hx : x.isFinite = true) (hy : y.isFinite = true) :
    x ≤ y ↔ x.toRat ≤ y.toRat := by
  obtain ⟨s, i, rfl⟩ := exists_of_isFinite hx
  obtain ⟨t, j, rfl⟩ := exists_of_isFinite hy
  have hi := F.value_nonneg i
  have hj := F.value_nonneg j
  have hzero : ∀ k : ℕ, F.value k ≤ 0 ↔ k = 0 := by
    intro k
    rw [← F.value_zero, F.value_strictMono.le_iff_le, Nat.le_zero]
  have hle : ∀ k l : ℕ, F.value k ≤ F.value l ↔ k ≤ l := fun k l => F.value_strictMono.le_iff_le
  rw [le_iff_key]
  cases s <;> cases t <;> simp only [key?, toRat, Bool.false_eq_true, if_true, if_false,
    Option.some.injEq, exists_and_left, exists_eq_left', neg_le_neg_iff, hle]
  case false.false => omega
  case true.true => omega
  case false.true =>
    have hsum : F.value i ≤ -F.value j ↔ F.value i ≤ 0 ∧ F.value j ≤ 0 := by
      constructor
      · intro h
        constructor <;> linarith
      · intro h
        linarith [h.1, h.2]
    rw [hsum, hzero, hzero]
    omega
  case true.false =>
    have hsum : -F.value i ≤ F.value j := by linarith
    simp only [hsum, iff_true]
    omega

theorem lt_iff_toRat_lt (hx : x.isFinite = true) (hy : y.isFinite = true) :
    x < y ↔ x.toRat < y.toRat := by
  rw [← not_le_iff_lt (isNaN_of_isFinite hy) (isNaN_of_isFinite hx), le_iff_toRat_le hy hx, not_le]

/-! ### Rounding -/

/-- `x` is the number nearest to the rational number `r`: its place is the index that the magnitude of
`r` is rounded to, with the sign of `r`.  The sign of a zero is left open. -/
def Nearest (x : Binary F) (r : ℚ) : Prop :=
  ∃ i, F.RoundsTo |r| i ∧
    x.key? = some (if r < 0 then -(min i F.infIndex : ℤ) else (min i F.infIndex : ℤ))

/-- As far as one can tell from the bounds on rounding, `x` is what the rational number `r` is rounded
to: it is finite where `r` is small enough, and then it is close to `r`. -/
structure Rounds (x : Binary F) (r : ℚ) : Prop where
  isFinite_of_lt : |r| < F.overflow → x.isFinite = true
  error_le : x.isFinite = true → |x.toRat - r| ≤ F.slack |r|

/-- What is known of a rounded number of bounded magnitude. -/
theorem Rounds.of_abs_le (h : x.Rounds r) (hr : |r| ≤ A) (hA : A < F.overflow) :
    x.isFinite = true ∧ |x.toRat - r| ≤ F.slack A := by
  have hfinite := h.isFinite_of_lt (lt_of_le_of_lt hr hA)
  exact ⟨hfinite, (h.error_le hfinite).trans (F.slack_mono hr)⟩

theorem toRat_of_key {k : ℤ} (hx : x.isFinite = true) (h : x.key? = some k) :
    x.toRat = if k < 0 then -F.value k.natAbs else F.value k.natAbs := by
  obtain ⟨s, i, rfl⟩ := exists_of_isFinite hx
  obtain rfl := Option.some.inj h
  cases s with
  | false => simp [toRat]
  | true =>
      rcases Nat.eq_zero_or_pos i.val with hzero | hpos
      · simp [toRat, hzero]
      · simp [toRat, hpos]

/-- The nearest number is finite exactly where the rounded index is. -/
theorem isFinite_iff_lt_infIndex {i : ℕ}
    (h : x.key? = some (if r < 0 then -(min i F.infIndex : ℤ) else (min i F.infIndex : ℤ))) :
    x.isFinite = true ↔ i < F.infIndex := by
  rw [isFinite_iff_key h]
  split <;> omega

/-- The nearest number keeps the bounds on rounding. -/
theorem Nearest.rounds (hF : 0 < F.infIndex) (h : x.Nearest r) : x.Rounds r := by
  obtain ⟨i, hround, hkey⟩ := h
  have hiff := isFinite_iff_lt_infIndex hkey
  refine ⟨fun hlt => hiff.2 (hround.lt_infIndex hF hlt), fun hfinite => ?_⟩
  have hmin : (min i F.infIndex : ℤ) = i := by
    have hlt := hiff.1 hfinite
    omega
  have herror := hround.error_le
  rw [toRat_of_key hfinite hkey, hmin]
  rcases lt_or_ge r 0 with hneg | hpos
  · rw [abs_of_neg hneg] at herror ⊢
    have hvalue : (if -(i : ℤ) < 0 then -F.value i else F.value i) = -F.value i := by
      rcases Nat.eq_zero_or_pos i with rfl | hi
      · simp
      · exact if_pos (by omega)
    have hmirror : -F.value i - r = -(F.value i - -r) := by ring
    rw [if_pos hneg, Int.natAbs_neg, Int.natAbs_natCast, hvalue, hmirror, abs_neg]
    exact herror
  · rw [abs_of_nonneg hpos] at herror ⊢
    rw [if_neg hpos.not_gt, Int.natAbs_natCast, if_neg (by omega)]
    exact herror

theorem abs_withSign (neg : Bool) {q : ℚ} (hq : 0 ≤ q) : |(if neg then -q else q)| = q := by
  cases neg <;> simp [abs_of_nonneg hq]

theorem key?_ofIndex_withSign (F : Format) (neg : Bool) (i : ℕ) :
    (ofIndex F neg i).key? =
      some (if neg then -(min i F.infIndex : ℤ) else (min i F.infIndex : ℤ)) := by
  unfold ofIndex
  split
  · rename_i hlt
    rw [min_eq_left (by exact_mod_cast hlt.le)]
    rfl
  · rename_i hge
    rw [min_eq_right (by exact_mod_cast Nat.le_of_not_lt hge)]
    rfl

theorem nearest_ofQuanta (neg : Bool) {num den : ℕ} (hd : 0 < den) {q : ℚ}
    (hq : (num : ℚ) / den = q * 2 ^ F.scale) :
    (ofQuanta F neg num den).Nearest (if neg then -q else q) := by
  have hscale : (0 : ℚ) < 2 ^ F.scale := by positivity
  have hpos : 0 ≤ q := by
    have hratio : 0 ≤ (num : ℚ) / den := by positivity
    rw [hq] at hratio
    exact nonneg_of_mul_nonneg_left hratio hscale
  refine ⟨F.roundIndex num den, ⟨num, den, hd, by rw [abs_withSign neg hpos, hq], rfl⟩, ?_⟩
  rw [ofQuanta, key?_ofIndex_withSign]
  cases neg with
  | false => simp [hpos.not_gt]
  | true =>
      rcases hpos.eq_or_lt with rfl | hlt
      · -- no quanta at all, where the sign is not seen
        have hnum : num = 0 := by
          rw [zero_mul, div_eq_zero_iff] at hq
          exact_mod_cast hq.resolve_right (by exact_mod_cast hd.ne')
        have hzero := F.roundIndex_magnitude 0 hd
        rw [F.magnitude_zero, Nat.zero_mul] at hzero
        simp [hnum, hzero]
      · simp [hlt]

/-- A ratio of quanta is rounded. -/
theorem rounds_ofQuanta (hF : 0 < F.infIndex) (neg : Bool) {num den : ℕ} (hd : 0 < den) {q : ℚ}
    (hq : (num : ℚ) / den = q * 2 ^ F.scale) :
    (ofQuanta F neg num den).Rounds (if neg then -q else q) :=
  (nearest_ofQuanta neg hd hq).rounds hF

/-! ### Operations -/

/-- The sum of two finite numbers is the number nearest to their exact sum. -/
theorem nearest_add (hx : x.isFinite = true) (hy : y.isFinite = true) :
    (x + y).Nearest (x.toRat + y.toRat) := by
  obtain ⟨s, i, rfl⟩ := exists_of_isFinite hx
  obtain ⟨t, j, rfl⟩ := exists_of_isFinite hy
  have hscale : (0 : ℚ) < 2 ^ F.scale := by positivity
  have hsum : ((signed F s i + signed F t j : ℤ) : ℚ) =
      ((finite s i).toRat + (finite t j).toRat) * 2 ^ F.scale := by
    rw [Int.cast_add, signed_eq_toRat, signed_eq_toRat]
    ring
  change (Binary.add (finite s i) (finite t j)).Nearest _
  simp only [Binary.add]
  generalize signed F s i + signed F t j = z at hsum ⊢
  generalize (finite s i).toRat + (finite t j).toRat = r at hsum ⊢
  split
  case isTrue hzero =>
    have hr : r = 0 := by
      rw [hzero, Int.cast_zero] at hsum
      exact (mul_eq_zero.1 hsum.symm).resolve_right hscale.ne'
    have hnothing : ((0 : ℕ) : ℚ) / (1 : ℕ) = 0 * 2 ^ F.scale := by simp
    have hnearest := nearest_ofQuanta (F := F) (s && t) Nat.one_pos hnothing
    rw [hr]
    simpa [zero] using hnearest
  case isFalse hne =>
    have hmagnitude : ((z.natAbs : ℕ) : ℚ) / (1 : ℕ) = |r| * 2 ^ F.scale := by
      rw [Nat.cast_one, div_one, Nat.cast_natAbs, Int.cast_abs, hsum, abs_mul, abs_of_pos hscale]
    have hsign : r = if decide (z < 0) = true then -|r| else |r| := by
      have hneg : z < 0 ↔ r < 0 := by
        rw [← Int.cast_lt_zero (R := ℚ), hsum]
        exact ⟨fun h => neg_of_mul_neg_left h hscale.le, fun h => mul_neg_of_neg_of_pos h hscale⟩
      split
      case isTrue h => rw [abs_of_neg (hneg.1 (of_decide_eq_true h)), neg_neg]
      case isFalse h =>
        have hge : ¬ r < 0 := fun hlt => h (decide_eq_true (hneg.2 hlt))
        rw [abs_of_nonneg (not_lt.1 hge)]
    have hnearest := nearest_ofQuanta (decide (z < 0)) Nat.one_pos hmagnitude
    rwa [← hsign] at hnearest

theorem rounds_add (hF : 0 < F.infIndex) (hx : x.isFinite = true) (hy : y.isFinite = true) :
    (x + y).Rounds (x.toRat + y.toRat) :=
  (nearest_add hx hy).rounds hF

/-- The difference of two finite numbers is their exact difference, rounded. -/
theorem rounds_sub (hF : 0 < F.infIndex) (hx : x.isFinite = true) (hy : y.isFinite = true) :
    (x - y).Rounds (x.toRat - y.toRat) := by
  have hround := rounds_add hF hx ((isFinite_neg y).trans hy)
  rwa [toRat_neg, ← sub_eq_add_neg] at hround

theorem toRat_mul_toRat (s t : Bool) (i j : Fin F.infIndex) :
    (finite s i).toRat * (finite t j).toRat =
      if (s != t) = true then -(F.value i * F.value j) else F.value i * F.value j := by
  cases s <;> cases t <;> simp [toRat]

/-- The product of two finite numbers is the number nearest to their exact product. -/
theorem nearest_mul (hx : x.isFinite = true) (hy : y.isFinite = true) :
    (x * y).Nearest (x.toRat * y.toRat) := by
  obtain ⟨s, i, rfl⟩ := exists_of_isFinite hx
  obtain ⟨t, j, rfl⟩ := exists_of_isFinite hy
  rw [toRat_mul_toRat]
  refine nearest_ofQuanta (s != t) (Nat.two_pow_pos _) ?_
  have hscale : (2 : ℚ) ^ F.scale ≠ 0 := by positivity
  push_cast
  rw [F.magnitude_eq_value, F.magnitude_eq_value, div_eq_iff hscale]
  ring

theorem rounds_mul (hF : 0 < F.infIndex) (hx : x.isFinite = true) (hy : y.isFinite = true) :
    (x * y).Rounds (x.toRat * y.toRat) :=
  (nearest_mul hx hy).rounds hF

/-- The quotient of a finite number by one that is not zero is the number nearest to their exact
quotient. -/
theorem nearest_div (hx : x.isFinite = true) (hy : y.isFinite = true) (hne : y.toRat ≠ 0) :
    (x / y).Nearest (x.toRat / y.toRat) := by
  obtain ⟨s, i, rfl⟩ := exists_of_isFinite hx
  obtain ⟨t, j, rfl⟩ := exists_of_isFinite hy
  have hvalue : F.value j ≠ 0 := by
    intro h
    apply hne
    cases t <;> simp [toRat, h]
  have hj : j.val ≠ 0 := by
    intro h
    rw [h, F.value_zero] at hvalue
    exact hvalue rfl
  have hquotient : (finite s i).toRat / (finite t j).toRat =
      if (s != t) = true then -(F.value i / F.value j) else F.value i / F.value j := by
    cases s <;> cases t <;> simp [toRat, neg_div, div_neg]
  have hdiv : finite s i / finite t j =
      ofQuanta F (s != t) (F.magnitude i * 2 ^ F.scale) (F.magnitude j) := by
    change Binary.div _ _ = _
    simp only [Binary.div, if_neg hj]
  rw [hquotient, hdiv]
  refine nearest_ofQuanta (s != t) (F.magnitude_pos (Nat.pos_of_ne_zero hj)) ?_
  have hscale : (2 : ℚ) ^ F.scale ≠ 0 := by positivity
  push_cast
  rw [F.magnitude_eq_value, F.magnitude_eq_value]
  field_simp

theorem rounds_div (hF : 0 < F.infIndex) (hx : x.isFinite = true) (hy : y.isFinite = true)
    (hne : y.toRat ≠ 0) : (x / y).Rounds (x.toRat / y.toRat) :=
  (nearest_div hx hy hne).rounds hF

/-- A change of format gives the number nearest to the value. -/
theorem nearest_convert (G : Format) (hx : x.isFinite = true) : (x.convert G).Nearest x.toRat := by
  obtain ⟨s, i, rfl⟩ := exists_of_isFinite hx
  have hscale : (2 : ℚ) ^ F.scale ≠ 0 := by positivity
  refine nearest_ofQuanta s (Nat.two_pow_pos _) ?_
  push_cast
  rw [F.magnitude_eq_value, div_eq_iff hscale]
  ring

theorem rounds_convert (hG : 0 < G.infIndex) (hx : x.isFinite = true) :
    (x.convert G).Rounds x.toRat :=
  (nearest_convert G hx).rounds hG

/-! ### Finite results -/

theorem isFinite_of_add (h : (x + y).isFinite = true) :
    x.isFinite = true ∧ y.isFinite = true := by
  change (Binary.add x y).isFinite = true at h
  cases x with
  | nan s => simp [Binary.add, isFinite] at h
  | inf s =>
      cases y with
      | inf t =>
          simp only [Binary.add] at h
          split at h <;> simp [isFinite] at h
      | _ => simp [Binary.add, isFinite] at h
  | finite s i =>
      cases y with
      | finite t j => exact ⟨rfl, rfl⟩
      | _ => simp [Binary.add, isFinite] at h

theorem isFinite_of_mul (h : (x * y).isFinite = true) :
    x.isFinite = true ∧ y.isFinite = true := by
  change (Binary.mul x y).isFinite = true at h
  cases x with
  | nan s => simp [Binary.mul, isFinite] at h
  | inf s =>
      cases y with
      | finite t j =>
          simp only [Binary.mul] at h
          split at h <;> simp [isFinite] at h
      | _ => simp [Binary.mul, isFinite] at h
  | finite s i =>
      cases y with
      | finite t j => exact ⟨rfl, rfl⟩
      | nan t => simp [Binary.mul, isFinite] at h
      | inf t =>
          simp only [Binary.mul] at h
          split at h <;> simp [isFinite] at h

theorem isFinite_of_div (h : (x / y).isFinite = true) : x.isFinite = true := by
  change (Binary.div x y).isFinite = true at h
  cases x with
  | nan s => simp [Binary.div, isFinite] at h
  | inf s => cases y <;> simp [Binary.div, isFinite] at h
  | finite s i => rfl

/-! ### Whole numbers -/

/-- **A finite number is counted up to the least natural number that is not below its value.** -/
theorem ceilUpTo_eq (hx : x.isFinite = true) (limit : ℕ) :
    x.ceilUpTo limit = min limit ⌈x.toRat⌉₊ := by
  obtain ⟨s, i, rfl⟩ := exists_of_isFinite hx
  cases s with
  | true =>
      have hneg : (finite true i).toRat ≤ 0 := by
        have hpos := F.value_nonneg i
        simpa [toRat] using hpos
      simp [ceilUpTo, Nat.ceil_eq_zero.2 hneg]
  | false =>
      have hscale : 0 < 2 ^ F.scale := Nat.two_pow_pos _
      have hceil : ⌈F.value i⌉₊ = (F.magnitude i + (2 ^ F.scale - 1)) / 2 ^ F.scale := by
        refine eq_of_forall_ge_iff fun n => ?_
        rw [Nat.ceil_le, Format.value, div_le_iff₀ (by positivity), ← Nat.lt_succ_iff,
          Nat.div_lt_iff_lt_mul hscale, Nat.succ_mul]
        constructor
        · intro hle
          have hle : F.magnitude i ≤ n * 2 ^ F.scale := by exact_mod_cast hle
          omega
        · intro hlt
          have hle : F.magnitude i ≤ n * 2 ^ F.scale := by omega
          exact_mod_cast hle
      simp [ceilUpTo, toRat, hceil]

end Binary

/-! ### Exact results -/

namespace Format

theorem overflow32 : binary32.overflow = 2 ^ 128 - 2 ^ 103 := by
  have hmid : binary32.midpoint (binary32.infIndex - 1) = (2 ^ 25 - 1) * 2 ^ 253 := by decide +kernel
  rw [overflow, hmid]
  norm_num [binary32]

theorem slack32 (r : ℚ) : binary32.slack r = r / 2 ^ 24 + 1 / 2 ^ 150 := rfl

theorem value_le_max32 (i : Fin binary32.infIndex) : binary32.value i ≤ 2 ^ 128 - 2 ^ 104 := by
  have hmono : binary32.value i ≤ binary32.value (binary32.infIndex - 1) :=
    binary32.value_strictMono.monotone (by omega)
  have hlast : binary32.magnitude (binary32.infIndex - 1) = (2 ^ 24 - 1) * 2 ^ 253 := by decide +kernel
  refine hmono.trans_eq ?_
  rw [value, hlast]
  norm_num [binary32]

/-- The whole number `n` is a number of the format: it is not rounded. -/
def Whole (F : Format) (n : ℕ) : Prop := ∃ i : Fin F.infIndex, F.magnitude i = n * 2 ^ F.scale

/-- A whole number that fits a significand is a number of a format that is large enough. -/
theorem whole_of_le {F : Format} (hF : 2 ^ (F.fracBits + 1) * 2 ^ F.scale < F.magnitude F.infIndex)
    {n : ℕ} (hn : n ≤ 2 ^ (F.fracBits + 1)) : F.Whole n := by
  obtain ⟨i, hi⟩ := F.exists_magnitude F.scale hn
  have hlt : i < F.infIndex := by
    refine F.magnitude_strictMono.lt_iff_lt.1 (lt_of_le_of_lt ?_ hF)
    rw [hi]
    exact Nat.mul_le_mul_right _ hn
  exact ⟨⟨i, hlt⟩, hi⟩

/-- The whole numbers of at most twenty-four bits are numbers of single precision. -/
theorem whole32 {n : ℕ} (hn : n ≤ 2 ^ 24) : binary32.Whole n := by
  refine whole_of_le ?_ hn
  rw [magnitude_infIndex32]
  decide +kernel

/-- The whole numbers of at most fifty-three bits are numbers of double precision. -/
theorem whole64 {n : ℕ} (hn : n ≤ 2 ^ 53) : binary64.Whole n := by
  refine whole_of_le ?_ hn
  rw [magnitude_infIndex64]
  decide +kernel

end Format

namespace Binary

theorem ofNat_of_magnitude {F : Format} {n : ℕ} {i : Fin F.infIndex}
    (hi : F.magnitude i = n * 2 ^ F.scale) : ofNat F n = finite false i := by
  have hexact := ofQuanta_magnitude false i Nat.one_pos
  rwa [Nat.mul_one, hi] at hexact

theorem abs_toRat_le_max32 {x : Binary32} (hx : x.isFinite = true) :
    |x.toRat| ≤ 2 ^ 128 - 2 ^ 104 := by
  obtain ⟨s, i, rfl⟩ := exists_of_isFinite hx
  rw [abs_toRat_finite]
  exact Format.value_le_max32 i

/-- A natural number of at most twenty-four bits is a number of single precision. -/
theorem toRat_ofNat {n : ℕ} (hn : n ≤ 2 ^ 24) :
    (ofNat Format.binary32 n).isFinite = true ∧ (ofNat Format.binary32 n).toRat = n := by
  obtain ⟨i, hi⟩ := Format.whole32 hn
  rw [ofNat_of_magnitude hi]
  refine ⟨rfl, ?_⟩
  have hvalue := Format.binary32.magnitude_eq_value i
  rw [hi] at hvalue
  push_cast at hvalue
  have hscale : (2 : ℚ) ^ Format.binary32.scale ≠ 0 := by positivity
  simpa [toRat] using (mul_right_cancel₀ hscale hvalue).symm

/-- A finite number divided by a whole number. -/
theorem div_ofNat_error {x : Binary32} (hx : x.isFinite = true) {n : ℕ} (hpos : 0 < n)
    (hn : n ≤ 2 ^ 24) :
    (x / ofNat Format.binary32 n).isFinite = true ∧
      |(x / ofNat Format.binary32 n).toRat - x.toRat / n| ≤ |x.toRat| / n / 2 ^ 24 + 1 / 2 ^ 150 := by
  obtain ⟨hfinite, hvalue⟩ := toRat_ofNat hn
  have hn0 : (0 : ℚ) < n := by exact_mod_cast hpos
  have hn1 : (1 : ℚ) ≤ n := by exact_mod_cast hpos
  have hround := rounds_div (by decide) hx hfinite (by rw [hvalue]; exact hn0.ne')
  have habs : |x.toRat / n| = |x.toRat| / n := by rw [abs_div, abs_of_pos hn0]
  rw [hvalue] at hround
  have hquotient := hround.isFinite_of_lt (by
    rw [habs, Format.overflow32]
    calc |x.toRat| / n ≤ |x.toRat| := div_le_self (abs_nonneg _) hn1
      _ ≤ 2 ^ 128 - 2 ^ 104 := abs_toRat_le_max32 hx
      _ < 2 ^ 128 - 2 ^ 103 := by norm_num)
  refine ⟨hquotient, ?_⟩
  have herror := hround.error_le hquotient
  rwa [habs, Format.slack32] at herror

theorem toRat_widen {x : Binary32} (hx : x.isFinite = true) :
    (x.convert Format.binary64).isFinite = true ∧ (x.convert Format.binary64).toRat = x.toRat := by
  obtain ⟨s, i, rfl⟩ := exists_of_isFinite hx
  obtain ⟨j, hwide, hj⟩ := exists_widen s i
  have hvalue : Format.binary64.value j = Format.binary32.value i := by
    rw [Format.value, Format.value, div_eq_div_iff (by positivity) (by positivity)]
    exact_mod_cast hj
  rw [hwide]
  refine ⟨rfl, ?_⟩
  simp only [toRat, hvalue]

end Binary

end StripeBrush
