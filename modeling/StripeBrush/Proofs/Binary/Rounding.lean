/-
**Rounding by midpoints.**

The magnitudes of a format grow with their indices, and a ratio is rounded to the index whose two
*midpoints*, half way to the magnitude below and half way to the one above, it lies between.  That
decides the rounded index, up to a ratio that is a midpoint itself.

Main definitions:

* `Format.value` — the magnitude at an index, as a rational number;
* `Format.midpoint` — the point midway between two neighbouring magnitudes, in half quanta;
* `Format.NearestSignificand` — what rounding a ratio finds in the binade of the ratio;
* `Format.RoundsTo` — a rational number is rounded to an index.

Main results:

* `Format.exists_significand` — every index is a significand in its binade;
* `Format.roundIndex_le_midpoint`, `Format.midpoint_le_roundIndex` — a ratio lies between the
  midpoints of the index that it is rounded to;
* `Format.roundIndex_eq_of_midpoints` — **strictly between two midpoints there is one index**;
* `Format.roundIndex_error` — the relative error of rounding a ratio that is not too small;
* `Format.roundsTo_of_close`, `Format.RoundsTo.of_clear` — what is close to a magnitude, or moves
  without reaching a midpoint, is rounded to it.
-/

import StripeBrush.Binary.Round
import Mathlib.Algebra.Order.Field.Basic
import Mathlib.Data.Rat.Cast.Order
import Mathlib.Order.Monotone.Basic
import Mathlib.Tactic.GCongr
import Mathlib.Tactic.Linarith
import Mathlib.Tactic.Positivity
import Mathlib.Tactic.Ring

set_option relaxedAutoImplicit false
set_option autoImplicit false

namespace StripeBrush

/-- The integer nearest to a quotient misses it by at most a half. -/
theorem roundDivEven_near (num : ℕ) {den : ℕ} (hd : 0 < den) :
    2 * roundDivEven num den * den ≤ 2 * num + den ∧
      2 * num ≤ 2 * roundDivEven num den * den + den := by
  have hdm := Nat.div_add_mod num den
  have hlt := Nat.mod_lt num hd
  simp only [roundDivEven]
  -- from here on the quotient and the remainder are any two numbers with this sum
  generalize num / den = q at hdm ⊢
  generalize num % den = r at hdm hlt ⊢
  have hq : 2 * q * den = 2 * (den * q) := by ring
  have hsucc : 2 * (q + 1) * den = 2 * (den * q) + 2 * den := by ring
  split
  · omega
  · split
    · omega
    · -- a half: the parity decides, and either neighbour is a half away
      rcases Nat.mod_two_eq_zero_or_one q with h | h
      · rw [h, Nat.add_zero]
        omega
      · rw [h]
        omega

theorem roundDivEven_error (num : ℕ) {den : ℕ} (hd : 0 < den) :
    |(roundDivEven num den : ℚ) - num / den| ≤ 1 / 2 := by
  obtain ⟨hbelow, habove⟩ := roundDivEven_near num hd
  have hd' : (0 : ℚ) < den := by exact_mod_cast hd
  have hbelow : (2 * roundDivEven num den * den : ℚ) ≤ 2 * num + den := by exact_mod_cast hbelow
  have habove : (2 * num : ℚ) ≤ 2 * roundDivEven num den * den + den := by exact_mod_cast habove
  have hx : (num : ℚ) = num / den * den := (div_mul_cancel₀ _ hd'.ne').symm
  generalize (num : ℚ) / den = x at hx ⊢
  rw [hx] at hbelow habove
  rw [abs_le]
  constructor
  · refine le_of_mul_le_mul_right ?_ hd'
    linarith
  · refine le_of_mul_le_mul_right ?_ hd'
    linarith

namespace Format

variable (F : Format)

/-! ### Significands and binades -/

/-- Every index is a significand in its binade: a significand of full length, or one of the first
binade. -/
theorem exists_significand (i : ℕ) :
    ∃ e m, i = e * 2 ^ F.fracBits + m ∧ (e = 0 ∨ 2 ^ F.fracBits ≤ m) ∧
      m < 2 ^ (F.fracBits + 1) := by
  have hp : 0 < 2 ^ F.fracBits := Nat.two_pow_pos _
  have hdm := Nat.div_add_mod i (2 ^ F.fracBits)
  have hlt := Nat.mod_lt i hp
  rw [Nat.pow_succ]
  rcases Nat.eq_zero_or_pos (i / 2 ^ F.fracBits) with h | h
  · rw [h] at hdm
    exact ⟨0, i, by omega, Or.inl rfl, by omega⟩
  · obtain ⟨e, he⟩ := Nat.exists_eq_add_of_lt h
    refine ⟨e, 2 ^ F.fracBits + i % 2 ^ F.fracBits, ?_, Or.inr (by omega), by omega⟩
    rw [he, zero_add, Nat.mul_add, Nat.mul_one, Nat.mul_comm] at hdm
    omega

/-- A significand that has carried over into the next binade counts as well. -/
theorem magnitude_add {e m : ℕ} (he : e = 0 ∨ 2 ^ F.fracBits ≤ m)
    (hm : m ≤ 2 ^ (F.fracBits + 1)) : F.magnitude (e * 2 ^ F.fracBits + m) = m * 2 ^ e := by
  rcases Nat.lt_or_eq_of_le hm with hlt | rfl
  · rcases he with rfl | he
    · simpa using F.magnitude_of_lt hlt
    · exact F.magnitude_normal he hlt
  · have hidx : e * 2 ^ F.fracBits + 2 ^ (F.fracBits + 1) =
        (e + 1) * 2 ^ F.fracBits + 2 ^ F.fracBits := by
      rw [Nat.pow_succ]
      ring
    rw [hidx, F.magnitude_normal (Nat.le_refl _) (Nat.pow_lt_pow_right (by omega) (by omega))]
    ring

theorem magnitude_succ {e m : ℕ} (he : e = 0 ∨ 2 ^ F.fracBits ≤ m)
    (hm : m < 2 ^ (F.fracBits + 1)) :
    F.magnitude (e * 2 ^ F.fracBits + m + 1) = (m + 1) * 2 ^ e := by
  rw [Nat.add_assoc]
  exact F.magnitude_add (he.imp_right fun h => by omega) (by omega)

theorem magnitude_strictMono : StrictMono F.magnitude := by
  refine strictMono_nat_of_lt_succ fun i => ?_
  obtain ⟨e, m, rfl, he, hm⟩ := F.exists_significand i
  rw [F.magnitude_add he (by omega), F.magnitude_succ he hm]
  have := Nat.two_pow_pos e
  exact Nat.mul_lt_mul_of_pos_right (Nat.lt_succ_self m) this

@[simp] theorem magnitude_zero : F.magnitude 0 = 0 :=
  F.magnitude_of_lt (Nat.two_pow_pos _)

theorem magnitude_pos {i : ℕ} (hi : 0 < i) : 0 < F.magnitude i := by
  simpa using F.magnitude_strictMono hi

theorem magnitude_infIndex32 : binary32.magnitude binary32.infIndex = 2 ^ 149 * 2 ^ 128 := by
  decide +kernel

theorem magnitude_infIndex64 : binary64.magnitude binary64.infIndex = 2 ^ 52 * 2 ^ 2046 := by
  decide +kernel

theorem exists_magnitude (e : ℕ) {m : ℕ} (hm : m ≤ 2 ^ (F.fracBits + 1)) :
    ∃ i, F.magnitude i = m * 2 ^ e := by
  induction e generalizing m with
  | zero => exact ⟨m, by simpa using F.magnitude_add (e := 0) (Or.inl rfl) hm⟩
  | succ e ih =>
      rcases Nat.lt_or_ge m (2 ^ F.fracBits) with hlt | hge
      · -- too short for its binade: the next lower one holds it doubled
        obtain ⟨i, hi⟩ := ih (m := 2 * m) (by rw [Nat.pow_succ]; omega)
        exact ⟨i, by rw [hi]; ring⟩
      · exact ⟨_, F.magnitude_add (e := e + 1) (Or.inr hge) hm⟩

/-- Two neighbouring magnitudes are at least as far apart as the last place of a full significand. -/
theorem magnitude_add_le_succ (i : ℕ) :
    F.magnitude (i + 1) + 2 ^ (F.fracBits + 1) * F.magnitude i ≤
      2 ^ (F.fracBits + 1) * F.magnitude (i + 1) := by
  obtain ⟨e, m, rfl, he, hm⟩ := F.exists_significand i
  rw [F.magnitude_add he (by omega), F.magnitude_succ he hm]
  have hlast : (m + 1) * 2 ^ e ≤ 2 ^ (F.fracBits + 1) * 2 ^ e := Nat.mul_le_mul_right _ hm
  calc (m + 1) * 2 ^ e + 2 ^ (F.fracBits + 1) * (m * 2 ^ e)
      ≤ 2 ^ (F.fracBits + 1) * 2 ^ e + 2 ^ (F.fracBits + 1) * (m * 2 ^ e) :=
        Nat.add_le_add_right hlast _
    _ = 2 ^ (F.fracBits + 1) * ((m + 1) * 2 ^ e) := by ring

theorem magnitude_succ_le {i : ℕ} (h : 2 ^ F.fracBits ≤ F.magnitude i) :
    2 ^ F.fracBits * F.magnitude (i + 1) ≤ (2 ^ F.fracBits + 1) * F.magnitude i := by
  obtain ⟨e, m, rfl, he, hm⟩ := F.exists_significand i
  rw [F.magnitude_add he (by omega)] at h ⊢
  rw [F.magnitude_succ he hm]
  have hfull : 2 ^ F.fracBits ≤ m := by
    rcases he with rfl | hfull
    · simpa using h
    · exact hfull
  calc 2 ^ F.fracBits * ((m + 1) * 2 ^ e) = (2 ^ F.fracBits * m + 2 ^ F.fracBits) * 2 ^ e := by ring
    _ ≤ (2 ^ F.fracBits * m + m) * 2 ^ e := by gcongr
    _ = (2 ^ F.fracBits + 1) * (m * 2 ^ e) := by ring

/-- The magnitude at an index, as a rational number. -/
def value (i : ℕ) : ℚ := F.magnitude i / 2 ^ F.scale

theorem magnitude_eq_value (i : ℕ) : (F.magnitude i : ℚ) = F.value i * 2 ^ F.scale :=
  (div_mul_cancel₀ _ (by positivity)).symm

variable {F} in
theorem magnitude_pos_of_value {i : ℕ} (h : 0 < F.value i) : 0 < F.magnitude i := by
  by_contra hzero
  have h0 : F.magnitude i = 0 := by omega
  rw [value, h0, Nat.cast_zero, zero_div] at h
  exact lt_irrefl _ h

theorem value_pos {i : ℕ} (hi : 0 < i) : 0 < F.value i := by
  have : (0 : ℚ) < F.magnitude i := by exact_mod_cast F.magnitude_pos hi
  rw [value]
  positivity

/-- The point midway between the magnitudes at `i` and at the next index, in half quanta. -/
def midpoint (i : ℕ) : ℕ := F.magnitude i + F.magnitude (i + 1)

theorem midpoint_eq {e m : ℕ} (he : e = 0 ∨ 2 ^ F.fracBits ≤ m) (hm : m < 2 ^ (F.fracBits + 1)) :
    F.midpoint (e * 2 ^ F.fracBits + m) = (2 * m + 1) * 2 ^ e := by
  rw [midpoint, F.magnitude_add he (by omega), F.magnitude_succ he hm]
  ring

theorem midpoint_strictMono : StrictMono F.midpoint := fun _ _ h =>
  Nat.add_lt_add (F.magnitude_strictMono h) (F.magnitude_strictMono (Nat.succ_lt_succ h))

/-! ### The rounded index -/

/-- A significand in the binade of a ratio, which misses the ratio by at most half the spacing of
that binade. -/
structure NearestSignificand (num den e m : ℕ) : Prop where
  /-- It is of full length, or in the first binade. -/
  normal : e = 0 ∨ 2 ^ F.fracBits ≤ m
  /-- It may have carried over into the next binade. -/
  short : m ≤ 2 ^ (F.fracBits + 1)
  /-- The ratio is not below its binade. -/
  binade : e = 0 ∨ 2 ^ F.fracBits * 2 ^ e * den ≤ num
  below : 2 * (m * 2 ^ e) * den ≤ 2 * num + 2 ^ e * den
  above : 2 * num ≤ 2 * (m * 2 ^ e) * den + 2 ^ e * den

/-- What rounding does: its index is that of a nearest significand. -/
theorem roundIndex_significand (num : ℕ) {den : ℕ} (hd : 0 < den) :
    ∃ e m, F.roundIndex num den = e * 2 ^ F.fracBits + m ∧ F.NearestSignificand num den e m := by
  set e := (num / den).log2 - F.fracBits with hedef
  have hde : 0 < den * 2 ^ e := Nat.mul_pos hd (Nat.two_pow_pos e)
  have hbounds := roundDivEven_bounds num (den * 2 ^ e)
  have hnear := roundDivEven_near num hde
  -- the ratio has at most as many bits as the end of its binade
  have hhi : num < 2 ^ (F.fracBits + 1) * (den * 2 ^ e) := by
    have hlog := Nat.lt_log2_self (n := num / den)
    have hexp : (num / den).log2 + 1 ≤ F.fracBits + 1 + e := by omega
    have hlt := Nat.lt_of_lt_of_le hlog (Nat.pow_le_pow_right (by omega) hexp)
    rw [Nat.div_lt_iff_lt_mul hd, Nat.pow_add] at hlt
    calc num < 2 ^ (F.fracBits + 1) * 2 ^ e * den := hlt
      _ = 2 ^ (F.fracBits + 1) * (den * 2 ^ e) := by ring
  have hlo : e = 0 ∨ 2 ^ F.fracBits * 2 ^ e * den ≤ num := by
    rcases Nat.eq_zero_or_pos e with h | h
    · exact Or.inl h
    · right
      have hne : num / den ≠ 0 := by
        intro h0
        rw [h0] at hedef
        simp at hedef
        omega
      have hle := Nat.log2_self_le hne
      have hexp : (num / den).log2 = F.fracBits + e := by omega
      rwa [hexp, Nat.pow_add, Nat.le_div_iff_mul_le hd] at hle
  refine ⟨e, roundDivEven num (den * 2 ^ e), rfl, ?_⟩
  constructor
  case normal =>
    refine hlo.imp_right fun h => Nat.le_trans ?_ hbounds.1
    rw [Nat.le_div_iff_mul_le hde]
    calc 2 ^ F.fracBits * (den * 2 ^ e) = 2 ^ F.fracBits * 2 ^ e * den := by ring
      _ ≤ num := h
  case short =>
    have := (Nat.div_lt_iff_lt_mul hde).2 hhi
    omega
  case binade => exact hlo
  case below =>
    calc 2 * (roundDivEven num (den * 2 ^ e) * 2 ^ e) * den
        = 2 * roundDivEven num (den * 2 ^ e) * (den * 2 ^ e) := by ring
      _ ≤ 2 * num + den * 2 ^ e := hnear.1
      _ = 2 * num + 2 ^ e * den := by ring
  case above =>
    calc 2 * num ≤ 2 * roundDivEven num (den * 2 ^ e) * (den * 2 ^ e) + den * 2 ^ e := hnear.2
      _ = 2 * (roundDivEven num (den * 2 ^ e) * 2 ^ e) * den + 2 ^ e * den := by ring

/-- Only the ratio counts, not how it is written. -/
theorem roundIndex_mul_right (num den : ℕ) {c : ℕ} (hc : 0 < c) :
    F.roundIndex (num * c) (den * c) = F.roundIndex num den := by
  have hround : ∀ d, roundDivEven (num * c) (d * c) = roundDivEven num d := by
    intro d
    have hlt : 2 * (num % d * c) < d * c ↔ 2 * (num % d) < d := by
      rw [← Nat.mul_assoc, Nat.mul_lt_mul_right hc]
    have hgt : d * c < 2 * (num % d * c) ↔ d < 2 * (num % d) := by
      rw [← Nat.mul_assoc, Nat.mul_lt_mul_right hc]
    simp only [roundDivEven, Nat.mul_div_mul_right _ _ hc, Nat.mul_mod_mul_right, hlt, hgt]
  simp only [roundIndex, Nat.mul_div_mul_right _ _ hc, Nat.mul_right_comm den c, hround]

theorem roundIndex_congr {num den num' den' : ℕ} (hd : 0 < den) (hd' : 0 < den')
    (h : num * den' = num' * den) : F.roundIndex num den = F.roundIndex num' den' := by
  rw [← F.roundIndex_mul_right num den hd', h, Nat.mul_comm den,
    F.roundIndex_mul_right num' den' hd]

/-- A ratio is at most the midpoint above the index that it is rounded to. -/
theorem roundIndex_le_midpoint (num : ℕ) {den : ℕ} (hd : 0 < den) :
    2 * num ≤ F.midpoint (F.roundIndex num den) * den := by
  obtain ⟨e, m, hidx, he, hm, -, -, habove⟩ := F.roundIndex_significand num hd
  have hmid : (2 * m + 1) * 2 ^ e ≤ F.midpoint (F.roundIndex num den) := by
    rw [hidx]
    rcases Nat.lt_or_eq_of_le hm with hlt | heq
    · rw [F.midpoint_eq he hlt]
    · -- carried over: the spacing above is that of the next binade
      have hidx' : e * 2 ^ F.fracBits + m = (e + 1) * 2 ^ F.fracBits + 2 ^ F.fracBits := by
        rw [heq, Nat.pow_succ]
        ring
      rw [hidx', F.midpoint_eq (Or.inr (Nat.le_refl _)) (Nat.pow_lt_pow_right (by omega) (by omega)),
        heq, Nat.pow_succ, Nat.pow_succ]
      have := Nat.two_pow_pos e
      nlinarith
  calc 2 * num ≤ 2 * (m * 2 ^ e) * den + 2 ^ e * den := habove
    _ = (2 * m + 1) * 2 ^ e * den := by ring
    _ ≤ F.midpoint (F.roundIndex num den) * den := Nat.mul_le_mul_right _ hmid

/-- A ratio is at least the midpoint below the index that it is rounded to. -/
theorem midpoint_le_roundIndex {num den i : ℕ} (hd : 0 < den)
    (hi : F.roundIndex num den = i + 1) : F.midpoint i * den ≤ 2 * num := by
  obtain ⟨e, m, hidx, he, hm, hlo, hbelow, -⟩ := F.roundIndex_significand num hd
  have hmag : F.magnitude (i + 1) = m * 2 ^ e := by
    rw [← hi, hidx, F.magnitude_add he hm]
  have hlt : F.magnitude i < F.magnitude (i + 1) := F.magnitude_strictMono (Nat.lt_succ_self i)
  by_cases hfull : e = 0 ∨ 2 ^ F.fracBits < m
  · -- the spacing below is that of the binade itself
    have hm0 : 0 < m := by
      rcases Nat.eq_zero_or_pos m with rfl | h
      · rw [hmag, Nat.zero_mul] at hlt
        omega
      · exact h
    have hprev : F.magnitude i = (m - 1) * 2 ^ e := by
      have hi' : i = e * 2 ^ F.fracBits + (m - 1) := by omega
      rw [hi', F.magnitude_add (hfull.imp_right fun h => by omega) (by omega)]
    obtain ⟨n, rfl⟩ : ∃ n, m = n + 1 := ⟨m - 1, by omega⟩
    rw [Nat.add_sub_cancel] at hprev
    rw [midpoint, hmag, hprev]
    have hsplit : (n * 2 ^ e + (n + 1) * 2 ^ e) * den + 2 ^ e * den =
        2 * ((n + 1) * 2 ^ e) * den := by ring
    omega
  · -- the first number of a binade: the ratio is not below it
    have hmin : m = 2 ^ F.fracBits := by omega
    have hge : 2 ^ F.fracBits * 2 ^ e * den ≤ num := by omega
    calc F.midpoint i * den ≤ 2 * F.magnitude (i + 1) * den := by
          refine Nat.mul_le_mul_right _ ?_
          rw [midpoint]
          omega
      _ = 2 * (2 ^ F.fracBits * 2 ^ e * den) := by rw [hmag, hmin]; ring
      _ ≤ 2 * num := by omega

/-- **Strictly between two midpoints there is one index.** -/
theorem roundIndex_eq_of_midpoints {num den i : ℕ} (hd : 0 < den)
    (hbelow : F.midpoint i * den < 2 * num) (habove : 2 * num < F.midpoint (i + 1) * den) :
    F.roundIndex num den = i + 1 := by
  have hle := F.roundIndex_le_midpoint num hd
  rcases Nat.lt_trichotomy (F.roundIndex num den) (i + 1) with hlt | heq | hgt
  · have hmono := F.midpoint_strictMono.monotone (Nat.le_of_lt_succ hlt)
    have := Nat.mul_le_mul_right den hmono
    omega
  · exact heq
  · obtain ⟨j, hj⟩ : ∃ j, F.roundIndex num den = j + 1 := ⟨_, (Nat.succ_pred (by omega)).symm⟩
    have hge := F.midpoint_le_roundIndex hd hj
    have hmono := F.midpoint_strictMono.monotone (show i + 1 ≤ j by omega)
    have := Nat.mul_le_mul_right den hmono
    omega

/-! ### The error of rounding -/

/-- The magnitude at the rounded index misses the ratio by no more than a part in
`2 ^ (fracBits + 1)`, where the ratio is long enough to fill a significand. -/
theorem roundIndex_error {num den : ℕ} (hd : 0 < den) (hlong : 2 ^ F.fracBits * den ≤ num) :
    |(F.magnitude (F.roundIndex num den) : ℚ) - num / den| ≤ num / den / 2 ^ (F.fracBits + 1) := by
  obtain ⟨e, m, hidx, he, hm, hlo, hbelow, habove⟩ := F.roundIndex_significand num hd
  have hspace : 2 ^ F.fracBits * (2 ^ e * den) ≤ num := by
    rcases hlo with rfl | h
    · simpa using hlong
    · rwa [← Nat.mul_assoc]
  rw [hidx, F.magnitude_add he hm]
  have hd' : (0 : ℚ) < den := by exact_mod_cast hd
  have hbelow' : 2 * ((m * 2 ^ e : ℕ) : ℚ) * den ≤ 2 * num + 2 ^ e * den := by exact_mod_cast hbelow
  have habove' : (2 * num : ℚ) ≤ 2 * ((m * 2 ^ e : ℕ) : ℚ) * den + 2 ^ e * den := by
    exact_mod_cast habove
  have hspace' : (2 : ℚ) ^ F.fracBits * (2 ^ e * den) ≤ num := by exact_mod_cast hspace
  have hhalf : (2 : ℚ) ^ e * den / 2 ≤ num / 2 ^ (F.fracBits + 1) := by
    rw [le_div_iff₀ (by positivity), pow_succ]
    linarith
  have hdist : |((m * 2 ^ e : ℕ) : ℚ) * den - num| ≤ num / 2 ^ (F.fracBits + 1) := by
    rw [abs_le]
    constructor <;> linarith
  calc |((m * 2 ^ e : ℕ) : ℚ) - num / den| = |((m * 2 ^ e : ℕ) : ℚ) * den - num| / den := by
        rw [← abs_of_pos hd', ← abs_div, abs_of_pos hd', sub_div, mul_div_cancel_right₀ _ hd'.ne']
    _ ≤ num / 2 ^ (F.fracBits + 1) / den := by gcongr
    _ = num / den / 2 ^ (F.fracBits + 1) := by ring

/-! ### Rounding rational numbers -/

/-- A rational number is rounded to the magnitude at an index. -/
def RoundsTo (x : ℚ) (i : ℕ) : Prop :=
  ∃ num den : ℕ, 0 < den ∧ (num : ℚ) / den = x * 2 ^ F.scale ∧ F.roundIndex num den = i

variable {F} {x y : ℚ} {i j : ℕ}

theorem exists_ratio (hx : 0 ≤ x) : ∃ num den : ℕ, 0 < den ∧ (num : ℚ) / den = x := by
  refine ⟨x.num.toNat, x.den, x.den_pos, ?_⟩
  have hnum : ((x.num.toNat : ℤ) : ℚ) = x.num := by
    rw [Int.toNat_of_nonneg (Rat.num_nonneg.2 hx)]
  rw [Int.cast_natCast] at hnum
  rw [hnum, Rat.num_div_den]

theorem RoundsTo.unique (hi : F.RoundsTo x i) (hj : F.RoundsTo x j) : i = j := by
  obtain ⟨num, den, hd, hratio, rfl⟩ := hi
  obtain ⟨num', den', hd', hratio', rfl⟩ := hj
  have hq : (den : ℚ) ≠ 0 := by exact_mod_cast hd.ne'
  have hq' : (den' : ℚ) ≠ 0 := by exact_mod_cast hd'.ne'
  rw [← hratio', div_eq_div_iff hq hq'] at hratio
  exact F.roundIndex_congr hd hd' (by exact_mod_cast hratio)

theorem RoundsTo.le_midpoint (h : F.RoundsTo x i) : 2 * (x * 2 ^ F.scale) ≤ F.midpoint i := by
  obtain ⟨num, den, hd, hratio, rfl⟩ := h
  have hd' : (0 : ℚ) < den := by exact_mod_cast hd
  rw [← hratio, ← mul_div_assoc, div_le_iff₀ hd']
  exact_mod_cast F.roundIndex_le_midpoint num hd

theorem RoundsTo.midpoint_le (h : F.RoundsTo x (i + 1)) :
    F.midpoint i ≤ 2 * (x * 2 ^ F.scale) := by
  obtain ⟨num, den, hd, hratio, hround⟩ := h
  have hd' : (0 : ℚ) < den := by exact_mod_cast hd
  rw [← hratio, ← mul_div_assoc, le_div_iff₀ hd']
  exact_mod_cast F.midpoint_le_roundIndex hd hround

theorem roundsTo_of_midpoints (hbelow : F.midpoint i < 2 * (x * 2 ^ F.scale))
    (habove : 2 * (x * 2 ^ F.scale) < F.midpoint (i + 1)) : F.RoundsTo x (i + 1) := by
  have hmid : (0 : ℚ) ≤ F.midpoint i := Nat.cast_nonneg _
  obtain ⟨num, den, hd, hratio⟩ := exists_ratio (x := x * 2 ^ F.scale) (by linarith)
  have hd' : (0 : ℚ) < den := by exact_mod_cast hd
  refine ⟨num, den, hd, hratio, F.roundIndex_eq_of_midpoints hd ?_ ?_⟩
  · rw [← hratio, ← mul_div_assoc, lt_div_iff₀ hd'] at hbelow
    exact_mod_cast hbelow
  · rw [← hratio, ← mul_div_assoc, div_lt_iff₀ hd'] at habove
    exact_mod_cast habove

/-- A number much closer to a magnitude than its neighbours are is rounded to it. -/
theorem roundsTo_of_close (hi : 0 < i)
    (hclose : |x - F.value i| < F.value i / 2 ^ (F.fracBits + 2)) : F.RoundsTo x i := by
  obtain ⟨j, rfl⟩ : ∃ j, i = j + 1 := ⟨i - 1, by omega⟩
  have hscale : (0 : ℚ) < 2 ^ F.scale := by positivity
  have hp : (0 : ℚ) < 2 ^ (F.fracBits + 1) := by positivity
  have hgap : (F.magnitude (j + 1) : ℚ) + 2 ^ (F.fracBits + 1) * F.magnitude j ≤
      2 ^ (F.fracBits + 1) * F.magnitude (j + 1) := by exact_mod_cast F.magnitude_add_le_succ j
  have hgap' : (F.magnitude (j + 1 + 1) : ℚ) + 2 ^ (F.fracBits + 1) * F.magnitude (j + 1) ≤
      2 ^ (F.fracBits + 1) * F.magnitude (j + 1 + 1) := by
    exact_mod_cast F.magnitude_add_le_succ (j + 1)
  have hmono : (F.magnitude (j + 1) : ℚ) ≤ F.magnitude (j + 1 + 1) := by
    exact_mod_cast F.magnitude_strictMono.monotone (Nat.le_succ _)
  -- a quarter of the gap, in quanta
  have hquanta : |x * 2 ^ F.scale - F.magnitude (j + 1)| <
      F.magnitude (j + 1) / 2 ^ (F.fracBits + 2) := by
    rw [magnitude_eq_value, ← sub_mul, abs_mul, abs_of_pos hscale, mul_div_right_comm]
    exact mul_lt_mul_of_pos_right hclose hscale
  have hwide : (F.magnitude (j + 1) : ℚ) / 2 ^ (F.fracBits + 2) * (2 * 2 ^ (F.fracBits + 1)) =
      F.magnitude (j + 1) := by
    rw [← pow_succ', div_mul_cancel₀ _ (by positivity)]
  obtain ⟨hlo, hhi⟩ := abs_lt.1 hquanta
  generalize (F.magnitude (j + 1) : ℚ) / 2 ^ (F.fracBits + 2) = w at hwide hlo hhi
  refine roundsTo_of_midpoints ?_ ?_
  · refine lt_of_mul_lt_mul_left ?_ hp.le
    rw [midpoint]
    push_cast
    nlinarith
  · refine lt_of_mul_lt_mul_left ?_ hp.le
    rw [midpoint]
    push_cast
    nlinarith

/-- A number that is off by less than its distance to the midpoints around is rounded to the same
index. -/
theorem RoundsTo.of_clear (h : F.RoundsTo x (i + 1)) {ε : ℚ} (hdist : |y - x| ≤ ε)
    (hbelow : 2 * (ε * 2 ^ F.scale) < |2 * (x * 2 ^ F.scale) - F.midpoint i|)
    (habove : 2 * (ε * 2 ^ F.scale) < |2 * (x * 2 ^ F.scale) - F.midpoint (i + 1)|) :
    F.RoundsTo y (i + 1) := by
  have hscale : (0 : ℚ) < 2 ^ F.scale := by positivity
  have hlo := h.midpoint_le
  have hhi := h.le_midpoint
  -- the number is between the midpoints, so that each distance has a known sign
  rw [abs_of_nonneg (by linarith)] at hbelow
  rw [abs_of_nonpos (by linarith)] at habove
  obtain ⟨hleft, hright⟩ := abs_le.1 hdist
  have hleft := mul_le_mul_of_nonneg_right hleft hscale.le
  have hright := mul_le_mul_of_nonneg_right hright hscale.le
  exact roundsTo_of_midpoints (by linarith) (by linarith)

end Format

end StripeBrush
