/-
**Shortest digits survive double precision.**

The shortest digits of a single precision number are read in double precision and narrowed.  Three
things can happen.  The digits are nine, and so close to their number that an error in the last
places of a double does not matter.  Or they are at most eight and not next to a midpoint, so that
the error does not cross it.  Or they are next to a midpoint; then they are the midpoint itself,
which is read without an error, or they are among the few that are known.

Main results:

* `Format.RoundsTo.bounds` — how large the decimals of finite numbers are;
* `TieWindow.near_of_close` — a decimal next to a midpoint, in terms of its window;
* `Format.IsShortest.narrowsTo_readDouble` — **the shortest digits of every number read back through
  double precision**.
-/

import StripeBrush.Proofs.Decimal.Midpoints
import StripeBrush.Proofs.Decimal.Shortest
import StripeBrush.Proofs.Json.Scaling

set_option relaxedAutoImplicit false
set_option autoImplicit false

namespace StripeBrush

namespace Format

variable {i j : ℕ} {s : Scientific}

/-! ### Sizes -/

/-- What is rounded to a positive finite number is not below half a quantum, nor above the end of the
format. -/
theorem RoundsTo.bounds {x : ℚ} (h : binary32.RoundsTo x i) (hi : 0 < i)
    (hfin : i < binary32.infIndex) : 1 / 2 ^ 150 ≤ x ∧ x ≤ 2 ^ 128 := by
  obtain ⟨j, rfl⟩ : ∃ j, i = j + 1 := ⟨i - 1, by omega⟩
  have hlo : (binary32.midpoint j : ℚ) ≤ 2 * (x * 2 ^ 149) := h.midpoint_le
  have hhi : 2 * (x * 2 ^ 149) ≤ (binary32.midpoint (j + 1) : ℚ) := h.le_midpoint
  have hone : 1 ≤ binary32.midpoint j := by
    have : 0 < binary32.magnitude (j + 1) := binary32.magnitude_pos (Nat.succ_pos j)
    rw [midpoint]
    omega
  have hend : binary32.midpoint (j + 1) ≤ 2 * (2 ^ 149 * 2 ^ 128) := by
    have h1 := binary32.magnitude_strictMono.monotone hfin.le
    have h2 := binary32.magnitude_strictMono.monotone (show j + 1 + 1 ≤ _ from hfin)
    rw [magnitude_infIndex32] at h1 h2
    rw [midpoint]
    omega
  have hone : (1 : ℚ) ≤ binary32.midpoint j := by exact_mod_cast hone
  have hend : (binary32.midpoint (j + 1) : ℚ) ≤ 2 * (2 ^ 149 * 2 ^ 128) := by exact_mod_cast hend
  constructor <;> linarith

theorem zpow_ten_lt_iff {a b : ℤ} : (10 : ℚ) ^ a < 10 ^ b ↔ a < b :=
  zpow_lt_zpow_iff_right₀ (by norm_num)

/-- A power of ten with a significand, between the bounds of single precision. -/
theorem power_bounds {n : ℕ} {p : ℤ} {lo hi : ℕ} (hlo : 10 ^ lo ≤ n) (hhi : n ≤ 10 ^ hi)
    (hsmall : 1 / 2 ^ 150 ≤ n * (10 : ℚ) ^ p) (hlarge : n * (10 : ℚ) ^ p ≤ 2 ^ 128) :
    -46 < p + hi ∧ p + lo < 39 := by
  have hten : (0 : ℚ) < (10 : ℚ) ^ p := by positivity
  have h10 : (10 : ℚ) ≠ 0 := by norm_num
  constructor
  · rw [← zpow_ten_lt_iff, zpow_add₀ h10, zpow_natCast]
    have hn : (n : ℚ) ≤ 10 ^ hi := by exact_mod_cast hhi
    calc (10 : ℚ) ^ (-46 : ℤ) < 1 / 2 ^ 150 := by norm_num
      _ ≤ n * (10 : ℚ) ^ p := hsmall
      _ ≤ 10 ^ hi * (10 : ℚ) ^ p := by gcongr
      _ = (10 : ℚ) ^ p * 10 ^ hi := mul_comm _ _
  · rw [← zpow_ten_lt_iff, zpow_add₀ h10, zpow_natCast]
    have hn : (10 : ℚ) ^ lo ≤ n := by exact_mod_cast hlo
    calc (10 : ℚ) ^ p * 10 ^ lo ≤ (10 : ℚ) ^ p * n := by gcongr
      _ = n * (10 : ℚ) ^ p := mul_comm _ _
      _ ≤ 2 ^ 128 := hlarge
      _ < (10 : ℚ) ^ (39 : ℤ) := by norm_num

/-- Two ways to write a number, the second one with eight digits. -/
theorem power_near {n d : ℕ} {p k : ℤ} (hn : 0 < n) (hn9 : n ≤ 10 ^ 9)
    (hd : 10 ^ 7 ≤ d ∧ d < 10 ^ 8) (heq : n * (10 : ℚ) ^ p = d * (10 : ℚ) ^ k) :
    k - 2 ≤ p ∧ p < k + 8 := by
  have h10 : (10 : ℚ) ≠ 0 := by norm_num
  have hp : (0 : ℚ) < (10 : ℚ) ^ p := by positivity
  have hk : (0 : ℚ) < (10 : ℚ) ^ k := by positivity
  have hn1 : (1 : ℚ) ≤ n := by exact_mod_cast hn
  have hn9 : (n : ℚ) ≤ 10 ^ 9 := by exact_mod_cast hn9
  have hd7 : (10 : ℚ) ^ 7 ≤ d := by exact_mod_cast hd.1
  have hd8 : (d : ℚ) < 10 ^ 8 := by exact_mod_cast hd.2
  constructor
  · have hlt : (10 : ℚ) ^ (k + 6) < (10 : ℚ) ^ (p + 9) := by
      rw [zpow_add₀ h10, zpow_add₀ h10]
      calc (10 : ℚ) ^ k * 10 ^ (6 : ℤ) < (10 : ℚ) ^ k * d := by
            refine mul_lt_mul_of_pos_left (lt_of_lt_of_le ?_ hd7) hk
            norm_num
        _ = n * (10 : ℚ) ^ p := by rw [heq, mul_comm]
        _ ≤ 10 ^ 9 * (10 : ℚ) ^ p := by gcongr
        _ = (10 : ℚ) ^ p * 10 ^ (9 : ℤ) := mul_comm _ _
    have := zpow_ten_lt_iff.1 hlt
    omega
  · rw [← zpow_ten_lt_iff, zpow_add₀ h10]
    calc (10 : ℚ) ^ p = 1 * (10 : ℚ) ^ p := (one_mul _).symm
      _ ≤ n * (10 : ℚ) ^ p := by gcongr
      _ = (10 : ℚ) ^ k * d := by rw [heq, mul_comm]
      _ < (10 : ℚ) ^ k * 10 ^ (8 : ℤ) := mul_lt_mul_of_pos_left hd8 hk

theorem IsShortest.power_bounds (hs : binary32.IsShortest s i) (hi : 0 < i)
    (hfin : i < binary32.infIndex) : -46 < s.power + 9 ∧ s.power < 39 := by
  obtain ⟨hsmall, hlarge⟩ := hs.roundsTo.bounds hi hfin
  have hpos : 10 ^ 0 ≤ s.significand := hs.printed.significand_pos
  simpa using Format.power_bounds hpos (hs.significand_le hi) hsmall hlarge

theorem IsShortest.exponent_le (hs : binary32.IsShortest s i) (hi : 0 < i)
    (hfin : i < binary32.infIndex) : s.exponent.natAbs ≤ 100 := by
  obtain ⟨hlo, hhi⟩ := hs.power_bounds hi hfin
  have hlen := (hs.length_le_eight_or_close hi).1
  rw [Scientific.power] at hlo hhi
  omega

end Format

namespace TieWindow

/-! ### Windows in rational numbers -/

theorem pow_ten_toNat (k : ℤ) : (10 : ℚ) ^ k.toNat = (10 : ℚ) ^ k * 10 ^ (-k).toNat := by
  rw [← zpow_natCast, ← zpow_natCast, ← zpow_add₀ (by norm_num)]
  congr 1
  omega

theorem decimalStep_cast (w : TieWindow) :
    (w.decimalStep : ℚ) = (10 : ℚ) ^ w.power * 2 ^ 150 * 10 ^ (-w.power).toNat := by
  rw [decimalStep]
  push_cast
  rw [pow_ten_toNat]
  ring

/-- The difference in half quanta, but for the common factor of both steps. -/
theorem excess_cast (w : TieWindow) (d m : ℕ) :
    (w.excess d (2 * m + 1) : ℚ) =
      (d * (10 : ℚ) ^ w.power * 2 ^ 150 - (2 * m + 1) * 2 ^ w.binade) * 10 ^ (-w.power).toNat := by
  have hstep := w.decimalStep_cast
  rw [excess, midpointStep]
  push_cast
  rw [hstep]
  ring

/-- A decimal next to a midpoint, in terms of its window. -/
theorem near_of_close {w : TieWindow} {d m : ℕ} (hd : 10 ^ 7 ≤ d ∧ d < 10 ^ 8)
    (hfull : w.binade = 0 ∨ 2 ^ 23 ≤ m) (hshort : m < 2 ^ 24)
    (hclose : |2 * (d * (10 : ℚ) ^ w.power * 2 ^ 149) - (2 * m + 1) * 2 ^ w.binade| ≤
      2 * (d * (10 : ℚ) ^ w.power / 2 ^ 51 * 2 ^ 149)) :
    w.Near d m := by
  refine ⟨hd, hfull, hshort, ?_⟩
  have hpos : (0 : ℚ) < 10 ^ (-w.power).toNat := by positivity
  have hscaled := mul_le_mul_of_nonneg_right hclose hpos.le
  have hexcess : |(w.excess d (2 * m + 1) : ℚ)| =
      |2 * (d * (10 : ℚ) ^ w.power * 2 ^ 149) - (2 * m + 1) * 2 ^ w.binade| *
        10 ^ (-w.power).toNat := by
    rw [excess_cast, abs_mul, abs_of_pos hpos]
    congr 2
    ring
  have hle : (2 ^ 51 * |w.excess d (2 * m + 1)| : ℚ) ≤ d * w.decimalStep := by
    rw [Int.cast_abs, hexcess, decimalStep_cast]
    calc 2 ^ 51 * (|2 * (d * (10 : ℚ) ^ w.power * 2 ^ 149) - (2 * m + 1) * 2 ^ w.binade| *
          10 ^ (-w.power).toNat)
        ≤ 2 ^ 51 * (2 * (d * (10 : ℚ) ^ w.power / 2 ^ 51 * 2 ^ 149) * 10 ^ (-w.power).toNat) := by
          gcongr
      _ = d * ((10 : ℚ) ^ w.power * 2 ^ 150 * 10 ^ (-w.power).toNat) := by ring
  exact_mod_cast hle

/-- No difference: the decimal is the midpoint. -/
theorem eq_of_excess_eq_zero {w : TieWindow} {d m : ℕ} (h : w.excess d (2 * m + 1) = 0) :
    d * (10 : ℚ) ^ w.power * 2 ^ 150 = (2 * m + 1) * 2 ^ w.binade := by
  have hcast := w.excess_cast d m
  rw [h, Int.cast_zero, eq_comm, mul_eq_zero] at hcast
  rcases hcast with hcast | hcast
  · exact sub_eq_zero.1 hcast
  · exact absurd hcast (by positivity)

end TieWindow

namespace Format

variable {i : ℕ} {j : Fin binary64.infIndex} {s : Scientific} {D : ℚ}

/-! ### From a double to a single -/

theorem convert_finite (F G : Format) (neg : Bool) (i : Fin F.infIndex) :
    (Binary.finite neg i).convert G =
      Binary.ofIndex G neg (G.roundIndex (F.magnitude i * 2 ^ G.scale) (2 ^ F.scale)) :=
  rfl

theorem narrowsTo_eq_true_iff (i : ℕ) (x : Binary64) :
    narrowsTo i x = true ↔ x.convert binary32 = Binary.ofIndex binary32 false i :=
  decide_eq_true_iff

theorem narrowsTo_of_roundsTo {x : Binary64} (hx : x = .finite false j)
    (h : binary32.RoundsTo (binary64.value j) i) : narrowsTo i x = true := by
  have hratio : ((binary64.magnitude j * 2 ^ binary32.scale : ℕ) : ℚ) / (2 ^ binary64.scale : ℕ) =
      binary64.value j * 2 ^ binary32.scale := by
    push_cast
    rw [value, div_mul_eq_mul_div]
  have hself : binary32.RoundsTo (binary64.value j) _ := ⟨_, _, Nat.two_pow_pos _, hratio, rfl⟩
  rw [narrowsTo_eq_true_iff, hx, convert_finite, hself.unique h]

/-- The double that is read, where the digits are close to the number itself. -/
theorem roundsTo_of_nine (hi : 0 < i) (hclose : |binary64.value j - D| ≤ D / 2 ^ 51)
    (hD : |D - binary32.value i| ≤ binary32.value i / 2 ^ 27) :
    binary32.RoundsTo (binary64.value j) i := by
  refine roundsTo_of_close hi ?_
  change _ < binary32.value i / 2 ^ 25
  have hpos := binary32.value_pos hi
  have hDhi := (abs_le.1 hD).2
  calc |binary64.value j - binary32.value i|
      ≤ |binary64.value j - D| + |D - binary32.value i| := abs_sub_le _ _ _
    _ ≤ D / 2 ^ 51 + binary32.value i / 2 ^ 27 := add_le_add hclose hD
    _ < binary32.value i / 2 ^ 25 := by linarith

/-- Eight digits next to a midpoint are the midpoint, or they are known. -/
theorem midpoint_or_known {d n : ℕ} {k : ℤ} (hd : 10 ^ 7 ≤ d ∧ d < 10 ^ 8)
    (hk : -54 ≤ k ∧ k ≤ 32) (hn : n < binary32.infIndex)
    (hnear : |2 * (d * (10 : ℚ) ^ k * 2 ^ 149) - binary32.midpoint n| ≤
      2 * (d * (10 : ℚ) ^ k / 2 ^ 51 * 2 ^ 149)) :
    (k.natAbs ≤ 14 ∧ ∃ h b : ℕ, h ≤ 2 ^ 53 ∧ d * (10 : ℚ) ^ k * 2 ^ 150 = h * 2 ^ b) ∨
      known k d = true := by
  obtain ⟨e, m, rfl, hfull, hshort⟩ := binary32.exists_significand n
  have hmid : (binary32.midpoint (e * 2 ^ 23 + m) : ℚ) = (2 * m + 1) * 2 ^ e := by
    exact_mod_cast binary32.midpoint_eq hfull hshort
  have hshort : m < 2 ^ 24 := hshort
  have hfull : e = 0 ∨ 2 ^ 23 ≤ m := hfull
  have hn : e * 2 ^ 23 + m < 255 * 2 ^ 23 := hn
  change |_ - (binary32.midpoint (e * 2 ^ 23 + m) : ℚ)| ≤ _ at hnear
  rw [hmid] at hnear
  have hw : TieWindow.Near ⟨k, e⟩ d m := TieWindow.near_of_close hd hfull hshort hnear
  rcases hw.exact_or_known hk.1 hk.2 (show e < 254 by omega) with ⟨hpower, hzero⟩ | hknown
  · refine Or.inl ⟨hpower, 2 * m + 1, e, by omega, ?_⟩
    rw [TieWindow.eq_of_excess_eq_zero hzero]
    push_cast
    rfl
  · exact Or.inr hknown

/-- What becomes of eight digits that are read in double precision: they are a midpoint, or they are
known, or the error does no harm. -/
theorem eight_digits_cases {d : ℕ} {k : ℤ} (hd : 10 ^ 7 ≤ d ∧ d < 10 ^ 8)
    (hk : -54 ≤ k ∧ k ≤ 32) (hi : 0 < i) (hfin : i < binary32.infIndex)
    (hround : binary32.RoundsTo (d * (10 : ℚ) ^ k) i)
    (hclose : |binary64.value j - d * (10 : ℚ) ^ k| ≤ d * (10 : ℚ) ^ k / 2 ^ 51) :
    (k.natAbs ≤ 14 ∧ ∃ h b : ℕ, h ≤ 2 ^ 53 ∧ d * (10 : ℚ) ^ k * 2 ^ 150 = h * 2 ^ b) ∨
      known k d = true ∨ binary32.RoundsTo (binary64.value j) i := by
  obtain ⟨l, rfl⟩ : ∃ l, i = l + 1 := ⟨i - 1, by omega⟩
  rcases lt_or_ge (2 * (d * (10 : ℚ) ^ k / 2 ^ 51 * 2 ^ 149))
    |2 * (d * (10 : ℚ) ^ k * 2 ^ 149) - binary32.midpoint l| with hbelow | hbelow
  · -- clear of the midpoint below: look at the one above
    rcases lt_or_ge (2 * (d * (10 : ℚ) ^ k / 2 ^ 51 * 2 ^ 149))
      |2 * (d * (10 : ℚ) ^ k * 2 ^ 149) - binary32.midpoint (l + 1)| with habove | habove
    · exact Or.inr (Or.inr (hround.of_clear hclose hbelow habove))
    · exact (midpoint_or_known hd hk hfin habove).imp_right Or.inl
  · exact (midpoint_or_known hd hk (by omega) hbelow).imp_right Or.inl

/-! ### Decimals that are known -/

theorem miss_cast (k : ℤ) (i d : ℕ) :
    (miss k i d : ℚ) = |d * (10 : ℚ) ^ k - binary32.value i| * (2 ^ 149 * 10 ^ (-k).toNat) := by
  have hpos : (0 : ℚ) < 2 ^ 149 * 10 ^ (-k).toNat := by positivity
  have hscale : binary32.value i * 2 ^ 149 = binary32.magnitude i :=
    (binary32.magnitude_eq_value i).symm
  have hdiff : (d * (10 : ℚ) ^ k - binary32.value i) * (2 ^ 149 * 10 ^ (-k).toNat) =
      d * ((10 : ℚ) ^ k.toNat * 2 ^ 149) - binary32.magnitude i * 10 ^ (-k).toNat := by
    rw [TieWindow.pow_ten_toNat k, ← hscale]
    ring
  rw [← abs_of_pos hpos, ← abs_mul, hdiff, miss, Nat.cast_natAbs, Int.cast_abs]
  push_cast
  rfl

theorem IsShortest.decimalIndex_eq (hs : binary32.IsShortest s i) {d : ℕ} {k : ℤ}
    (hval : d * (10 : ℚ) ^ k = s.value) : binary32.decimalIndex d k = i := by
  rw [decimalIndex_eq_iff, hval]
  exact hs.roundsTo

/-- Nothing that is as short is nearer than what is printed. -/
theorem IsShortest.not_surpassed (hs : binary32.IsShortest s i) {d : ℕ} {k : ℤ} (hd : 10 ^ 7 ≤ d)
    (hval : d * (10 : ℚ) ^ k = s.value) : surpassed k d = false := by
  have hpos : 0 < d := by omega
  rw [Bool.eq_false_iff]
  intro hsurpassed
  simp only [surpassed, hs.decimalIndex_eq hval, List.any_eq_true, Bool.and_eq_true, beq_iff_eq,
    decide_eq_true_eq] at hsurpassed
  obtain ⟨d', hd', ⟨hindex, hlength⟩, hmiss⟩ := hsurpassed
  have hpos' : 0 < d' := by
    simp only [List.mem_cons, List.not_mem_nil, or_false] at hd'
    omega
  have hround := binary32.decimalIndex_eq_iff.1 hindex
  rw [← Scientific.value_ofGrid] at hround
  have hnear := hs.nearest _ (Scientific.printed_ofGrid k hpos') hround
    (by rw [hlength, hs.eq_ofGrid hpos hval])
  rw [Scientific.value_ofGrid, ← hval] at hnear
  have hmiss : (miss k i d' : ℚ) < miss k i d := by exact_mod_cast hmiss
  rw [miss_cast, miss_cast] at hmiss
  exact absurd (lt_of_mul_lt_mul_right hmiss (by positivity)) (not_lt.2 hnear)

theorem IsShortest.narrowsTo_of_known (hs : binary32.IsShortest s i) {d : ℕ} {k : ℤ}
    (hd : 10 ^ 7 ≤ d) (hval : d * (10 : ℚ) ^ k = s.value) (hknown : known k d = true) :
    narrowsTo i s.readDouble = true := by
  rw [known, hs.not_surpassed hd hval, Bool.or_false, readsBack, hs.decimalIndex_eq hval] at hknown
  rwa [hs.eq_ofGrid (by omega) hval]

/-- A midpoint is a number in double precision, and its digits are read without an error. -/
theorem IsShortest.narrowsTo_of_midpoint (hs : binary32.IsShortest s i) (hi : 0 < i) {d h b : ℕ}
    {k : ℤ} (hd : 10 ^ 7 ≤ d ∧ d < 10 ^ 8) (hval : d * (10 : ℚ) ^ k = s.value)
    (hk : k.natAbs ≤ 14) (hh : h ≤ 2 ^ 53) (hmid : d * (10 : ℚ) ^ k * 2 ^ 150 = h * 2 ^ b) :
    narrowsTo i s.readDouble = true := by
  have hsig := hs.significand_le hi
  obtain ⟨hlo, hhi⟩ := power_near hs.printed.significand_pos hsig hd hval.symm
  have hwide : s.significand * (10 : ℚ) ^ s.power * 2 ^ binary64.scale = h * 2 ^ (b + 924) := by
    change s.value * _ = _
    rw [← hval, pow_add, ← mul_assoc, ← hmid, mul_assoc _ ((2 : ℚ) ^ 150), ← pow_add]
    rfl
  have hn53 : s.significand ≤ 2 ^ 53 := hsig.trans (by decide)
  have hp : s.power.natAbs ≤ 22 := by omega
  obtain ⟨j, hj, hvalue⟩ := Json.timesTenTo_exact hn53 hp hh hwide
  exact narrowsTo_of_roundsTo hj (hvalue ▸ hs.roundsTo)

/-! ### Reading back -/

/-- **The shortest digits of every positive number read back through double precision.** -/
theorem IsShortest.narrowsTo_readDouble (hs : binary32.IsShortest s i) (hi : 0 < i)
    (hfin : i < binary32.infIndex) : narrowsTo i s.readDouble = true := by
  obtain ⟨hplo, hphi⟩ := hs.power_bounds hi hfin
  have hp : s.power.natAbs ≤ 60 := by omega
  have hsig : s.significand ≤ 10 ^ 10 := (hs.significand_le hi).trans (by decide)
  obtain ⟨j, hj, hclose⟩ := Json.timesTenTo_close hs.printed.significand_pos hsig hp
  rcases hs.eight_or_close hi with ⟨d, k, hd, hd', hval⟩ | hnine
  · have hround := hs.roundsTo
    change |_ - s.value| ≤ s.value / _ at hclose
    rw [← hval] at hround hclose
    obtain ⟨hsmall, hlarge⟩ := hround.bounds hi hfin
    obtain ⟨hklo, hkhi⟩ := Format.power_bounds hd hd'.le hsmall hlarge
    have hk : -54 ≤ k ∧ k ≤ 32 := by omega
    rcases eight_digits_cases ⟨hd, hd'⟩ hk hi hfin hround hclose
      with ⟨hk14, h, b, hh, hmid⟩ | hknown | hround'
    · exact hs.narrowsTo_of_midpoint hi ⟨hd, hd'⟩ hval hk14 hh hmid
    · exact hs.narrowsTo_of_known hd hval hknown
    · exact narrowsTo_of_roundsTo hj hround'
  · exact narrowsTo_of_roundsTo hj (roundsTo_of_nine hi hclose hnine)

/-- A whole number that is read with a further zero, which its power of ten takes off again. -/
theorem IsShortest.narrowsTo_whole (hs : binary32.IsShortest s i) (hpower : 0 ≤ s.power)
    (hshort : s.significand * 10 ^ (s.power.toNat + 1) ≤ 2 ^ 53) :
    narrowsTo i (Json.timesTenTo
      (Binary.ofNat binary64 (s.significand * 10 ^ (s.power.toNat + 1))) (-1)) = true := by
  have hround := hs.roundsTo
  have hpos := hs.printed.significand_pos
  obtain ⟨p, hp⟩ := Int.eq_ofNat_of_zero_le hpower
  rw [hp, Int.toNat_natCast] at hshort ⊢
  rw [Scientific.value, hp, zpow_natCast] at hround
  generalize s.significand = n at *
  have hvalue : ((n * 10 ^ (p + 1) : ℕ) : ℚ) * (10 : ℚ) ^ (-1 : ℤ) = n * 10 ^ p := by
    push_cast
    rw [zpow_neg_one, pow_succ]
    field_simp
  have hn : n * 10 ^ p ≤ 2 ^ 53 := by
    rw [Nat.pow_succ, ← Nat.mul_assoc] at hshort
    omega
  have hpos : 0 < n * 10 ^ (p + 1) := Nat.mul_pos hpos (Nat.pow_pos (by omega))
  obtain ⟨j, hj, hval⟩ := Json.timesTenTo_exact (p := -1) (e := binary64.scale) hshort
    (by decide) hn (by rw [hvalue]; push_cast; rfl)
  refine narrowsTo_of_roundsTo hj ?_
  rw [hval, hvalue]
  exact hround

end Format

end StripeBrush
