/-
**How many digits are needed.**

A number is printed with as few digits as read back to it, and with those that are nearest to it
among as many.  Digits that read back may lie on any decimal grid; but if some do, then so does one
of the two neighbours of the number on the grid with the same number of digits, or a power of ten.
So the search, which tries the neighbours grid by grid, ends with digits like that.

The point of a grid that is nearest to a number misses it by at most half the spacing of the grid.
With nine significant digits that is far less than the distance to the next number in single
precision, so that nine digits always read back.

Main definitions:

* `Format.gridExponent` — the grids of the search;
* `Format.Between` — a point of a grid on the way from a number to another point;
* `Format.IsShortest` — **the shortest digits that read back to a number**, and the nearest.

Main results:

* `Format.leadingExponent_bounds` — the power of ten at the first digit;
* `Format.roundsTo_decimal` — a decimal number is rounded to its index;
* `Format.exists_candidate` — where a point of a grid reads back, so does a neighbour;
* `Format.isShortest_shortest` — **the search finds the shortest digits**;
* `Format.IsShortest.eight_or_close` — these are eight at most, or nine that are close.
-/

import StripeBrush.Proofs.Binary.Monotone
import StripeBrush.Proofs.Decimal.Digits
import Mathlib.Data.Nat.Cast.Order.Field

set_option relaxedAutoImplicit false
set_option autoImplicit false

namespace StripeBrush.Format

variable (F : Format)

/-! ### Decimal numbers -/

/-- A decimal number is rounded to its index. -/
theorem roundsTo_decimal (digits : ℕ) (e : ℤ) :
    F.RoundsTo (digits * (10 : ℚ) ^ e) (F.decimalIndex digits e) := by
  rcases le_or_gt 0 e with h | h
  · obtain ⟨k, rfl⟩ := Int.eq_ofNat_of_zero_le h
    refine ⟨digits * 10 ^ k * 2 ^ F.scale, 1, Nat.one_pos, ?_, ?_⟩
    · push_cast
      rw [zpow_natCast, div_one]
    · simp [decimalIndex]
  · obtain ⟨k, rfl⟩ := Int.exists_eq_neg_ofNat h.le
    refine ⟨digits * 2 ^ F.scale, 10 ^ k, Nat.pow_pos (by omega), ?_, ?_⟩
    · push_cast
      rw [zpow_neg, zpow_natCast, ← div_eq_mul_inv]
      ring
    · rw [decimalIndex, if_neg (by omega), Int.neg_neg, Int.toNat_natCast]

/-- A decimal number that is much closer to a number than its neighbours are reads back to it. -/
theorem decimalIndex_eq_of_close {digits i : ℕ} {e : ℤ} (hi : 0 < i)
    (h : |digits * (10 : ℚ) ^ e - F.value i| < F.value i / 2 ^ (F.fracBits + 2)) :
    F.decimalIndex digits e = i :=
  (F.roundsTo_decimal digits e).unique (roundsTo_of_close hi h)

theorem decimalIndex_eq_iff {digits i : ℕ} {e : ℤ} :
    F.decimalIndex digits e = i ↔ F.RoundsTo (digits * (10 : ℚ) ^ e) i := by
  have hround := F.roundsTo_decimal digits e
  exact ⟨fun h => h ▸ hround, fun h => hround.unique h⟩

theorem roundsTo_value {i : ℕ} (hi : 0 < i) : F.RoundsTo (F.value i) i := by
  refine roundsTo_of_close hi ?_
  have hpos := F.value_pos hi
  rw [sub_self, abs_zero]
  positivity

theorem decimalIndex_zero (e : ℤ) : F.decimalIndex 0 e = 0 := by
  have hzero : ∀ den, F.roundIndex 0 den = 0 := by
    intro den
    simp [roundIndex, roundDivEven]
  simp [decimalIndex, hzero]

/-! ### The first digit -/

/-- The magnitude with as many decimals as the quantum has. -/
theorem leadingExponent_bounds {i : ℕ} (hi : 0 < i) :
    (10 : ℚ) ^ F.leadingExponent (F.magnitude i) ≤ F.value i ∧
      F.value i < (10 : ℚ) ^ (F.leadingExponent (F.magnitude i) + 1) := by
  have hm := F.magnitude_pos hi
  have h2 : 0 < 2 ^ F.scale := Nat.two_pow_pos _
  have hscaled : 0 < F.magnitude i * 10 ^ F.scale / 2 ^ F.scale := by
    refine Nat.div_pos ?_ h2
    exact Nat.le_trans (Nat.pow_le_pow_left (by omega) _) (Nat.le_mul_of_pos_left _ hm)
  have hlen := pow_decimalDigits_length_le hscaled
  have hlen' := lt_pow_decimalDigits_length (F.magnitude i * 10 ^ F.scale / 2 ^ F.scale)
  have hpos : 0 < (decimalDigits (F.magnitude i * 10 ^ F.scale / 2 ^ F.scale)).length :=
    Nat.length_toDigits_pos
  rw [Nat.le_div_iff_mul_le h2] at hlen
  rw [Nat.div_lt_iff_lt_mul h2] at hlen'
  rw [leadingExponent]
  generalize (decimalDigits (F.magnitude i * 10 ^ F.scale / 2 ^ F.scale)).length = n at *
  obtain ⟨m, rfl⟩ : ∃ m, n = m + 1 := ⟨n - 1, by omega⟩
  rw [Nat.add_sub_cancel] at hlen
  have hlo : ((10 ^ m * 2 ^ F.scale : ℕ) : ℚ) ≤ (F.magnitude i * 10 ^ F.scale : ℕ) := by
    exact_mod_cast hlen
  have hhi : ((F.magnitude i * 10 ^ F.scale : ℕ) : ℚ) < (10 ^ (m + 1) * 2 ^ F.scale : ℕ) := by
    exact_mod_cast hlen'
  push_cast at hlo hhi ⊢
  have h10 : (10 : ℚ) ≠ 0 := by norm_num
  constructor
  · rw [show (m : ℤ) + 1 - 1 - F.scale = (m : ℤ) - (F.scale : ℤ) by ring, zpow_sub₀ h10,
      zpow_natCast, zpow_natCast, value, div_le_div_iff₀ (by positivity) (by positivity)]
    exact hlo
  · rw [show (m : ℤ) + 1 - 1 - F.scale + 1 = ((m + 1 : ℕ) : ℤ) - (F.scale : ℤ) by push_cast; ring,
      zpow_sub₀ h10, zpow_natCast, zpow_natCast, value,
      div_lt_div_iff₀ (by positivity) (by positivity)]
    exact hhi

/-- The power of ten of a grid on which numbers have one digit and so many more. -/
def gridExponent (i more : ℕ) : ℤ := F.leadingExponent (F.magnitude i) - more

/-! ### Points of the grid -/

/-- The two points of a grid that come into question, and the one that is tried first. -/
theorem exists_candidate_ratio (i : ℕ) (e : ℤ) :
    ∃ num den : ℕ, 0 < den ∧ (num : ℚ) / den = F.value i / (10 : ℚ) ^ e ∧
      F.candidate? i e = [roundDivEven num den,
        if roundDivEven num den = num / den then num / den + 1 else num / den].find?
          fun digits => F.decimalIndex digits e == i := by
  rcases le_or_gt 0 e with h | h
  · obtain ⟨k, rfl⟩ := Int.eq_ofNat_of_zero_le h
    refine ⟨F.magnitude i, 2 ^ F.scale * 10 ^ k, by positivity, ?_, ?_⟩
    · push_cast
      rw [zpow_natCast, value, div_div]
    · simp [candidate?]
  · obtain ⟨k, rfl⟩ := Int.exists_eq_neg_ofNat h.le
    refine ⟨F.magnitude i * 10 ^ k, 2 ^ F.scale, by positivity, ?_, ?_⟩
    · push_cast
      rw [zpow_neg, zpow_natCast, value, div_inv_eq_mul, div_mul_eq_mul_div]
    · simp [candidate?, show k ≠ 0 by omega]

/-- A point that is chosen lies at most one step above the number. -/
theorem candidate?_le {i d : ℕ} {e : ℤ} (h : F.candidate? i e = some d) :
    d ≤ F.value i / (10 : ℚ) ^ e + 1 := by
  obtain ⟨num, den, hd, hratio, heq⟩ := F.exists_candidate_ratio i e
  rw [h] at heq
  have hmem := List.mem_of_find?_eq_some heq.symm
  have hround := (roundDivEven_bounds num den).2
  have hle : d ≤ num / den + 1 := by
    simp only [List.mem_cons, List.not_mem_nil, or_false] at hmem
    rcases hmem with rfl | rfl
    · exact hround
    · split <;> omega
  rw [← hratio]
  calc (d : ℚ) ≤ ((num / den : ℕ) : ℚ) + 1 := by exact_mod_cast hle
    _ ≤ num / den + 1 := by
        have := Nat.cast_div_le (m := num) (n := den) (α := ℚ)
        linarith

/-- A distance, in steps of a grid. -/
theorem abs_grid_sub (i n : ℕ) (e : ℤ) :
    |n * (10 : ℚ) ^ e - F.value i| = |n - F.value i / (10 : ℚ) ^ e| * (10 : ℚ) ^ e := by
  have hpos : (0 : ℚ) < (10 : ℚ) ^ e := by positivity
  rw [← abs_of_pos hpos, ← abs_mul, abs_of_pos hpos, sub_mul, div_mul_cancel₀ _ hpos.ne']

/-- Some point of a grid is at most half a step away. -/
theorem exists_nearest (i : ℕ) (e : ℤ) :
    ∃ n : ℕ, |n * (10 : ℚ) ^ e - F.value i| ≤ (10 : ℚ) ^ e / 2 := by
  obtain ⟨num, den, hd, hratio, -⟩ := F.exists_candidate_ratio i e
  have hnear := roundDivEven_error num hd
  refine ⟨roundDivEven num den, ?_⟩
  rw [abs_grid_sub, ← hratio]
  calc |(roundDivEven num den : ℚ) - num / den| * (10 : ℚ) ^ e ≤ 1 / 2 * (10 : ℚ) ^ e := by gcongr
    _ = (10 : ℚ) ^ e / 2 := by ring

/-- The nearest point of a grid. -/
theorem abs_roundDivEven_sub_le (num : ℕ) {den : ℕ} (hd : 0 < den) (n : ℕ) :
    |(roundDivEven num den : ℚ) - num / den| ≤ |(n : ℚ) - num / den| := by
  have hnear := roundDivEven_error num hd
  rcases Nat.lt_trichotomy n (roundDivEven num den) with hlt | rfl | hgt
  · have hstep : (n : ℚ) + 1 ≤ roundDivEven num den := by exact_mod_cast hlt
    rw [abs_le] at hnear
    rw [le_abs]
    right
    rw [abs_le]
    constructor <;> linarith
  · exact le_refl _
  · have hstep : (roundDivEven num den : ℚ) + 1 ≤ n := by exact_mod_cast hgt
    rw [abs_le] at hnear
    rw [le_abs]
    left
    rw [abs_le]
    constructor <;> linarith

/-- The point `d` of a grid lies between a number, in steps of the grid, and the point `n`. -/
def Between (q : ℚ) (n d : ℕ) : Prop := q ≤ d ∧ d ≤ n ∨ n ≤ d ∧ d ≤ q

theorem Between.abs_sub_le {q : ℚ} {n d : ℕ} (h : Between q n d) : |(d : ℚ) - q| ≤ |(n : ℚ) - q| := by
  rcases h with ⟨hle, hle'⟩ | ⟨hle, hle'⟩
  · have hcast : (d : ℚ) ≤ n := by exact_mod_cast hle'
    rw [abs_of_nonneg (by linarith), abs_of_nonneg (by linarith)]
    linarith
  · have hcast : (n : ℚ) ≤ d := by exact_mod_cast hle
    rw [abs_of_nonpos (by linarith), abs_of_nonpos (by linarith)]
    linarith

/-- One of the two points that come into question lies between the number and any other point. -/
theorem between_nearest_or_other (num : ℕ) {den : ℕ} (hd : 0 < den) (n : ℕ) :
    Between (num / den) n (roundDivEven num den) ∨
      Between (num / den) n
        (if roundDivEven num den = num / den then num / den + 1 else num / den) := by
  obtain ⟨hlo, hhi⟩ := roundDivEven_bounds num den
  have hbelow : ((num / den : ℕ) : ℚ) ≤ num / den := Nat.cast_div_le
  have habove : (num : ℚ) / den ≤ (num / den + 1 : ℕ) := by
    rw [div_le_iff₀ (by exact_mod_cast hd)]
    exact_mod_cast ((Nat.div_lt_iff_lt_mul hd).1 (Nat.lt_succ_self (num / den))).le
  rcases Nat.lt_or_ge (num / den) n with hgt | hle
  · have hbetween : Between (num / den) n (num / den + 1) := Or.inl ⟨habove, hgt⟩
    split
    · exact Or.inr hbetween
    · exact Or.inl (by rwa [show roundDivEven num den = num / den + 1 by omega])
  · have hbetween : Between (num / den) n (num / den) := Or.inr ⟨hle, hbelow⟩
    split
    · next heq => exact Or.inl (by rwa [heq])
    · exact Or.inr hbetween

/-- Between a number and a point that reads back, all points of a grid read back. -/
theorem decimalIndex_of_between {i d n : ℕ} {e : ℤ} (hi : 0 < i) (hn : F.decimalIndex n e = i)
    (h : Between (F.value i / (10 : ℚ) ^ e) n d) : F.decimalIndex d e = i := by
  have hpos : (0 : ℚ) < (10 : ℚ) ^ e := by positivity
  have hself := F.roundsTo_value hi
  rw [F.decimalIndex_eq_iff] at hn ⊢
  rcases h with ⟨hle, hle'⟩ | ⟨hle, hle'⟩
  · rw [div_le_iff₀ hpos] at hle
    exact hself.between hn hle (by gcongr)
  · rw [le_div_iff₀ hpos] at hle'
    exact hn.between hself (by gcongr) hle'

/-- **Where a point of a grid reads back, so does a neighbour**, and the one that is chosen is no
further away. -/
theorem exists_candidate {i n : ℕ} {e : ℤ} (hi : 0 < i) (hn : F.decimalIndex n e = i) :
    ∃ d : ℕ, F.candidate? i e = some d ∧
      |d * (10 : ℚ) ^ e - F.value i| ≤ |n * (10 : ℚ) ^ e - F.value i| := by
  obtain ⟨num, den, hd, hratio, heq⟩ := F.exists_candidate_ratio i e
  -- distances in steps of the grid
  suffices h : ∃ d : ℕ, F.candidate? i e = some d ∧ |(d : ℚ) - num / den| ≤ |(n : ℚ) - num / den| by
    obtain ⟨d, hcand, hle⟩ := h
    refine ⟨d, hcand, ?_⟩
    rw [F.abs_grid_sub, F.abs_grid_sub, ← hratio]
    gcongr
  by_cases hnear : F.decimalIndex (roundDivEven num den) e = i
  · refine ⟨_, ?_, abs_roundDivEven_sub_le num hd n⟩
    rw [heq, List.find?_cons_of_pos]
    simpa using hnear
  · have hreads : ∀ d, Between (num / den) n d → F.decimalIndex d e = i := fun d h =>
      F.decimalIndex_of_between hi hn (hratio ▸ h)
    have hother := (between_nearest_or_other num hd n).resolve_left fun h => hnear (hreads _ h)
    refine ⟨_, ?_, hother.abs_sub_le⟩
    rw [heq, List.find?_cons_of_neg (by simpa using hnear), List.find?_cons_of_pos]
    simpa using hreads _ hother

/-! ### The shortest digits -/

/-- **The shortest digits that read back to a number**: no fewer ones do, and none that are as few
are nearer. -/
structure IsShortest (s : Scientific) (i : ℕ) : Prop where
  printed : s.Printed
  roundsTo : F.RoundsTo s.value i
  length_le : ∀ t : Scientific, t.Printed → F.RoundsTo t.value i →
    s.digits.length ≤ t.digits.length
  nearest : ∀ t : Scientific, t.Printed → F.RoundsTo t.value i →
    t.digits.length = s.digits.length → |s.value - F.value i| ≤ |t.value - F.value i|

/-- Digits that read back have a point beside them that does, on the grid of as many digits or on a
coarser one. -/
theorem exists_on_grid {i : ℕ} (hi : 0 < i) {t : Scientific} (ht : t.Printed)
    (hround : F.RoundsTo t.value i) :
    ∃ less n : ℕ, less < t.digits.length ∧ F.decimalIndex n (F.gridExponent i less) = i ∧
      |n * (10 : ℚ) ^ F.gridExponent i less - F.value i| ≤ |t.value - F.value i| := by
  obtain ⟨hlo, hhi⟩ := F.leadingExponent_bounds hi
  obtain ⟨htlo, hthi⟩ := ht.value_bounds
  have hself := F.roundsTo_value hi
  have hlength := ht.length_pos
  simp only [F.decimalIndex_eq_iff, gridExponent]
  generalize F.leadingExponent (F.magnitude i) = L at hlo hhi ⊢
  have hmono : ∀ {a b : ℤ}, a ≤ b → (10 : ℚ) ^ a ≤ 10 ^ b := fun h =>
    zpow_le_zpow_right₀ (by norm_num) h
  rcases lt_trichotomy t.exponent L with hlt | heq | hgt
  · -- the first power of ten of the number lies between
    have hle : t.value ≤ (10 : ℚ) ^ L := hthi.le.trans (hmono (by omega))
    refine ⟨0, 1, hlength, ?_, ?_⟩ <;> rw [Nat.cast_zero, sub_zero, Nat.cast_one, one_mul]
    · exact hround.between hself hle hlo
    · rw [abs_of_nonpos (by linarith), abs_of_nonpos (by linarith)]
      linarith
  · refine ⟨t.digits.length - 1, t.significand, by omega, ?_⟩
    have hpower : L - (t.digits.length - 1 : ℕ) = t.power := by
      rw [Scientific.power]
      omega
    rw [hpower]
    exact ⟨hround, le_refl _⟩
  · -- the next power of ten lies between
    have hten : ((10 : ℕ) : ℚ) * (10 : ℚ) ^ L = (10 : ℚ) ^ (L + 1) := by
      rw [zpow_add_one₀ (by norm_num), mul_comm]
      norm_num
    have hle : (10 : ℚ) ^ (L + 1) ≤ t.value := (hmono (by omega)).trans htlo
    refine ⟨0, 10, hlength, ?_, ?_⟩ <;> rw [Nat.cast_zero, sub_zero, hten]
    · exact hself.between hround hhi.le hle
    · rw [abs_of_nonneg (by linarith), abs_of_nonneg (by linarith)]
      linarith

/-! ### The search -/

/-- A point that is chosen has at most the digits of its grid. -/
theorem candidate?_bounds {i d more : ℕ} (hi : 0 < i)
    (h : F.candidate? i (F.gridExponent i more) = some d) : 0 < d ∧ d ≤ 10 ^ (more + 1) := by
  obtain ⟨-, hhi⟩ := F.leadingExponent_bounds hi
  rw [gridExponent] at h
  have hindex := candidate_readsBack h
  have hstep := F.candidate?_le h
  generalize F.leadingExponent (F.magnitude i) = L at h hhi hindex hstep
  constructor
  · by_contra hzero
    rw [Nat.eq_zero_of_not_pos hzero, decimalIndex_zero] at hindex
    omega
  · have hexp : ((more + 1 : ℕ) : ℤ) + (L - more) = L + 1 := by
      push_cast
      ring
    have hquot : F.value i / (10 : ℚ) ^ (L - more) < 10 ^ (more + 1) := by
      rw [div_lt_iff₀ (by positivity), ← zpow_natCast, ← zpow_add₀ (by norm_num), hexp]
      exact hhi
    have hlt : (d : ℚ) < 10 ^ (more + 1) + 1 := by linarith
    have hlt : d < 10 ^ (more + 1) + 1 := by exact_mod_cast hlt
    omega

/-- Nine digits are enough in single precision. -/
theorem exists_candidate_nine {i : ℕ} (hi : 0 < i) :
    ∃ d : ℕ, binary32.candidate? i (binary32.gridExponent i 8) = some d ∧
      |d * (10 : ℚ) ^ binary32.gridExponent i 8 - binary32.value i| ≤ binary32.value i / 2 ^ 27 := by
  obtain ⟨hlo, -⟩ := binary32.leadingExponent_bounds hi
  simp only [gridExponent, Nat.cast_ofNat]
  generalize binary32.leadingExponent (binary32.magnitude i) = L at hlo ⊢
  obtain ⟨n, hnear⟩ := binary32.exists_nearest i (L - 8)
  have hpos := binary32.value_pos hi
  have hspace : (10 : ℚ) ^ (L - 8) = (10 : ℚ) ^ L / 10 ^ 8 := by
    rw [zpow_sub₀ (by norm_num)]
    rfl
  have hclose : |n * (10 : ℚ) ^ (L - 8) - binary32.value i| ≤ binary32.value i / 2 ^ 27 := by
    refine hnear.trans ?_
    rw [hspace]
    linarith
  have hreads : binary32.decimalIndex n (L - 8) = i := by
    refine binary32.decimalIndex_eq_of_close hi (lt_of_le_of_lt hclose ?_)
    exact div_lt_div_of_pos_left hpos (by norm_num) (by decide)
  obtain ⟨d, hcand, hle⟩ := binary32.exists_candidate hi hreads
  exact ⟨d, hcand, hle.trans hclose⟩

/-- The search ends with the first grid that has a point. -/
theorem exists_first_grid {i : ℕ} (hi : 0 < i) :
    ∃ more d : ℕ, binary32.candidate? i (binary32.gridExponent i more) = some d ∧
      binary32.shortest i = Scientific.ofGrid d (binary32.gridExponent i more) ∧
      ∀ less < more, binary32.candidate? i (binary32.gridExponent i less) = none := by
  obtain ⟨nine, hnine, -⟩ := exists_candidate_nine hi
  rw [shortest]
  simp only [gridExponent, Nat.cast_ofNat] at hnine ⊢
  generalize binary32.leadingExponent (binary32.magnitude i) = L at hnine ⊢
  have hsome : ((List.range (binary32.fracBits + 2)).findSome? fun (more : ℕ) =>
      (binary32.candidate? i (L - more)).map fun digits =>
        Scientific.ofGrid digits (L - more)).isSome := by
    rw [List.findSome?_isSome_iff]
    refine ⟨8, by decide, ?_⟩
    simp [hnine]
  obtain ⟨s, hs⟩ := Option.isSome_iff_exists.1 hsome
  obtain ⟨before, more, after, hrange, hmore, hbefore⟩ := List.findSome?_eq_some_iff.1 hs
  obtain ⟨d, hd, rfl⟩ := Option.map_eq_some_iff.1 hmore
  refine ⟨more, d, hd, by rw [hs, Option.getD_some], fun less hless => ?_⟩
  have hsorted := List.pairwise_lt_range (n := binary32.fracBits + 2)
  have hmem : less ∈ List.range (binary32.fracBits + 2) := by
    have hlast : more ∈ List.range (binary32.fracBits + 2) := by simp [hrange]
    rw [List.mem_range] at hlast ⊢
    omega
  -- the grids before this one in the search are the coarser ones
  rw [hrange] at hsorted hmem
  rw [List.mem_append, List.mem_cons] at hmem
  rcases hmem with hmem | rfl | hmem
  · exact Option.map_eq_none_iff.1 (hbefore less hmem)
  · exact absurd hless (Nat.lt_irrefl _)
  · have := List.rel_of_pairwise_cons (List.pairwise_append.1 hsorted).2.1 hmem
    omega

/-- **The search finds the shortest digits.** -/
theorem isShortest_shortest {i : ℕ} (hi : 0 < i) : binary32.IsShortest (binary32.shortest i) i := by
  obtain ⟨more, d, hd, hs, hfirst⟩ := exists_first_grid hi
  obtain ⟨hpos, hle⟩ := binary32.candidate?_bounds hi hd
  have hlength := Scientific.length_ofGrid_le (binary32.gridExponent i more) hle (Nat.succ_pos more)
  have hvalue := Scientific.value_ofGrid d (binary32.gridExponent i more)
  rw [hs]
  -- digits that read back do so on this grid or a finer one
  have hgrid : ∀ t : Scientific, t.Printed → binary32.RoundsTo t.value i →
      ∃ less n : ℕ, more ≤ less ∧ less < t.digits.length ∧
        binary32.decimalIndex n (binary32.gridExponent i less) = i ∧
        |n * (10 : ℚ) ^ binary32.gridExponent i less - binary32.value i| ≤
          |t.value - binary32.value i| := by
    intro t ht hround
    obtain ⟨less, n, hless, hreads, hnear⟩ := binary32.exists_on_grid hi ht hround
    refine ⟨less, n, ?_, hless, hreads, hnear⟩
    by_contra hlt
    obtain ⟨d', hd', -⟩ := binary32.exists_candidate hi hreads
    rw [hfirst less (by omega)] at hd'
    cases hd'
  constructor
  · exact Scientific.printed_ofGrid _ hpos
  · rw [hvalue]
    exact binary32.decimalIndex_eq_iff.1 (candidate_readsBack hd)
  · intro t ht hround
    obtain ⟨less, n, hmore, hless, -⟩ := hgrid t ht hround
    omega
  · intro t ht hround hsame
    obtain ⟨less, n, hmore, hless, hreads, hnear⟩ := hgrid t ht hround
    obtain rfl : less = more := by omega
    obtain ⟨d', hd', hclose⟩ := binary32.exists_candidate hi hreads
    obtain rfl : d = d' := Option.some.inj (hd.symm.trans hd')
    rw [hvalue]
    exact hclose.trans hnear

/-! ### What the shortest digits are like -/

namespace IsShortest

variable {F} {s : Scientific} {i : ℕ}

/-- The digits of the same number on a grid are the same. -/
theorem eq_ofGrid (hs : F.IsShortest s i) {d : ℕ} {k : ℤ} (hd : 0 < d)
    (h : d * (10 : ℚ) ^ k = s.value) : s = Scientific.ofGrid d k := by
  have hpos := hs.printed.significand_pos
  have hgrid : Scientific.ofGrid s.significand s.power = Scientific.ofGrid d k :=
    Scientific.ofGrid_congr hpos hd h.symm
  have hlength : s.digits.length ≤ (Scientific.ofGrid d k).digits.length := by
    refine hs.length_le _ (Scientific.printed_ofGrid k hd) ?_
    rw [Scientific.value_ofGrid, h]
    exact hs.roundsTo
  rw [← hgrid] at hlength ⊢
  -- no zeros are stripped from the shortest digits
  obtain ⟨z, hz⟩ := Scientific.ofGrid_digits_append s.significand s.power
  rw [← hs.printed.digits_eq] at hz
  obtain rfl : z = 0 := by
    have := congrArg List.length hz
    rw [List.length_append, List.length_replicate] at this
    omega
  rw [List.replicate_zero, List.append_nil] at hz
  have hexp : (Scientific.ofGrid s.significand s.power).exponent = s.exponent := by
    change s.power + (decimalDigits s.significand).length - 1 = _
    rw [← hs.printed.digits_eq, Scientific.power]
    ring
  cases s
  exact congrArg₂ Scientific.mk hz hexp.symm

/-- Nine digits are enough; where as many are needed, they are close to the number. -/
theorem length_le_eight_or_close (hs : binary32.IsShortest s i) (hi : 0 < i) :
    s.digits.length ≤ 9 ∧ (s.digits.length ≤ 8 ∨
      |s.value - binary32.value i| ≤ binary32.value i / 2 ^ 27) := by
  obtain ⟨d, hd, hclose⟩ := exists_candidate_nine hi
  obtain ⟨hpos, hle⟩ := binary32.candidate?_bounds hi hd
  have hreads := binary32.decimalIndex_eq_iff.1 (candidate_readsBack hd)
  set k := binary32.gridExponent i 8
  have hlength := Scientific.length_ofGrid_le k hle (by decide)
  have hprinted := Scientific.printed_ofGrid k hpos
  rw [← Scientific.value_ofGrid] at hreads hclose
  have hshort := hs.length_le _ hprinted hreads
  refine ⟨hshort.trans hlength, ?_⟩
  rcases Nat.lt_or_ge s.digits.length 9 with hlt | hge
  · exact Or.inl (by omega)
  · exact Or.inr ((hs.nearest _ hprinted hreads (by omega)).trans hclose)

theorem significand_le (hs : binary32.IsShortest s i) (hi : 0 < i) : s.significand ≤ 10 ^ 9 :=
  hs.printed.significand_lt.le.trans
    (Nat.pow_le_pow_right (by decide) (hs.length_le_eight_or_close hi).1)

/-- The shortest digits fit a grid of eight digits, or else lie close to their number. -/
theorem eight_or_close (hs : binary32.IsShortest s i) (hi : 0 < i) :
    (∃ (d : ℕ) (k : ℤ), 10 ^ 7 ≤ d ∧ d < 10 ^ 8 ∧ d * (10 : ℚ) ^ k = s.value) ∨
      |s.value - binary32.value i| ≤ binary32.value i / 2 ^ 27 := by
  refine (hs.length_le_eight_or_close hi).2.imp_left fun hshort => ?_
  have hlt := hs.printed.significand_lt.trans_le (Nat.pow_le_pow_right (by decide) hshort)
  exact exists_eight_digits s.power hs.printed.significand_pos hlt

end IsShortest

end StripeBrush.Format
