/-
**Conversions between formats.**

Rounding keeps the order of ratios, so that a change of format keeps the order that tells everything
apart: neither the sign of a zero nor that of a `NaN` is lost.  Every single precision number is a
double precision number, and going there and back changes nothing.  So a number that lies between
two single precision numbers as a double still does when it is narrowed.

Main definitions:

* `Binary.isNegative`, `Binary.rank` — the two parts of the place of a number in the order that
  tells everything apart: its sign, and how far from zero it stands.

Main results:

* `Format.roundIndex_le_roundIndex` — a larger ratio is rounded to no smaller index;
* `Binary.totalKey_convert_le` — **a change of format keeps the order**;
* `Format.exists_wide_index` — a single precision magnitude is one of double precision;
* `Binary.narrow_widen` — **widening a number and narrowing it again gives it back**.
-/

import StripeBrush.Binary.Arith
import StripeBrush.Proofs.Binary.Order
import StripeBrush.Proofs.Binary.Rounding

set_option relaxedAutoImplicit false
set_option autoImplicit false

namespace StripeBrush

namespace Format

variable (F : Format)

/-- A larger ratio is rounded to no smaller index. -/
theorem roundIndex_le_roundIndex {num den num' den' : ℕ} (hd : 0 < den) (hd' : 0 < den')
    (h : num * den' ≤ num' * den) : F.roundIndex num den ≤ F.roundIndex num' den' := by
  by_contra hlt
  obtain ⟨i, hi⟩ : ∃ i, F.roundIndex num den = i + 1 := ⟨_, (Nat.succ_pred (by omega)).symm⟩
  -- there is a midpoint between the two, which the ratios are on the wrong sides of
  have hbelow := F.midpoint_le_roundIndex hd hi
  have habove := F.roundIndex_le_midpoint num' hd'
  have hmid : F.midpoint (F.roundIndex num' den') ≤ F.midpoint i :=
    F.midpoint_strictMono.monotone (by omega)
  have hge : num' * den ≤ num * den' := by
    have h1 := Nat.mul_le_mul_right den habove
    have h2 := Nat.mul_le_mul_right (den' * den) hmid
    have h3 := Nat.mul_le_mul_right den' hbelow
    nlinarith
  have heq := F.roundIndex_congr hd hd' (Nat.le_antisymm h hge)
  omega

end Format

namespace Binary

variable {F G : Format} {a b : Binary F}

/-! ### The order that tells everything apart -/

/-- Whether a number, zero or `NaN` has a negative sign. -/
def isNegative : Binary F → Bool
  | nan s => s
  | inf s => s
  | finite s _ => s

/-- How far from zero a number stands: a finite number at its index, infinity after all finite
numbers, and `NaN` after infinity. -/
def rank : Binary F → ℕ
  | nan _ => F.infIndex + 1
  | inf _ => F.infIndex
  | finite _ i => i

theorem totalKey_eq (a : Binary F) :
    a.totalKey = if a.isNegative then -(a.rank : ℤ) - 1 else a.rank := by
  cases a with
  | nan s =>
      cases s with
      | true =>
          simp [totalKey, isNegative, rank]
          omega
      | false => simp [totalKey, isNegative, rank]
  | inf s => cases s <;> simp [totalKey, isNegative, rank]
  | finite s i => cases s <;> simp [totalKey, isNegative, rank]

theorem totalKey_le_iff :
    a.totalKey ≤ b.totalKey ↔
      if a.isNegative then b.isNegative = true → b.rank ≤ a.rank
      else b.isNegative = false ∧ a.rank ≤ b.rank := by
  rw [totalKey_eq, totalKey_eq]
  cases a.isNegative <;> cases b.isNegative <;>
    simp only [Bool.false_eq_true, Bool.true_eq_false, if_true, if_false, forall_const,
      false_implies, true_and, false_and, iff_true, iff_false] <;>
    omega

theorem totalKey_of_key {k : ℤ} (h : a.key? = some k) :
    a.totalKey = k ∧ 0 ≤ k ∨ a.totalKey = k - 1 ∧ k ≤ 0 := by
  cases a with
  | nan s => simp [key?] at h
  | inf s => cases s <;> simp [key?] at h <;> simp [totalKey] <;> omega
  | finite s i => cases s <;> simp [key?] at h <;> simp [totalKey] <;> omega

theorem totalKey_lt_of_lt (h : a < b) : a.totalKey < b.totalKey := by
  obtain ⟨j, k, hj, hk, hlt⟩ := lt_iff_key.1 h
  have ha := totalKey_of_key hj
  have hb := totalKey_of_key hk
  omega

/-! ### Changes of format -/

theorem rank_ofIndex (F : Format) (neg : Bool) (i : ℕ) :
    (ofIndex F neg i).rank = min i F.infIndex := by
  unfold ofIndex
  split
  · rename_i h
    exact (Nat.min_eq_left h.le).symm
  · rename_i h
    exact (Nat.min_eq_right (Nat.le_of_not_lt h)).symm

@[simp] theorem isNegative_ofIndex (F : Format) (neg : Bool) (i : ℕ) :
    (ofIndex F neg i).isNegative = neg := by
  unfold ofIndex
  split <;> rfl

@[simp] theorem isNegative_convert (G : Format) (a : Binary F) :
    (a.convert G).isNegative = a.isNegative := by
  cases a with
  | nan s => rfl
  | inf s => rfl
  | finite s i => exact isNegative_ofIndex G s _

/-- What stands no farther from zero does not after a change of format either. -/
theorem rank_convert_le (G : Format) (h : a.rank ≤ b.rank) :
    (a.convert G).rank ≤ (b.convert G).rank := by
  cases a with
  | nan s =>
      cases b with
      | nan t => exact Nat.le_refl _
      | inf t => exact absurd h (Nat.not_succ_le_self _)
      | finite t j =>
          have hj : F.infIndex + 1 ≤ j.val := h
          omega
  | inf s =>
      cases b with
      | nan t => exact Nat.le_succ _
      | inf t => exact Nat.le_refl _
      | finite t j =>
          have hj : F.infIndex ≤ j.val := h
          omega
  | finite s i =>
      have hround : ((finite s i : Binary F).convert G).rank = min _ G.infIndex :=
        rank_ofIndex G s _
      rw [hround]
      cases b with
      | nan t => exact (Nat.min_le_right _ _).trans (Nat.le_succ _)
      | inf t => exact Nat.min_le_right _ _
      | finite t j =>
          have hround' : ((finite t j : Binary F).convert G).rank = min _ G.infIndex :=
            rank_ofIndex G t _
          rw [hround']
          have hmagnitude : F.magnitude i ≤ F.magnitude j := F.magnitude_strictMono.monotone h
          have hpos : 0 < 2 ^ F.scale := Nat.two_pow_pos _
          refine min_le_min_right _ (G.roundIndex_le_roundIndex hpos hpos ?_)
          gcongr

/-- **A change of format keeps the order.** -/
theorem totalKey_convert_le (G : Format) (h : a.totalKey ≤ b.totalKey) :
    (a.convert G).totalKey ≤ (b.convert G).totalKey := by
  rw [totalKey_le_iff] at h ⊢
  simp only [isNegative_convert]
  split
  · rename_i ha
    rw [if_pos ha] at h
    intro hb
    exact rank_convert_le G (h hb)
  · rename_i ha
    rw [if_neg ha] at h
    exact ⟨h.1, rank_convert_le G h.2⟩

end Binary

/-! ### From single to double precision and back -/

theorem Format.le_magnitude_infIndex64 :
    2 ^ binary64.scale * 2 ^ 128 ≤ binary64.magnitude binary64.infIndex := by
  rw [magnitude_infIndex64]
  decide +kernel

/-- A single precision magnitude is one of double precision. -/
theorem Format.exists_wide_index (i : Fin binary32.infIndex) :
    ∃ j : Fin binary64.infIndex,
      binary64.magnitude j * 2 ^ binary32.scale = binary32.magnitude i * 2 ^ binary64.scale := by
  obtain ⟨k, hk⟩ : ∃ k, binary64.scale = binary32.scale + k := ⟨925, rfl⟩
  obtain ⟨e, m, hi, hnormal, hshort⟩ := binary32.exists_significand i
  have hm : m ≤ 2 ^ (binary64.fracBits + 1) :=
    hshort.le.trans (Nat.pow_le_pow_right (by omega) (by decide))
  obtain ⟨j, hj⟩ := binary64.exists_magnitude (e + k) hm
  have hmagnitude : binary32.magnitude i = m * 2 ^ e := by
    rw [hi, binary32.magnitude_add hnormal hshort.le]
  have hwide : binary64.magnitude j = binary32.magnitude i * 2 ^ k := by
    rw [hj, hmagnitude, Nat.pow_add, Nat.mul_assoc]
  have hlt : binary64.magnitude j < binary64.magnitude binary64.infIndex := by
    have hend : binary32.magnitude i < 2 ^ binary32.scale * 2 ^ 128 :=
      magnitude_infIndex32 ▸ binary32.magnitude_strictMono i.isLt
    calc binary64.magnitude j = binary32.magnitude i * 2 ^ k := hwide
      _ < 2 ^ binary32.scale * 2 ^ 128 * 2 ^ k := by gcongr
      _ = 2 ^ binary64.scale * 2 ^ 128 := by rw [hk, Nat.pow_add]; ring
      _ ≤ binary64.magnitude binary64.infIndex := le_magnitude_infIndex64
  refine ⟨⟨j, binary64.magnitude_strictMono.lt_iff_lt.1 hlt⟩, ?_⟩
  rw [hwide, hk, Nat.pow_add]
  ring

namespace Binary

/-- A finite single precision number is one of double precision, of the same magnitude. -/
theorem exists_widen (s : Bool) (i : Fin Format.binary32.infIndex) :
    ∃ j : Fin Format.binary64.infIndex,
      (finite s i).convert Format.binary64 = finite s j ∧
        Format.binary64.magnitude j * 2 ^ Format.binary32.scale =
          Format.binary32.magnitude i * 2 ^ Format.binary64.scale := by
  obtain ⟨j, hj⟩ := Format.exists_wide_index i
  refine ⟨j, ?_, hj⟩
  change ofQuanta Format.binary64 s _ _ = _
  rw [← hj]
  exact ofQuanta_magnitude s j (Nat.two_pow_pos _)

/-- **Widening a number and narrowing it again gives it back.** -/
theorem narrow_widen (x : Binary32) :
    (x.convert Format.binary64).convert Format.binary32 = x := by
  cases x with
  | nan s => rfl
  | inf s => rfl
  | finite s i =>
      obtain ⟨j, hwide, hj⟩ := exists_widen s i
      have hnarrow : (finite s j).convert Format.binary32 = finite s i := by
        change ofQuanta Format.binary32 s _ _ = _
        rw [hj]
        exact ofQuanta_magnitude s i (Nat.two_pow_pos _)
      rw [hwide, hnarrow]

end Binary

end StripeBrush
