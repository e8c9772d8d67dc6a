/-
**Numbers that are not below zero.**

The square of a number is not below zero, whether it is exact, rounded or too large; and neither are
sums and roots of numbers that are not.  Above all, none of them is `NaN`.  So a movement has a
length as soon as its coordinates are numbers, if only an infinite one, and the coordinates of a
movement between two finite points are numbers however far apart the points are.

Main results:

* `Binary.nonneg_mul_self`, `Binary.nonneg_add`, `Binary.nonneg_sqrt`, `Binary.nonneg_convert` — what
  does not lead below zero;
* `Binary.isNaN_add`, `Binary.isNaN_sub`, `Binary.isNaN_mul` — sums, differences and products of
  finite numbers are numbers;
* `Vec.nonneg_length_sub` — **the distance between two finite points is not below zero**, and so it
  is no `NaN`.
-/

import StripeBrush.Proofs.Binary.Sums

set_option relaxedAutoImplicit false
set_option autoImplicit false

namespace StripeBrush

namespace Binary

variable {F G : Format} {x y : Binary F}

/-- The numbers that are not below zero are positive infinity and the finite ones that are positive
or a zero of either sign. -/
theorem nonneg_iff (hF : 0 < F.infIndex) :
    0 ≤ x ↔ x = inf false ∨ ∃ s i, x = finite s i ∧ (s = true → i.val = 0) := by
  have hkey : 0 ≤ x ↔ ∃ k, x.key? = some k ∧ 0 ≤ k := by
    rw [le_iff_key, key?_zero hF]
    simp
  rw [hkey]
  cases x with
  | nan s => simp [key?]
  | inf s =>
      cases s with
      | false => simp [key?]
      | true =>
          simp [key?]
          omega
  | finite s i => cases s <;> simp [key?]

theorem nonneg_ofIndex (hF : 0 < F.infIndex) (i : ℕ) : 0 ≤ ofIndex F false i := by
  rw [nonneg_iff hF]
  unfold ofIndex
  split
  · exact .inr ⟨false, _, rfl, by simp⟩
  · exact .inl rfl

theorem nonneg_ofQuanta (hF : 0 < F.infIndex) (num den : ℕ) : 0 ≤ ofQuanta F false num den :=
  nonneg_ofIndex hF _

/-- A square is not below zero. -/
theorem nonneg_mul_self (hF : 0 < F.infIndex) (hx : x.isNaN = false) : 0 ≤ x * x := by
  change 0 ≤ Binary.mul x x
  cases x with
  | nan s => simp [isNaN] at hx
  | inf s =>
      simp only [Binary.mul, bne_self_eq_false]
      exact (nonneg_iff hF).2 (.inl rfl)
  | finite s i =>
      simp only [Binary.mul, bne_self_eq_false]
      exact nonneg_ofQuanta hF _ _

theorem signed_nonneg {s : Bool} {i : ℕ} (h : s = true → i = 0) : 0 ≤ signed F s i := by
  cases s with
  | false => simp [signed]
  | true => simp [signed, h rfl]

theorem nonneg_add (hF : 0 < F.infIndex) (hx : 0 ≤ x) (hy : 0 ≤ y) : 0 ≤ x + y := by
  change 0 ≤ Binary.add x y
  have hinf : (0 : Binary F) ≤ inf false := (nonneg_iff hF).2 (.inl rfl)
  obtain rfl | ⟨s, i, rfl, hi⟩ := (nonneg_iff hF).1 hx
  · obtain rfl | ⟨t, j, rfl, -⟩ := (nonneg_iff hF).1 hy
    · exact hinf
    · exact hinf
  · obtain rfl | ⟨t, j, rfl, hj⟩ := (nonneg_iff hF).1 hy
    · exact hinf
    · have hsum : 0 ≤ signed F s i + signed F t j :=
        Int.add_nonneg (signed_nonneg hi) (signed_nonneg hj)
      simp only [Binary.add]
      split
      · refine (nonneg_iff hF).2 (.inr ⟨s && t, ⟨0, hF⟩, ?_, fun _ => rfl⟩)
        exact ofQuanta_zero hF _ Nat.one_pos
      · rw [decide_eq_false (Int.not_lt.2 hsum)]
        exact nonneg_ofQuanta hF _ _

theorem nonneg_sqrt (hF : 0 < F.infIndex) (hx : 0 ≤ x) : 0 ≤ x.sqrt := by
  obtain rfl | ⟨s, i, rfl, hi⟩ := (nonneg_iff hF).1 hx
  · exact hx
  · by_cases hzero : i.val = 0
    · simp only [sqrt, hzero, if_true]
      exact hx
    · have hs : ¬ s = true := fun hneg => hzero (hi hneg)
      simp only [sqrt, if_neg hzero, if_neg hs]
      split <;> exact nonneg_ofQuanta hF _ _

theorem nonneg_convert (hF : 0 < F.infIndex) (hG : 0 < G.infIndex) (hx : 0 ≤ x) :
    0 ≤ x.convert G := by
  obtain rfl | ⟨s, i, rfl, hi⟩ := (nonneg_iff hF).1 hx
  · exact (nonneg_iff hG).2 (.inl rfl)
  · cases s with
    | false => exact nonneg_ofQuanta hG _ _
    | true =>
        refine (nonneg_iff hG).2 (.inr ⟨true, ⟨0, hG⟩, ?_, fun _ => rfl⟩)
        simp only [convert, hi rfl, Format.magnitude_zero, Nat.zero_mul]
        exact ofQuanta_zero hG true (Nat.two_pow_pos _)

theorem isNaN_ofIndex (F : Format) (s : Bool) (i : ℕ) : (ofIndex F s i).isNaN = false := by
  unfold ofIndex
  split <;> rfl

@[simp] theorem add_nan (x : Binary F) (s : Bool) : x + nan s = nan false := by
  cases x <;> rfl

/-- The sum of a finite number and a number is a number, if only an infinite one. -/
theorem isNaN_add (hx : x.isFinite = true) (hy : y.isNaN = false) : (x + y).isNaN = false := by
  change (Binary.add x y).isNaN = false
  cases x with
  | finite s i =>
      cases y with
      | nan t => exact hy
      | inf t => rfl
      | finite t j =>
          simp only [Binary.add]
          split <;> exact isNaN_ofIndex F _ _
  | _ => simp [isFinite] at hx

/-- So is the difference of two finite numbers. -/
theorem isNaN_sub (hx : x.isFinite = true) (hy : y.isFinite = true) : (x - y).isNaN = false :=
  isNaN_add hx (isNaN_of_isFinite ((isFinite_neg y).trans hy))

/-- And so is their product. -/
theorem isNaN_mul (hx : x.isFinite = true) (hy : y.isFinite = true) : (x * y).isNaN = false := by
  change (Binary.mul x y).isNaN = false
  cases x with
  | finite s i =>
      cases y with
      | finite t j => exact isNaN_ofIndex F _ _
      | _ => simp [isFinite] at hy
  | _ => simp [isFinite] at hx

theorem isNaN_convert (G : Format) (x : Binary F) : (x.convert G).isNaN = x.isNaN := by
  cases x with
  | finite s i => exact isNaN_ofIndex G s _
  | _ => rfl

end Binary

namespace Vec

theorem nonneg_length {v : Vec} (hx : v.x.isNaN = false) (hy : v.y.isNaN = false) :
    0 ≤ v.length := by
  have h32 : 0 < Format.binary32.infIndex := by decide
  have h64 : 0 < Format.binary64.infIndex := by decide
  unfold length
  split
  · exact (Binary.nonneg_iff h32).2 (.inl rfl)
  · refine Binary.nonneg_convert h64 h32 (Binary.nonneg_sqrt h64 (Binary.nonneg_add h64 ?_ ?_))
    · exact Binary.nonneg_mul_self h64 ((Binary.isNaN_convert _ _).trans hx)
    · exact Binary.nonneg_mul_self h64 ((Binary.isNaN_convert _ _).trans hy)

theorem not_length_lt_zero (v : Vec) : ¬ v.length < 0 := by
  have hnan : ∀ s, ¬ (Binary.nan s : Binary32) < 0 := by decide
  by_cases hnumbers : v.x.isNaN = false ∧ v.y.isNaN = false
  · exact Binary.not_lt_of_le (nonneg_length hnumbers.1 hnumbers.2)
  · unfold length
    split
    · decide
    · -- a coordinate that is `NaN` makes the sum of the squares `NaN`
      obtain ⟨x, y⟩ := v
      cases x with
      | nan s => exact hnan false
      | _ =>
          cases y with
          | nan t =>
              change ¬ ((_ + Binary.nan false : Binary64).sqrt.convert Format.binary32) < 0
              rw [Binary.add_nan]
              exact hnan false
          | _ => simp [Binary.isNaN] at hnumbers

/-- **The distance between two finite points is not below zero.** -/
theorem nonneg_length_sub {a b : Vec} (ha : a.isFinite = true) (hb : b.isFinite = true) :
    0 ≤ (a - b).length := by
  obtain ⟨hax, hay⟩ := Bool.and_eq_true_iff.1 ha
  obtain ⟨hbx, hby⟩ := Bool.and_eq_true_iff.1 hb
  exact nonneg_length (Binary.isNaN_sub hax hbx) (Binary.isNaN_sub hay hby)

end Vec

end StripeBrush
