/-
**Numbers of the same value.**

Two numbers have the same value if nothing but the sign of a zero or of a `NaN` tells them apart.
Sums and products do not look at these signs, so that numbers of the same value give results of the
same value.  And the operations are odd: with the other signs on the operands comes the other sign on
the result, but for a sum that cancels, which is positive zero either way, and for `NaN`.

Main definitions:

* `Binary.SameValue` — two numbers have the same value.

Main results:

* `Binary.SameValue.numEq_eq_true`, `Binary.SameValue.of_numEq` — two numbers of the same value are
  equal, unless they are `NaN`, and finite numbers that are equal have the same value;
* `Binary.SameValue.add`, `Binary.SameValue.mul_right` — sums and products of numbers of the same
  value;
* `Binary.sameValue_add_zero`, `Binary.sameValue_zero_mul` — sums and products with zero;
* `Binary.neg_add_neg`, `Binary.neg_mul_left`, `Binary.neg_div_left` — **operations are odd**.
-/

import StripeBrush.Proofs.Binary.Sums

set_option relaxedAutoImplicit false
set_option autoImplicit false

namespace StripeBrush.Binary

variable {F : Format} {x y z w : Binary F}

/-- Two numbers have the same value: they are the same, or both are `NaN`, or both are zero. -/
inductive SameValue : Binary F → Binary F → Prop
  | same (x : Binary F) : SameValue x x
  | nan (s t : Bool) : SameValue (nan s) (nan t)
  | zero (s t : Bool) (i : Fin F.infIndex) (hi : i.val = 0) : SameValue (finite s i) (finite t i)

@[simp] theorem neg_twice (x : Binary F) : - -x = x := by
  change Binary.neg (Binary.neg x) = x
  cases x <;> simp [Binary.neg]

namespace SameValue

theorem of_eq (h : x = y) : SameValue x y := h ▸ .same x

theorem symm (h : SameValue x y) : SameValue y x := by
  cases h with
  | same => exact .same x
  | nan s t => exact .nan t s
  | zero s t i hi => exact .zero t s i hi

theorem trans (h : SameValue x y) (h' : SameValue y z) : SameValue x z := by
  cases h with
  | same => exact h'
  | nan s t =>
      cases h' with
      | same => exact .nan s t
      | nan _ u => exact .nan s u
  | zero s t i hi =>
      cases h' with
      | same => exact .zero s t i hi
      | zero _ u _ _ => exact .zero s u i hi

/-- Two numbers of the same value differ at most in their sign. -/
theorem eq_or_eq_neg (h : SameValue x y) : x = y ∨ x = -y := by
  have hsign : ∀ s t : Bool, s = t ∨ s = !t := by decide
  cases h with
  | same => exact .inl rfl
  | nan s t => exact (hsign s t).imp (congrArg Binary.nan) (congrArg Binary.nan)
  | zero s t i hi =>
      exact (hsign s t).imp (congrArg (finite · i)) (congrArg (finite · i))

theorem isFinite_eq (h : SameValue x y) : x.isFinite = y.isFinite := by
  cases h <;> rfl

theorem isNaN_eq (h : SameValue x y) : x.isNaN = y.isNaN := by
  cases h <;> rfl

/-- Two numbers of the same value are equal, unless they are `NaN`. -/
theorem numEq_eq_true (h : SameValue x y) (hx : x.isNaN = false) : x.numEq y = true := by
  cases h with
  | same =>
      obtain ⟨k, hk⟩ := exists_key hx
      simp [numEq, hk]
  | nan s t => simp [isNaN] at hx
  | zero s t i hi => cases s <;> cases t <;> simp [numEq, key?, hi]

/-- Finite numbers that are equal have the same value. -/
theorem of_numEq (hx : x.isFinite = true) (hy : y.isFinite = true) (h : x.numEq y = true) :
    SameValue x y := by
  cases x with
  | finite s i =>
      cases y with
      | finite t j =>
          have hkey : (if s then -(i.val : ℤ) else i.val) = if t then -(j.val : ℤ) else j.val := by
            simpa [numEq, key?] using h
          obtain rfl : i = j := by
            apply Fin.ext
            split at hkey <;> split at hkey <;> omega
          by_cases hi : i.val = 0
          · exact .zero s t i hi
          · -- away from zero the sign is seen
            obtain rfl : s = t := by
              cases s <;> cases t <;> simp at hkey ⊢ <;> omega
            exact .same _
      | _ => simp [isFinite] at hy
  | _ => simp [isFinite] at hx

protected theorem neg (h : SameValue x y) : SameValue (-x) (-y) := by
  cases h with
  | same => exact .same _
  | nan s t => exact .nan _ _
  | zero s t i hi => exact .zero _ _ i hi

/-- Zeros without quanta have the same value. -/
theorem ofQuanta_zero {i : Fin F.infIndex} (s t : Bool) {den : ℕ} (hd : 0 < den) :
    SameValue (ofQuanta F s 0 den) (ofQuanta F t 0 den) := by
  have hF : 0 < F.infIndex := Nat.lt_of_le_of_lt (Nat.zero_le _) i.isLt
  rw [Binary.ofQuanta_zero hF s hd, Binary.ofQuanta_zero hF t hd]
  exact .zero s t ⟨0, hF⟩ rfl

end SameValue

/-! ### Operations on numbers of the same value -/

theorem SameValue.add_right (h : SameValue x y) (z : Binary F) : SameValue (x + z) (y + z) := by
  change SameValue (Binary.add x z) (Binary.add y z)
  cases h with
  | same => exact .same _
  | nan s t => exact .same _
  | zero s t i hi =>
      cases z with
      | nan u => exact .same _
      | inf u => exact .same _
      | finite u j =>
          have hsigned : ∀ s, signed F s i = 0 := by
            intro s
            cases s <;> simp [signed, hi]
          simp only [Binary.add, hsigned]
          split
          · exact SameValue.ofQuanta_zero (i := i) _ _ Nat.one_pos
          · exact .same _

theorem SameValue.add (h : SameValue x y) (h' : SameValue z w) : SameValue (x + z) (y + w) := by
  refine (h.add_right z).trans ?_
  rw [add_comm y z, add_comm y w]
  exact h'.add_right y

theorem SameValue.sub (h : SameValue x y) (h' : SameValue z w) : SameValue (x - z) (y - w) :=
  h.add h'.neg

theorem SameValue.mul_right (h : SameValue x y) (z : Binary F) : SameValue (x * z) (y * z) := by
  change SameValue (Binary.mul x z) (Binary.mul y z)
  cases h with
  | same => exact .same _
  | nan s t => exact .same _
  | zero s t i hi =>
      cases z with
      | nan u => exact .same _
      | inf u =>
          simp only [Binary.mul, if_pos hi]
          exact .same _
      | finite u j =>
          simp only [Binary.mul, hi, Format.magnitude_zero, Nat.zero_mul]
          exact SameValue.ofQuanta_zero (i := i) _ _ (Nat.two_pow_pos _)

/-! ### Zero -/

/-- Adding zero changes at most the sign of a zero. -/
theorem sameValue_add_zero (hF : 0 < F.infIndex) (x : Binary F) : SameValue (x + 0) x := by
  rw [zero_eq hF]
  change SameValue (Binary.add x (finite false ⟨0, hF⟩)) x
  cases x with
  | nan s => exact .nan _ _
  | inf s => exact .same _
  | finite s i =>
      have hsum : signed F s i + signed F false 0 = signed F s i := by simp [signed]
      simp only [Binary.add, hsum]
      rcases Nat.eq_zero_or_pos i.val with hzero | hpos
      · have hnothing : signed F s i = 0 := by cases s <;> simp [signed, hzero]
        obtain rfl : i = ⟨0, hF⟩ := Fin.ext hzero
        rw [if_pos hnothing, zero, Binary.ofQuanta_zero hF _ Nat.one_pos]
        exact .zero _ s ⟨0, hF⟩ rfl
      · have hmagnitude := F.magnitude_pos hpos
        have hsign : decide (signed F s i < 0) = s := by
          cases s with
          | false => simp [signed]
          | true => simp [signed, hmagnitude]
        have habs : (signed F s i).natAbs = F.magnitude i := by cases s <;> simp [signed]
        have hsome : signed F s i ≠ 0 := by omega
        have hexact := ofQuanta_magnitude s i Nat.one_pos
        rw [Nat.mul_one] at hexact
        rw [if_neg hsome, hsign, habs, hexact]
        exact .same _

/-- Zero times a finite number is a zero. -/
theorem sameValue_zero_mul (hF : 0 < F.infIndex) (hy : y.isFinite = true) :
    SameValue (0 * y) 0 := by
  rw [zero_eq hF]
  change SameValue (Binary.mul (finite false ⟨0, hF⟩) y) (finite false ⟨0, hF⟩)
  cases y with
  | finite t j =>
      simp only [Binary.mul, Format.magnitude_zero, Nat.zero_mul,
        Binary.ofQuanta_zero hF _ (Nat.two_pow_pos _)]
      exact .zero _ _ ⟨0, hF⟩ rfl
  | _ => simp [isFinite] at hy

/-! ### Odd operations -/

/-- The sum of the numbers with the other signs is the sum with the other sign. -/
theorem neg_add_neg (x y : Binary F) : SameValue (-x + -y) (-(x + y)) := by
  change SameValue (Binary.add (Binary.neg x) (Binary.neg y)) (Binary.neg (Binary.add x y))
  cases x with
  | nan s => exact .nan _ _
  | inf s =>
      cases y with
      | nan t => exact .nan _ _
      | inf t =>
          by_cases hst : s = t
          · simp only [Binary.neg, Binary.add, hst, if_true]
            exact .same _
          · have hflip : ¬ (!s) = !t := by simpa using hst
            simp only [Binary.neg, Binary.add, if_neg hst, if_neg hflip]
            exact .nan _ _
      | finite t j => exact .same _
  | finite s i =>
      cases y with
      | nan t => exact .nan _ _
      | inf t => exact .same _
      | finite t j =>
          have hsigned : ∀ s k, signed F (!s) k = -signed F s k := by
            intro s k
            cases s <;> simp [signed]
          simp only [Binary.neg, Binary.add, hsigned, ← Int.neg_add, Int.neg_eq_zero]
          generalize signed F s i + signed F t j = sum
          split
          · have hneg := neg_ofQuanta (F := F) (s && t) 0 1
            change SameValue _ (-(ofQuanta F (s && t) 0 1))
            rw [hneg]
            exact SameValue.ofQuanta_zero (i := i) _ _ Nat.one_pos
          · rename_i hne
            have hflip : decide (-sum < 0) = !decide (sum < 0) := by
              rw [← decide_not, decide_eq_decide]
              omega
            rw [hflip, Int.natAbs_neg]
            exact .of_eq (neg_ofQuanta _ _ _).symm

theorem not_bne_eq (s t : Bool) : ((!s) != t) = !(s != t) := by
  cases s <;> cases t <;> rfl

/-- A factor with the other sign gives the product with the other sign. -/
theorem neg_mul_left (x y : Binary F) : SameValue (-x * y) (-(x * y)) := by
  change SameValue (Binary.mul (Binary.neg x) y) (Binary.neg (Binary.mul x y))
  cases x with
  | nan s => exact .nan _ _
  | inf s =>
      cases y with
      | nan t => exact .nan _ _
      | inf t =>
          simp only [Binary.neg, Binary.mul, not_bne_eq]
          exact .same _
      | finite t j =>
          simp only [Binary.neg, Binary.mul, not_bne_eq]
          split
          · exact .nan _ _
          · exact .same _
  | finite s i =>
      cases y with
      | nan t => exact .nan _ _
      | inf t =>
          simp only [Binary.neg, Binary.mul, not_bne_eq]
          split
          · exact .nan _ _
          · exact .same _
      | finite t j =>
          simp only [Binary.neg, Binary.mul, not_bne_eq]
          exact .of_eq (neg_ofQuanta _ _ _).symm

theorem neg_mul_right (x y : Binary F) : SameValue (x * -y) (-(x * y)) := by
  rw [mul_comm x, mul_comm x]
  exact neg_mul_left y x

/-- A dividend with the other sign gives the quotient with the other sign. -/
theorem neg_div_left (x y : Binary F) : SameValue (-x / y) (-(x / y)) := by
  change SameValue (Binary.div (Binary.neg x) y) (Binary.neg (Binary.div x y))
  cases x with
  | nan s => exact .nan _ _
  | inf s =>
      cases y with
      | nan t => exact .nan _ _
      | inf t => exact .nan _ _
      | finite t j =>
          simp only [Binary.neg, Binary.div, not_bne_eq]
          exact .same _
  | finite s i =>
      cases y with
      | nan t => exact .nan _ _
      | inf t =>
          simp only [Binary.neg, Binary.div, not_bne_eq]
          exact .of_eq (neg_ofQuanta _ _ _).symm
      | finite t j =>
          simp only [Binary.neg, Binary.div, not_bne_eq]
          split
          · split
            · exact .nan _ _
            · exact .same _
          · exact .of_eq (neg_ofQuanta _ _ _).symm

theorem neg_sub_swap (x y : Binary F) : SameValue (y - x) (-(x - y)) := by
  have h := neg_add_neg x (-y)
  rw [neg_twice, add_comm] at h
  exact h

end StripeBrush.Binary
