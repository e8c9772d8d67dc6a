/-
**The order of the numbers of a format.**

Numbers are compared by their places, which are integers; `NaN` has no place and takes no part.  So
the order is transitive and, apart from `NaN`, total, and whatever lies between two finite numbers
is finite.  Moving a number into a range gives a number of the range.

Main results:

* `Binary.le_trans`, `Binary.le_of_not_lt`, `Binary.not_le_iff_lt` — the order is transitive and total
  but for `NaN`;
* `Binary.isFinite_of_le_of_le` — what lies between two finite numbers is finite;
* `Binary.le_clamp_le` — **a number that was moved into a range lies in it**.
-/

import StripeBrush.Binary.Basic

set_option relaxedAutoImplicit false
set_option autoImplicit false

namespace StripeBrush.Binary

variable {F : Format} {a b c lo hi x y : Binary F}

/-! ### Places -/

theorem exists_key (h : a.isNaN = false) : ∃ k, a.key? = some k := by
  cases a with
  | nan s => simp [isNaN] at h
  | inf s => exact ⟨_, rfl⟩
  | finite s i => exact ⟨_, rfl⟩

theorem isNaN_of_isFinite (h : a.isFinite = true) : a.isNaN = false := by
  cases a with
  | finite s i => rfl
  | _ => simp [isFinite] at h

theorem isInf_of_isFinite (h : a.isFinite = true) : a.isInf = false := by
  cases a with
  | finite s i => rfl
  | _ => simp [isFinite] at h

theorem isFinite_of_isInf (hnumber : a.isNaN = false) (h : a.isInf = false) :
    a.isFinite = true := by
  cases a with
  | nan s => simp [isNaN] at hnumber
  | inf s => simp [isInf] at h
  | finite s i => rfl

@[simp] theorem isFinite_neg (x : Binary F) : (-x).isFinite = x.isFinite := by
  cases x <;> rfl

theorem lt_iff_key : a < b ↔ ∃ j k, a.key? = some j ∧ b.key? = some k ∧ j < k := by
  change a.blt b = true ↔ _
  unfold blt
  cases a.key? <;> cases b.key? <;> simp

theorem le_iff_key : a ≤ b ↔ ∃ j k, a.key? = some j ∧ b.key? = some k ∧ j ≤ k := by
  change a.ble b = true ↔ _
  unfold ble
  cases a.key? <;> cases b.key? <;> simp

/-- A number is finite exactly when its place is among the finite indices. -/
theorem isFinite_iff_key {k : Int} (h : a.key? = some k) :
    a.isFinite = true ↔ -(F.infIndex : Int) < k ∧ k < F.infIndex := by
  cases a with
  | nan s => simp [key?] at h
  | inf s => cases s <;> simp [key?] at h <;> simp [isFinite] <;> omega
  | finite s i =>
      have := i.isLt
      cases s <;> simp [key?] at h <;> simp [isFinite] <;> omega

/-! ### Order -/

theorem le_refl (h : a.isNaN = false) : a ≤ a := by
  obtain ⟨k, hk⟩ := exists_key h
  exact le_iff_key.2 ⟨k, k, hk, hk, Int.le_refl k⟩

theorem le_trans (h : a ≤ b) (h' : b ≤ c) : a ≤ c := by
  obtain ⟨i, j, hi, hj, hij⟩ := le_iff_key.1 h
  obtain ⟨j', k, hj', hk, hjk⟩ := le_iff_key.1 h'
  obtain rfl : j = j' := Option.some.inj (hj.symm.trans hj')
  exact le_iff_key.2 ⟨i, k, hi, hk, Int.le_trans hij hjk⟩

/-- But for `NaN`, any two numbers are in one order or the other. -/
theorem le_of_not_lt (ha : a.isNaN = false) (hb : b.isNaN = false) (h : ¬ a < b) : b ≤ a := by
  obtain ⟨j, hj⟩ := exists_key ha
  obtain ⟨k, hk⟩ := exists_key hb
  refine le_iff_key.2 ⟨k, j, hk, hj, ?_⟩
  have hkj : ¬ j < k := fun hlt => h (lt_iff_key.2 ⟨j, k, hj, hk, hlt⟩)
  omega

theorem le_of_lt (h : a < b) : a ≤ b := by
  obtain ⟨j, k, hj, hk, hjk⟩ := lt_iff_key.1 h
  exact le_iff_key.2 ⟨j, k, hj, hk, Int.le_of_lt hjk⟩

theorem lt_of_lt_of_le (h : a < b) (h' : b ≤ c) : a < c := by
  obtain ⟨i, j, hi, hj, hij⟩ := lt_iff_key.1 h
  obtain ⟨j', k, hj', hk, hjk⟩ := le_iff_key.1 h'
  obtain rfl : j = j' := Option.some.inj (hj.symm.trans hj')
  exact lt_iff_key.2 ⟨i, k, hi, hk, Int.lt_of_lt_of_le hij hjk⟩

theorem not_lt_of_le (h : a ≤ b) : ¬ b < a := by
  intro hlt
  obtain ⟨i, j, hi, hj, hij⟩ := lt_iff_key.1 (lt_of_lt_of_le hlt h)
  obtain rfl : i = j := Option.some.inj (hi.symm.trans hj)
  exact Int.lt_irrefl i hij

/-- But for `NaN`, a number is not at most another one exactly when it is above it. -/
theorem not_le_iff_lt (ha : a.isNaN = false) (hb : b.isNaN = false) : ¬ a ≤ b ↔ b < a := by
  constructor
  · intro hle
    exact Decidable.byContradiction fun hlt => hle (le_of_not_lt hb ha hlt)
  · intro hlt hle
    exact not_lt_of_le hle hlt

theorem key?_eq_of_le_of_le (h : a ≤ b) (h' : b ≤ a) : a.key? = b.key? := by
  obtain ⟨j, k, hj, hk, hjk⟩ := le_iff_key.1 h
  obtain ⟨k', j', hk', hj', hkj⟩ := le_iff_key.1 h'
  obtain rfl : k = k' := Option.some.inj (hk.symm.trans hk')
  obtain rfl : j = j' := Option.some.inj (hj.symm.trans hj')
  rw [hj, hk, Int.le_antisymm hjk hkj]

theorem numEq_of_le_of_le (h : a ≤ b) (h' : b ≤ a) : a.numEq b = true := by
  obtain ⟨j, k, hj, hk, -⟩ := le_iff_key.1 h
  have hjk : j = k := by
    have hkeys := key?_eq_of_le_of_le h h'
    rw [hj, hk] at hkeys
    exact Option.some.inj hkeys
  simp [numEq, hj, hk, hjk]

theorem isNaN_of_le (h : a ≤ b) : a.isNaN = false ∧ b.isNaN = false := by
  obtain ⟨j, k, hj, hk, -⟩ := le_iff_key.1 h
  constructor
  · cases a <;> simp_all [key?, isNaN]
  · cases b <;> simp_all [key?, isNaN]

/-- What lies between two finite numbers is finite. -/
theorem isFinite_of_le_of_le (hlo : lo.isFinite = true) (hhi : hi.isFinite = true) (h : lo ≤ x)
    (h' : x ≤ hi) : x.isFinite = true := by
  obtain ⟨i, j, hi', hj, hij⟩ := le_iff_key.1 h
  obtain ⟨j', k, hj', hk, hjk⟩ := le_iff_key.1 h'
  obtain rfl : j = j' := Option.some.inj (hj.symm.trans hj')
  rw [isFinite_iff_key hi'] at hlo
  rw [isFinite_iff_key hk] at hhi
  rw [isFinite_iff_key hj]
  omega

/-! ### Ranges -/

/-- **A number that was moved into a range lies in it.** -/
theorem le_clamp_le (h : clamp? lo hi x = some y) (hx : x.isNaN = false) : lo ≤ y ∧ y ≤ hi := by
  unfold clamp? at h
  split at h
  · rename_i hrange
    obtain ⟨hlo, hhi⟩ := isNaN_of_le hrange
    have hy := (Option.some.inj h).symm
    subst hy
    split
    · exact ⟨le_refl hlo, hrange⟩
    · rename_i hxlo
      split
      · exact ⟨hrange, le_refl hhi⟩
      · rename_i hhix
        exact ⟨le_of_not_lt hx hlo hxlo, le_of_not_lt hhi hx hhix⟩
  · simp at h

end StripeBrush.Binary
